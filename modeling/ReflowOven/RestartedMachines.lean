import ReflowOven.GuardedMachines

/-!
# Machines that halt and are started again

A machine may be cut off at any moment. The cut changes its state once, and then nothing does
until it is started again. Between two starts it is in a run of its own, so that what holds of
every run holds here of the inputs since the last start.
-/

namespace ReflowOven

universe u v w

variable {σ : Type u} {α : Type v} {φ : Type w}

inductive PowerEvent (σ : Type u) (α : Type v) (φ : Type w)
  | input (a : α)
  | halt (f : φ)
  | start (s : σ)

/-- The state, and what halted the machine if it was. -/
structure Powered (σ : Type u) (φ : Type w) where
  state : σ
  halted : Option φ

namespace Machine

variable (M : Machine σ α) (cut : φ → σ → σ)

/-- A machine that is halted takes no notice of its inputs. -/
def powered : Machine (Powered σ φ) (PowerEvent σ α φ) where
  init p := M.init p.state ∧ p.halted = none
  admits
    | p, .input a => p.halted = none → M.admits p.state a
    | _, .halt _ => True
    | _, .start s => M.init s
  step
    | p, .input a => if p.halted.isSome then p else ⟨M.step p.state a, none⟩
    | p, .halt f => if p.halted.isSome then p else ⟨cut f p.state, some f⟩
    | _, .start s => ⟨s, none⟩

/-- Nothing but a start changes a machine that is halted. -/
theorem run_of_halted {M : Machine σ α} {cut : φ → σ → σ} {p : Powered σ φ}
    (hp : p.halted.isSome) {events : List (PowerEvent σ α φ)} (hno : ∀ s, .start s ∉ events) :
    (M.powered cut).run p events = p := by
  induction events with
  | nil => rfl
  | cons e events ih =>
    have hkept : (M.powered cut).step p e = p := by
      cases e with
      | input a => exact if_pos hp
      | halt f => exact if_pos hp
      | start s => exact absurd List.mem_cons_self (hno s)
    rw [run_cons, hkept]
    exact ih fun s hs => hno s (List.mem_cons_of_mem _ hs)

def sinceStart (events : List (PowerEvent σ α φ)) : List α :=
  events.foldl (fun as e =>
    match e with
    | .input a => as ++ [a]
    | .halt _ => as
    | .start _ => []) []

/-- The part of these inputs that was taken is a run, and the state is where it led, or what
the cut made of that. -/
structure Lived (events : List (PowerEvent σ α φ)) (p : Powered σ φ) (s : σ) (as : List α) :
    Prop where
  init : M.init s
  admitted : M.Admitted s as
  taken : as <+: sinceStart events
  running : p.halted = none → p.state = M.run s as ∧ as = sinceStart events
  halted : ∀ f ∈ p.halted, p.state = cut f (M.run s as)

variable {M cut} {events : List (PowerEvent σ α φ)} {p : Powered σ φ} {s : σ} {as : List α}

theorem Lived.start (h : M.init s) (events : List (PowerEvent σ α φ)) :
    Lived M cut (events ++ [.start s]) ⟨s, none⟩ s [] where
  init := h
  admitted := trivial
  taken := List.nil_prefix
  running _ := ⟨rfl, by simp [sinceStart]⟩
  halted := by simp

theorem Lived.input (h : Lived M cut events p s as) {a : α}
    (ha : p.halted = none → M.admits p.state a) :
    ∃ as', Lived M cut (events ++ [.input a]) ((M.powered cut).step p (.input a)) s as' := by
  have hsince : sinceStart (events ++ [.input a]) = sinceStart events ++ [a] := by
    simp [sinceStart]
  cases hhalted : p.halted with
  | some f =>
    have hkept : (M.powered cut).step p (.input a) = p := by simp [powered, hhalted]
    rw [hkept]
    refine ⟨as, h.init, h.admitted, hsince ▸ h.taken.trans (List.prefix_append _ _), ?_, h.halted⟩
    intro hnone
    exact absurd (hnone.symm.trans hhalted) (by simp)
  | none =>
    obtain ⟨hstate, hall⟩ := h.running hhalted
    have hrun : M.run s (as ++ [a]) = M.step p.state a := by
      rw [run_append, ← hstate]
      rfl
    have hnext : (M.powered cut).step p (.input a) = ⟨M.step p.state a, none⟩ := by
      simp [powered, hhalted]
    rw [hnext]
    refine ⟨as ++ [a], h.init, ?_, ?_, fun _ => ⟨hrun.symm, by rw [hsince, hall]⟩, by simp⟩
    · exact admitted_append.mpr ⟨h.admitted, hstate ▸ ha hhalted, trivial⟩
    · exact ⟨[], by rw [List.append_nil, hsince, hall]⟩

theorem Lived.halt (h : Lived M cut events p s as) (f : φ) :
    Lived M cut (events ++ [.halt f]) ((M.powered cut).step p (.halt f)) s as := by
  have hsince : sinceStart (events ++ [.halt f]) = sinceStart events := by
    simp [sinceStart]
  cases hhalted : p.halted with
  | some f' =>
    have hkept : (M.powered cut).step p (.halt f) = p := by simp [powered, hhalted]
    rw [hkept]
    exact ⟨h.init, h.admitted, hsince ▸ h.taken, fun hnone => hsince ▸ h.running hnone, h.halted⟩
  | none =>
    have hnext : (M.powered cut).step p (.halt f) = ⟨cut f p.state, some f⟩ := by
      simp [powered, hhalted]
    rw [hnext]
    refine ⟨h.init, h.admitted, hsince ▸ h.taken, nofun, fun f' hf' => ?_⟩
    obtain rfl := Option.some.inj hf'
    rw [(h.running hhalted).1]

/-- Whatever has been halted and started before, the machine is in a run of its own. -/
theorem exists_lived (hp : (M.powered cut).init p) (h : (M.powered cut).Admitted p events) :
    ∃ s as, Lived M cut events ((M.powered cut).run p events) s as := by
  have hstart : ∃ s as, Lived M cut [] p s as :=
    ⟨p.state, [], hp.1, trivial, List.nil_prefix, fun _ => ⟨rfl, rfl⟩, by simp [hp.2]⟩
  refine run_invariant_inputs
    (I := fun events p => ∃ s as, Lived M cut events p s as) ?_ hstart h
  rintro taken p e ⟨s, as, hlived⟩ he
  cases e with
  | input a =>
    obtain ⟨as', hnext⟩ := hlived.input he
    exact ⟨s, as', hnext⟩
  | halt f => exact ⟨s, as, hlived.halt f⟩
  | start s' => exact ⟨s', [], Lived.start he taken⟩

theorem powered_map_input (s : σ) (as : List α) :
    (M.powered cut).run ⟨s, none⟩ (as.map .input) = ⟨M.run s as, none⟩ ∧
      ((M.powered cut).Admitted ⟨s, none⟩ (as.map .input) ↔ M.Admitted s as) := by
  induction as generalizing s with
  | nil => exact ⟨rfl, Iff.rfl⟩
  | cons a as ih =>
    obtain ⟨hrun, hadmitted⟩ := ih (M.step s a)
    exact ⟨hrun, and_congr (forall_prop_of_true rfl) hadmitted⟩

end Machine

end ReflowOven
