import Mathlib.Data.List.Chain

/-!
# Guarded deterministic machines

A machine has initial states, a guard that says which inputs may be taken in a state,
and a total step function. All nondeterminism of an environment is carried by the
inputs, so one input list is one interleaving. Reachability, runs over input lists and
the two induction rules used for safety proofs are given once, for arbitrary states and
inputs; `restrict` strengthens the guard, which is how a condition on every step of a
run is expressed.
-/

namespace ReflowOven

universe u v w x y

structure Machine (σ : Type u) (α : Type v) where
  init : σ → Prop
  admits : σ → α → Prop
  step : σ → α → σ

namespace Machine

variable {σ : Type u} {α : Type v}

/-- States reached from an initial one by admitted inputs. -/
inductive Reachable (M : Machine σ α) : σ → Prop where
  | start {s} (h : M.init s) : Reachable M s
  | next {s a} (hs : Reachable M s) (ha : M.admits s a) : Reachable M (M.step s a)

/-- The state after a list of inputs. -/
def run (M : Machine σ α) (s : σ) (as : List α) : σ := as.foldl M.step s

/-- Every input of the list is admitted in the state where it is taken. -/
def Admitted (M : Machine σ α) : σ → List α → Prop
  | _, [] => True
  | s, a :: as => M.admits s a ∧ Admitted M (M.step s a) as

/-- The states a run passes through, the first and the last included. -/
def visited (M : Machine σ α) : σ → List α → List σ
  | s, [] => [s]
  | s, a :: as => s :: visited M (M.step s a) as

variable {M : Machine σ α}

@[simp] theorem run_nil (s : σ) : M.run s [] = s := rfl

@[simp] theorem run_cons (s : σ) (a : α) (as : List α) :
    M.run s (a :: as) = M.run (M.step s a) as := rfl

@[simp] theorem admitted_nil (s : σ) : M.Admitted s [] := trivial

@[simp] theorem admitted_cons (s : σ) (a : α) (as : List α) :
    M.Admitted s (a :: as) ↔ M.admits s a ∧ M.Admitted (M.step s a) as := Iff.rfl

/-- Where the guard is decidable, so is the admission of a whole list. -/
instance decidableAdmitted [∀ s a, Decidable (M.admits s a)] :
    ∀ (s : σ) (as : List α), Decidable (M.Admitted s as)
  | _, [] => inferInstanceAs (Decidable True)
  | s, a :: as =>
    have := decidableAdmitted (M.step s a) as
    inferInstanceAs (Decidable (M.admits s a ∧ M.Admitted (M.step s a) as))

theorem admitted_of_forall (h : ∀ s a, M.admits s a) (s : σ) (as : List α) :
    M.Admitted s as := by
  induction as generalizing s with
  | nil => trivial
  | cons a as ih => exact ⟨h s a, ih _⟩

theorem run_append (s : σ) (as as' : List α) :
    M.run s (as ++ as') = M.run (M.run s as) as' := List.foldl_append

theorem admitted_append {s : σ} {as as' : List α} :
    M.Admitted s (as ++ as') ↔ M.Admitted s as ∧ M.Admitted (M.run s as) as' := by
  induction as generalizing s with
  | nil => simp
  | cons a as ih => simp [ih, and_assoc]

/-- What one admitted step preserves, an admitted run preserves. -/
theorem run_invariant {I : σ → Prop} (hstep : ∀ s a, I s → M.admits s a → I (M.step s a))
    {s : σ} (hs : I s) {as : List α} (has : M.Admitted s as) : I (M.run s as) := by
  induction as generalizing s with
  | nil => exact hs
  | cons a as ih => exact ih (hstep s a hs has.1) has.2

/-- The same for what speaks of the inputs taken so far. -/
theorem run_invariant_inputs {I : List α → σ → Prop}
    (hstep : ∀ taken s a, I taken s → M.admits s a → I (taken ++ [a]) (M.step s a))
    {taken : List α} {s : σ} (hs : I taken s) {as : List α} (has : M.Admitted s as) :
    I (taken ++ as) (M.run s as) := by
  induction as generalizing s taken with
  | nil => rwa [List.append_nil]
  | cons a as ih =>
    rw [List.append_cons]
    exact ih (hstep taken s a hs has.1) has.2

/-- What the steps of a run yield, in order. -/
def yields (M : Machine σ α) {β : Type w} (f : σ → α → List β) : σ → List α → List β
  | _, [] => []
  | s, a :: as => f s a ++ yields M f (M.step s a) as

/-- The same for what speaks of the inputs taken so far and of what the steps have yielded. -/
theorem run_invariant_yields {β : Type w} {f : σ → α → List β} {I : List α → List β → σ → Prop}
    (hstep : ∀ taken bs s a, I taken bs s → M.admits s a →
      I (taken ++ [a]) (bs ++ f s a) (M.step s a))
    {taken : List α} {bs : List β} {s : σ} (hs : I taken bs s) {as : List α}
    (has : M.Admitted s as) : I (taken ++ as) (bs ++ M.yields f s as) (M.run s as) := by
  induction as generalizing s taken bs with
  | nil => rwa [List.append_nil, yields, List.append_nil]
  | cons a as ih =>
    rw [List.append_cons, yields, ← List.append_assoc]
    exact ih (hstep taken bs s a hs has.1) has.2

/-- What holds initially and is preserved by each admitted step holds of every
reachable state. -/
theorem Reachable.invariant {I : σ → Prop} (hinit : ∀ s, M.init s → I s)
    (hstep : ∀ s a, M.Reachable s → I s → M.admits s a → I (M.step s a))
    {s : σ} (h : M.Reachable s) : I s := by
  induction h with
  | start h => exact hinit _ h
  | next hs ha ih => exact hstep _ _ hs ih ha

theorem Reachable.run {s : σ} (h : M.Reachable s) {as : List α} (has : M.Admitted s as) :
    M.Reachable (M.run s as) :=
  run_invariant (fun _ _ hs ha => hs.next ha) h has

/-- The same machine with an additional condition on every step. -/
def restrict (M : Machine σ α) (c : σ → α → Prop) : Machine σ α where
  init := M.init
  admits s a := M.admits s a ∧ c s a
  step := M.step

instance decidableRestrict (c : σ → α → Prop) [∀ s a, Decidable (M.admits s a)]
    [∀ s a, Decidable (c s a)] (s : σ) (a : α) : Decidable ((M.restrict c).admits s a) :=
  inferInstanceAs (Decidable (_ ∧ _))

/-- A condition that an invariant implies at every step restricts nothing. -/
theorem admitted_restrict {I : σ → Prop} {c : σ → α → Prop}
    (hI : ∀ s a, I s → M.admits s a → I (M.step s a))
    (hc : ∀ s a, I s → M.admits s a → c s a) {s : σ} (hs : I s) {as : List α}
    (has : M.Admitted s as) : (M.restrict c).Admitted s as := by
  induction as generalizing s with
  | nil => trivial
  | cons a as ih => exact ⟨⟨has.1, hc s a hs has.1⟩, ih (hI s a hs has.1) has.2⟩

theorem visited_eq_cons (s : σ) (as : List α) : ∃ l, M.visited s as = s :: l := by
  cases as with
  | nil => exact ⟨[], rfl⟩
  | cons a as => exact ⟨_, rfl⟩

theorem mem_visited_self (s : σ) (as : List α) : s ∈ M.visited s as := by
  cases as <;> exact List.mem_cons_self

theorem run_mem_visited (s : σ) (as : List α) : M.run s as ∈ M.visited s as := by
  induction as generalizing s with
  | nil => exact List.mem_cons_self
  | cons a as ih => exact List.mem_cons_of_mem _ (ih _)

/-- The states a run passes through are the ends of its beginnings. -/
theorem mem_visited_iff {s t : σ} {as : List α} :
    t ∈ M.visited s as ↔ ∃ taken, taken <+: as ∧ M.run s taken = t := by
  induction as generalizing s with
  | nil => simp [visited, eq_comm]
  | cons a as ih =>
    simp only [visited, List.mem_cons, ih, List.prefix_cons_iff]
    constructor
    · rintro (rfl | ⟨taken, htaken, rfl⟩)
      · exact ⟨[], .inl rfl, rfl⟩
      · exact ⟨a :: taken, .inr ⟨taken, rfl, htaken⟩, rfl⟩
    · rintro ⟨taken, rfl | ⟨taken', rfl, htaken⟩, rfl⟩
      · exact .inl rfl
      · exact .inr ⟨taken', htaken, rfl⟩

theorem visited_invariant {I : σ → Prop} (hstep : ∀ s a, I s → M.admits s a → I (M.step s a))
    {s : σ} (hs : I s) {as : List α} (has : M.Admitted s as) : ∀ t ∈ M.visited s as, I t := by
  induction as generalizing s with
  | nil => simpa [visited] using hs
  | cons a as ih => exact List.forall_mem_cons.mpr ⟨hs, ih (hstep s a hs has.1) has.2⟩

/-- What relates the two ends of each admitted step links the visited states. -/
theorem visited_isChain {I : σ → Prop} {R : σ → σ → Prop}
    (hI : ∀ s a, I s → M.admits s a → I (M.step s a))
    (hR : ∀ s a, I s → M.admits s a → R s (M.step s a)) {s : σ} (hs : I s) {as : List α}
    (has : M.Admitted s as) : (M.visited s as).IsChain R := by
  induction as generalizing s with
  | nil => exact .singleton s
  | cons a as ih =>
    have htail := ih (hI s a hs has.1) has.2
    have hlink := hR s a hs has.1
    cases as with
    | nil => exact .cons_cons hlink htail
    | cons b bs => exact .cons_cons hlink htail

@[simp] theorem visited_restrict (c : σ → α → Prop) (s : σ) (as : List α) :
    (M.restrict c).visited s as = M.visited s as := by
  induction as generalizing s with
  | nil => rfl
  | cons a as ih => exact congrArg (s :: ·) (ih _)

/-- What a step that meets a condition preserves holds throughout the runs whose steps all
meet it. -/
theorem visited_invariant_restrict {I : σ → Prop} {c : σ → α → Prop}
    (hstep : ∀ s a, I s → M.admits s a → c s a → I (M.step s a)) {s : σ} (hs : I s)
    {as : List α} (has : (M.restrict c).Admitted s as) : ∀ t ∈ M.visited s as, I t := by
  rw [← M.visited_restrict c]
  exact visited_invariant (M := M.restrict c) (fun s a h ha => hstep s a h ha.1 ha.2) hs has

/-- What steps inside `P` preserve, a run inside `P` preserves. -/
theorem run_invariant_inside {I P : σ → Prop}
    (hstep : ∀ s a, I s → P s → M.admits s a → P (M.step s a) → I (M.step s a))
    {s : σ} (hs : I s) {as : List α} (has : M.Admitted s as) (hP : ∀ t ∈ M.visited s as, P t) :
    I (M.run s as) := by
  induction as generalizing s with
  | nil => exact hs
  | cons a as ih =>
    rw [visited, List.forall_mem_cons] at hP
    exact ih (hstep s a hs hP.1 has.1 (hP.2 _ (mem_visited_self _ _))) has.2 hP.2

/-- An exact condition for a property of whole runs: where each step keeps `P` if and only
if it meets `c`, the runs that stay inside `P` are those whose steps all meet `c`. -/
theorem forall_visited_iff {I P : σ → Prop} {c : σ → α → Prop}
    (hI : ∀ s a, I s → M.admits s a → I (M.step s a))
    (hc : ∀ s a, I s → P s → M.admits s a → (P (M.step s a) ↔ c s a))
    {s : σ} (hs : I s) (hP : P s) {as : List α} (has : M.Admitted s as) :
    (∀ t ∈ M.visited s as, P t) ↔ (M.restrict c).Admitted s as := by
  induction as generalizing s with
  | nil => simpa [visited] using hP
  | cons a as ih =>
    have hstep := hc s a hs hP has.1
    have htail := ih (hI s a hs has.1)
    simp only [visited, List.forall_mem_cons, hP, true_and]
    constructor
    · intro h
      have hnext : P (M.step s a) := h _ (mem_visited_self _ _)
      exact ⟨⟨has.1, hstep.mp hnext⟩, (htail hnext has.2).mp h⟩
    · rintro ⟨⟨-, hca⟩, hrest⟩
      exact (htail (hstep.mpr hca) has.2).mpr hrest

/-- Two machines in lockstep: where corresponding inputs keep a relation between the states,
and related states look the same, the two runs look the same throughout. -/
theorem map_visited_lockstep {τ : Type w} {β : Type x} {ω : Type y} {M : Machine σ α}
    {N : Machine τ β} {R : σ → τ → Prop} {input : α → β} {look : σ → ω} {look' : τ → ω}
    (hstep : ∀ s t a, R s t → R (M.step s a) (N.step t (input a)))
    (hlook : ∀ s t, R s t → look s = look' t) {s : σ} {t : τ} (h : R s t) (as : List α) :
    (M.visited s as).map look = (N.visited t (as.map input)).map look' := by
  induction as generalizing s t with
  | nil => simp [visited, hlook s t h]
  | cons a as ih => simp [visited, hlook s t h, ih (hstep s t a h)]

end Machine

end ReflowOven
