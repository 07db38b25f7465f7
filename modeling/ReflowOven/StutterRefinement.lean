import Mathlib.Data.List.Destutter
import Mathlib.Data.List.Forall2
import ReflowOven.GuardedMachines

/-!
# Refinement up to stuttering

Two histories are stutter equivalent when they are the same once immediate repetitions are
removed. A machine refines another one when each of its steps is answered by at most one
step of the other; whole runs then pass through stutter equivalent states, and so does a
record that each step extends by what it went through.
-/

namespace ReflowOven

universe u v w x y

section Stuttering

variable {τ : Type u} [DecidableEq τ]

/-- Equal up to immediate repetitions. -/
def StutterEq (l l' : List τ) : Prop := l.destutter (· ≠ ·) = l'.destutter (· ≠ ·)

instance (l l' : List τ) : Decidable (StutterEq l l') := inferInstanceAs (Decidable (_ = _))

theorem StutterEq.refl (l : List τ) : StutterEq l l := rfl

theorem StutterEq.symm {l l' : List τ} (h : StutterEq l l') : StutterEq l' l := Eq.symm h

theorem StutterEq.trans {l₁ l₂ l₃ : List τ} (h : StutterEq l₁ l₂) (h' : StutterEq l₂ l₃) :
    StutterEq l₁ l₃ := Eq.trans h h'

theorem exists_destutter'_cons (b : τ) (l : List τ) :
    ∃ l', l.destutter' (· ≠ ·) b = b :: l' := by
  induction l with
  | nil => exact ⟨[], rfl⟩
  | cons c l ih =>
    rw [List.destutter'_cons]
    split
    · exact ⟨_, rfl⟩
    · exact ih

theorem destutter_append_left (b : τ) (l m : List τ) :
    (l.destutter' (· ≠ ·) b ++ m).destutter (· ≠ ·) = (l ++ m).destutter' (· ≠ ·) b := by
  induction l generalizing b with
  | nil => rfl
  | cons c l ih =>
    rw [List.cons_append, List.destutter'_cons, List.destutter'_cons]
    split
    · next hne =>
      obtain ⟨l', hl⟩ := exists_destutter'_cons c l
      have htail := ih c
      rw [hl, List.cons_append] at htail ⊢
      rw [List.cons_append, List.destutter_cons_cons, if_pos hne, ← htail]
      rfl
    · exact ih b

theorem destutter_append_right (b : τ) (l m : List τ) :
    (l ++ m.destutter (· ≠ ·)).destutter' (· ≠ ·) b = (l ++ m).destutter' (· ≠ ·) b := by
  induction l generalizing b with
  | nil =>
    cases m with
    | nil => rfl
    | cons c m =>
      obtain ⟨m', hm⟩ := exists_destutter'_cons c m
      have hidem := List.destutter_idem (R := (· ≠ ·)) (c :: m)
      simp only [List.destutter_cons', List.nil_append, hm] at hidem ⊢
      rw [List.destutter'_cons, List.destutter'_cons]
      split
      · rw [hidem, hm]
      · next heq =>
        obtain rfl := not_not.mp heq
        rw [hidem, hm]
  | cons c l ih =>
    rw [List.cons_append, List.cons_append, List.destutter'_cons, List.destutter'_cons, ih c, ih b]

/-- Histories that differ by repetitions stay so however they go on. -/
theorem StutterEq.append {l l' m m' : List τ} (h : StutterEq l l') (h' : StutterEq m m') :
    StutterEq (l ++ m) (l' ++ m') := by
  have hleft : ∀ l m : List τ,
      (l ++ m).destutter (· ≠ ·) = (l.destutter (· ≠ ·) ++ m).destutter (· ≠ ·) := by
    intro l m
    cases l with
    | nil => rfl
    | cons b l => exact (destutter_append_left b l m).symm
  have hright : ∀ l m : List τ,
      (l ++ m).destutter (· ≠ ·) = (l ++ m.destutter (· ≠ ·)).destutter (· ≠ ·) := by
    intro l m
    cases l with
    | nil => exact (List.destutter_idem (R := (· ≠ ·)) m).symm
    | cons b l => exact (destutter_append_right b l m).symm
  simp only [StutterEq] at h h' ⊢
  rw [hleft, h, ← hleft, hright, h', ← hright]

theorem StutterEq.cons {l l' : List τ} (h : StutterEq l l') (t : τ) :
    StutterEq (t :: l) (t :: l') := (StutterEq.refl [t]).append h

theorem stutterEq_twice (t : τ) (l : List τ) : StutterEq (t :: t :: l) (t :: l) := by
  simp only [StutterEq, List.destutter_cons_cons, ne_eq, not_true_eq_false, if_false]
  rfl

/-- The last state stands, however often it is repeated. -/
theorem StutterEq.getLast?_eq {l l' : List τ} (h : StutterEq l l') : l.getLast? = l'.getLast? := by
  have hlast : ∀ (b : τ) (l : List τ), (l.destutter' (· ≠ ·) b).getLast? = (b :: l).getLast? := by
    intro b l
    induction l generalizing b with
    | nil => rfl
    | cons c l ih =>
      rw [List.destutter'_cons]
      split
      · obtain ⟨l', hl⟩ := exists_destutter'_cons c l
        rw [List.getLast?_cons_cons, ← ih c, hl, List.getLast?_cons_cons]
      · next heq =>
        obtain rfl := not_not.mp heq
        rw [ih b, List.getLast?_cons_cons]
  have hall : ∀ l : List τ, (l.destutter (· ≠ ·)).getLast? = l.getLast? := by
    intro l
    cases l with
    | nil => rfl
    | cons b l => exact hlast b l
  rw [← hall l, ← hall l', show l.destutter (· ≠ ·) = l'.destutter (· ≠ ·) from h]

end Stuttering

namespace Machine

variable {σ : Type u} {α : Type v} {τ : Type w} {β : Type x} {ο : Type y}

/-- How a step from `s` to `s'` is answered from `t`: by no step of `N` or by one that stems
from the input, and what the step put on record shows nothing but the two ends. -/
structure Answered (N : Machine τ β) [DecidableEq τ] (R : σ → τ → Prop) (stems : α → β → Prop)
    (record : σ → List ο) (Shows : ο → τ → Prop) (s s' : σ) (a : α) (t : τ) (e : Option β) :
    Prop where
  stems : ∀ b ∈ e, stems a b
  admitted : N.Admitted t e.toList
  related : R s' (N.run t e.toList)
  recorded : ∃ new us, record s' = record s ++ new ∧ List.Forall₂ Shows new us ∧
    StutterEq (t :: us) [t, N.run t e.toList]

/-- A run of `N` that the run of another machine from `s` over `as` follows. -/
structure Refined (M : Machine σ α) (N : Machine τ β) [DecidableEq τ] (R : σ → τ → Prop)
    (stems : α → β → Prop) (record : σ → List ο) (Shows : ο → τ → Prop) (s : σ) (as : List α)
    (t : τ) (es : List β) : Prop where
  admitted : N.Admitted t es
  related : R (M.run s as) (N.run t es)
  stem : ∃ as', as'.Sublist as ∧ List.Forall₂ stems as' es
  visited : ∃ ts, List.Forall₂ R (M.visited s as) ts ∧ StutterEq ts (N.visited t es)
  recorded : ∃ new us, record (M.run s as) = record s ++ new ∧ List.Forall₂ Shows new us ∧
    StutterEq (t :: us) (N.visited t es)

variable {M : Machine σ α} {N : Machine τ β} [DecidableEq τ] {R : σ → τ → Prop}
  {stems : α → β → Prop} {record : σ → List ο} {Shows : ο → τ → Prop}

/-- The answer to one step, and then a run. -/
theorem stutterEq_visited_answer (t : τ) (e : Option β) (es : List β) :
    StutterEq (t :: N.visited (N.run t e.toList) es) (N.visited t (e.toList ++ es)) := by
  cases e with
  | none =>
    obtain ⟨l, hl⟩ := visited_eq_cons (M := N) t es
    rw [Option.toList_none, run_nil, List.nil_append, hl]
    exact stutterEq_twice t l
  | some b => exact .refl _

/-- A machine whose steps are all answered refines the one that answers. -/
theorem exists_refined
    (hstep : ∀ s a t, R s t → M.admits s a →
      ∃ e, Answered N R stems record Shows s (M.step s a) a t e)
    {s : σ} {t : τ} (h : R s t) {as : List α} (has : M.Admitted s as) :
    ∃ es, Refined M N R stems record Shows s as t es := by
  induction as generalizing s t with
  | nil =>
    refine ⟨[], trivial, h, ⟨[], List.Sublist.refl _, .nil⟩, ⟨[t], .cons h .nil, .refl _⟩, ?_⟩
    exact ⟨[], [], (List.append_nil _).symm, .nil, .refl _⟩
  | cons a as ih =>
    obtain ⟨e, ha⟩ := hstep s a t h has.1
    obtain ⟨es, hes⟩ := ih ha.related has.2
    have hjoin := stutterEq_visited_answer (N := N) t e es
    refine ⟨e.toList ++ es, admitted_append.mpr ⟨ha.admitted, hes.admitted⟩, ?_, ?_, ?_, ?_⟩
    · rw [run_append, run_cons]
      exact hes.related
    · obtain ⟨as', hsub, hstems⟩ := hes.stem
      cases e with
      | none => exact ⟨as', hsub.cons a, hstems⟩
      | some b => exact ⟨a :: as', hsub.cons_cons a, .cons (ha.stems b rfl) hstems⟩
    · obtain ⟨ts, hts, hvisited⟩ := hes.visited
      exact ⟨t :: ts, .cons h hts, (hvisited.cons t).trans hjoin⟩
    · obtain ⟨new, us, hnew, hus, hshown⟩ := ha.recorded
      obtain ⟨new', us', hnew', hus', hshown'⟩ := hes.recorded
      refine ⟨new ++ new', us ++ us', ?_, List.rel_append hus hus', ?_⟩
      · rw [run_cons, hnew', hnew, List.append_assoc]
      · exact ((hshown.append (.refl us')).trans (hshown'.cons t)).trans hjoin

end Machine

end ReflowOven
