import Mathlib.Data.List.Basic

/-!
# Reading a register

What a register has held, oldest first, is its journal. Reads of it, one after another, may
repeat a value and may miss some, but never go back: this relation of the reads to the
journal is kept when reads are left out, when the journal goes on, and when a second reader
starts where the first one stopped.
-/

namespace ReflowOven

universe u

variable {α : Type u}

/-- The second list reads the first one in order. -/
inductive ReadsOf : List α → List α → Prop
  | done (journal : List α) : ReadsOf journal []
  | read {a : α} {journal reads : List α} (h : ReadsOf (a :: journal) reads) :
      ReadsOf (a :: journal) (a :: reads)
  | pass {a : α} {journal reads : List α} (h : ReadsOf journal reads) :
      ReadsOf (a :: journal) reads

namespace ReadsOf

variable {journal journal' reads reads' : List α}

/-- A register that is not written reads the same again and again. -/
theorem replicate (a : α) (journal : List α) (n : ℕ) :
    ReadsOf (a :: journal) (List.replicate n a) := by
  induction n with
  | zero => exact .done _
  | succ n ih => exact .read ih

theorem of_mem {a : α} (h : a ∈ journal) : ReadsOf journal [a] := by
  induction journal with
  | nil => cases h
  | cons b journal ih =>
    rcases List.mem_cons.mp h with rfl | h
    · exact .read (.done _)
    · exact .pass (ih h)

theorem mem (h : ReadsOf journal reads) : ∀ a ∈ reads, a ∈ journal := by
  induction h with
  | done => exact nofun
  | read _ ih => exact List.forall_mem_cons.mpr ⟨List.mem_cons_self, ih⟩
  | pass _ ih => exact fun a ha => List.mem_cons_of_mem _ (ih a ha)

theorem of_sublist (h : ReadsOf journal reads) (hsub : reads'.Sublist reads) :
    ReadsOf journal reads' := by
  induction h generalizing reads' with
  | done journal =>
    rw [List.sublist_nil.mp hsub]
    exact .done journal
  | read _ ih =>
    cases hsub with
    | cons _ htail => exact ih htail
    | cons_cons _ htail => exact .read (ih htail)
  | pass _ ih => exact .pass (ih hsub)

/-- A journal that holds this one, in the same order, is read as well. -/
theorem sublist (h : ReadsOf journal reads) (hsub : journal.Sublist journal') :
    ReadsOf journal' reads := by
  induction hsub generalizing reads with
  | slnil => exact h
  | cons a _ ih => exact .pass (ih h)
  | @cons_cons l l' a _ ih =>
    generalize hj : a :: l = j at h
    induction h with
    | done => exact .done _
    | read h ihread =>
      obtain ⟨rfl, rfl⟩ := List.cons.inj hj
      exact .read (ihread rfl)
    | pass h _ =>
      obtain ⟨rfl, rfl⟩ := List.cons.inj hj
      exact .pass (ih h)

/-- The second reader starts with what the register held when the first one stopped. -/
theorem append {a : α} (h : ReadsOf (journal ++ [a]) reads) (h' : ReadsOf (a :: journal') reads') :
    ReadsOf (journal ++ a :: journal') (reads ++ reads') := by
  generalize hj : journal ++ [a] = j at h
  induction h generalizing journal with
  | done => exact h'.sublist (List.sublist_append_right _ _)
  | @read b rest reads h ih =>
    have htail := ih hj
    cases journal with
    | nil =>
      obtain ⟨rfl, -⟩ := List.cons.inj hj
      exact .read htail
    | cons c journal =>
      obtain ⟨rfl, -⟩ := List.cons.inj hj
      exact .read htail
  | @pass b rest reads h ih =>
    cases journal with
    | nil =>
      obtain ⟨-, rfl⟩ := List.cons.inj hj
      cases h
      exact h'
    | cons c journal =>
      obtain ⟨-, rfl⟩ := List.cons.inj hj
      exact .pass (ih rfl)

end ReadsOf

end ReflowOven
