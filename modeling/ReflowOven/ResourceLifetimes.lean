import Mathlib.Data.Nat.Notation
import Mathlib.Logic.ExistsUnique
import Mathlib.Logic.Function.Basic

/-!
# Lifetimes of pooled resources

A resource is opened and closed again, any number of times, and while it is open it is held
by one slot of a pool. For an arbitrary pool this is a property of the slots and of the
history of one resource. It is kept by the four things that can happen: the resource moves
into a slot when it is opened, it is refused, it leaves its slot when it is closed, or a
slot changes that has nothing to do with it.
-/

namespace ReflowOven

universe u v

inductive LifeEvent
  | opened | closed
  deriving DecidableEq, Repr

def lifetimes (k : ℕ) : List LifeEvent := (List.replicate k [.opened, .closed]).flatten

theorem lifetimes_succ (k : ℕ) : lifetimes (k + 1) = lifetimes k ++ [.opened, .closed] := by
  simp [lifetimes, List.replicate_succ']

variable {ι : Type u} {ρ : Type v} {slots : ι → Option ρ} {r : ρ} {history : List LifeEvent}

/-- Every time the resource was opened it has been closed once since, or one slot holds it
now. -/
inductive Accounted (slots : ι → Option ρ) (r : ρ) (history : List LifeEvent) : Prop
  | free (k : ℕ) (hlives : history = lifetimes k) (hslots : ∀ i, slots i ≠ some r)
  | held (k : ℕ) (hlives : history = lifetimes k ++ [.opened]) (hslot : ∃! i, slots i = some r)

namespace Accounted

/-- A resource that is not open is in no slot, and its lifetimes are over. -/
theorem free_of_getLast (h : Accounted slots r history) (hopen : history.getLast? ≠ some .opened) :
    (∃ k, history = lifetimes k) ∧ ∀ i, slots i ≠ some r := by
  cases h with
  | free k hlives hslots => exact ⟨⟨k, hlives⟩, hslots⟩
  | held k hlives hslot => exact absurd (by simp [hlives]) hopen

/-- A lifetime that ends at once. -/
theorem refused (h : Accounted slots r history) (hopen : history.getLast? ≠ some .opened) :
    Accounted slots r (history ++ [.opened, .closed]) := by
  obtain ⟨⟨k, rfl⟩, hslots⟩ := h.free_of_getLast hopen
  exact .free (k + 1) (lifetimes_succ k).symm hslots

variable [DecidableEq ι]

theorem opened (h : Accounted slots r history) (hopen : history.getLast? ≠ some .opened) (i : ι) :
    Accounted (Function.update slots i (some r)) r (history ++ [.opened]) := by
  obtain ⟨⟨k, rfl⟩, hslots⟩ := h.free_of_getLast hopen
  refine .held k rfl ⟨i, by simp, fun j hj => ?_⟩
  by_contra hne
  exact hslots j ((Function.update_of_ne hne _ _).symm.trans hj)

theorem closed (h : Accounted slots r history) {i : ι} (hi : slots i = some r) :
    Accounted (Function.update slots i none) r (history ++ [.closed]) := by
  cases h with
  | free k hlives hslots => exact absurd hi (hslots i)
  | held k hlives hslot =>
    refine .free (k + 1) (by simp [hlives, lifetimes_succ]) fun j => ?_
    by_cases hj : j = i
    · simp [hj]
    · rw [Function.update_of_ne hj]
      exact fun hheld => hj (hslot.unique hheld hi)

/-- A slot that changes, but neither from this resource nor to it. -/
theorem update_of_ne (h : Accounted slots r history) {i : ι} {x : Option ρ}
    (hi : slots i ≠ some r) (hx : x ≠ some r) :
    Accounted (Function.update slots i x) r history := by
  have hsame : ∀ j, Function.update slots i x j = some r ↔ slots j = some r := by
    intro j
    by_cases hj : j = i
    · simp [hj, hi, hx]
    · rw [Function.update_of_ne hj]
  cases h with
  | free k hlives hslots => exact .free k hlives fun j hj => hslots j ((hsame j).mp hj)
  | held k hlives hslot => exact .held k hlives (by simpa only [hsame] using hslot)

end Accounted

end ReflowOven
