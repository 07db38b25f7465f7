import Mathlib.Data.List.Basic

/-!
# Kernel semaphores

A counting semaphore with a limit and a queue of waiting threads, with its three
operations as atomic steps. A give is handed to the first waiter, if there is one, and
does not go through the count; a reset wakes every waiter empty-handed.
-/

namespace ReflowOven

universe u

variable {τ : Type u}

structure KSem (τ : Type u) where
  count : ℕ
  limit : ℕ
  waiters : List τ

namespace KSem

inductive TakeResult | taken | busy | pended
  deriving DecidableEq, Repr

/-- `place` is where the priority of the thread puts it in the queue. -/
def take (noWait : Bool) (place : ℕ) (t : τ) (s : KSem τ) : TakeResult × KSem τ :=
  if s.count > 0 then (.taken, { s with count := s.count - 1 })
  else if noWait then (.busy, s)
  else (.pended, { s with waiters := s.waiters.take place ++ t :: s.waiters.drop place })

/-- The thread the give is handed to, if one was waiting. -/
def give (s : KSem τ) : Option τ × KSem τ :=
  match s.waiters with
  | t :: waiters => (some t, { s with waiters := waiters })
  | [] => (none, { s with count := if s.count ≠ s.limit then s.count + 1 else s.count })

/-- The threads that are woken. -/
def reset (s : KSem τ) : List τ × KSem τ := (s.waiters, { s with count := 0, waiters := [] })

/-- A thread only waits while there is nothing to take. -/
def Drained (s : KSem τ) : Prop := s.count ≠ 0 → s.waiters = []

theorem Drained.take {s : KSem τ} (h : s.Drained) (noWait : Bool) (place : ℕ) (t : τ) :
    (s.take noWait place t).2.Drained := by
  simp only [KSem.take]
  split_ifs with hc
  · exact fun _ => h (by omega)
  · exact h
  · exact fun hne => absurd hne (by simpa using hc)

theorem Drained.give {s : KSem τ} (h : s.Drained) : s.give.2.Drained := by
  simp only [KSem.give]
  split
  · next t waiters hw => exact fun hne => absurd (h hne) (by simp [hw])
  · next hw => exact fun _ => hw

theorem Drained.reset (s : KSem τ) : s.reset.2.Drained := fun _ => rfl

theorem take_of_count {s : KSem τ} (h : s.count = 0) (noWait : Bool) (place : ℕ) (t : τ) :
    s.take noWait place t = if noWait then (.busy, s)
      else (.pended, { s with waiters := s.waiters.take place ++ t :: s.waiters.drop place }) := by
  simp [take, h]

theorem give_of_idle {s : KSem τ} (h : s.waiters = []) (hl : s.limit ≠ 0) :
    s.give.1 = none ∧ s.give.2.count ≠ 0 ∧ s.give.2.waiters = [] := by
  simp only [give]
  rw [h]
  refine ⟨rfl, ?_, rfl⟩
  dsimp only
  split_ifs <;> omega

end KSem

end ReflowOven
