import Mathlib.Data.Nat.Notation

/-!
# Bounded queues

A queue of a fixed capacity takes an entry at its end where it has room, and refuses it
otherwise. What it takes of an entry is a list of at most one, so that the queue after an
offer, and over a run what has ever been taken, are concatenations.
-/

namespace ReflowOven.BoundedQueue

universe u

variable {α : Type u} {capacity : ℕ} {a : α} {queue : List α}

/-- Whether the queue takes the entry, and the queue after that. -/
def put (capacity : ℕ) (a : α) (queue : List α) : Bool × List α :=
  if queue.length < capacity then (true, queue ++ [a]) else (false, queue)

/-- What the queue takes of the entry. -/
def taken (capacity : ℕ) (a : α) (queue : List α) : List α :=
  if queue.length < capacity then [a] else []

theorem put_of_room (h : queue.length < capacity) : put capacity a queue = (true, queue ++ [a]) :=
  if_pos h

theorem put_of_full (h : ¬queue.length < capacity) : put capacity a queue = (false, queue) :=
  if_neg h

theorem put_snd (capacity : ℕ) (a : α) (queue : List α) :
    (put capacity a queue).2 = queue ++ taken capacity a queue := by
  by_cases h : queue.length < capacity
  · rw [put_of_room h, taken, if_pos h]
  · rw [put_of_full h, taken, if_neg h, List.append_nil]

theorem taken_sublist (capacity : ℕ) (a : α) (queue : List α) :
    (taken capacity a queue).Sublist [a] := by
  unfold taken
  split
  · exact List.Sublist.refl _
  · exact List.nil_sublist _

theorem prefix_put (capacity : ℕ) (a : α) (queue : List α) :
    queue <+: (put capacity a queue).2 := by
  rw [put_snd]
  exact List.prefix_append _ _

end ReflowOven.BoundedQueue
