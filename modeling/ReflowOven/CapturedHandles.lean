import Mathlib.Data.List.Basic
import Mathlib.Order.Nat

/-!
# Handles that one variable names

A handle is acquired, used and released. A program keeps the handle it acquired last in a
variable, uses it through the variable, and empties the variable when it releases what the
variable names. In whatever order that happens, every handle lives once at most. A handle that
the variable no longer names, though it was never released, is lost: where none is lost yet,
an acquisition loses one exactly if the variable names one.
-/

namespace ReflowOven

universe u

inductive HandleEvent (β : Type u)
  | acquired
  | used (b : β)
  | released
  deriving DecidableEq

variable {β : Type u}

/-- What may have happened to a handle so far. -/
inductive Life : List (HandleEvent β) → Prop
  | unborn : Life []
  | held (uses : List β) : Life (.acquired :: uses.map .used)
  | spent (uses : List β) : Life (.acquired :: (uses.map .used ++ [.released]))

def IsHeld (h : List (HandleEvent β)) : Prop := h ≠ [] ∧ .released ∉ h

instance [DecidableEq β] (h : List (HandleEvent β)) : Decidable (IsHeld h) :=
  inferInstanceAs (Decidable (_ ∧ _))

/-- What a handle was used for, if the event is a use. -/
def HandleEvent.payload : HandleEvent β → Option β
  | .used b => some b
  | .acquired | .released => none

namespace Life

variable {h : List (HandleEvent β)}

theorem exists_of_isHeld (hlife : Life h) (hheld : IsHeld h) :
    ∃ uses : List β, h = .acquired :: uses.map .used := by
  cases hlife with
  | unborn => exact absurd rfl hheld.1
  | held uses => exact ⟨uses, rfl⟩
  | spent uses => exact absurd (by simp) hheld.2

theorem use (hlife : Life h) (hheld : IsHeld h) (b : β) : Life (h ++ [.used b]) := by
  obtain ⟨uses, rfl⟩ := hlife.exists_of_isHeld hheld
  simpa using Life.held (uses ++ [b])

theorem release (hlife : Life h) (hheld : IsHeld h) : Life (h ++ [.released]) := by
  obtain ⟨uses, rfl⟩ := hlife.exists_of_isHeld hheld
  exact .spent uses

end Life

/-- The variable, the number of handles acquired so far, and what happened to each of them. -/
structure HandleCell (β : Type u) where
  named : Option ℕ
  next : ℕ
  log : List (ℕ × HandleEvent β)

namespace HandleCell

def empty : HandleCell β := ⟨none, 0, []⟩

def acquire (c : HandleCell β) : HandleCell β :=
  ⟨some c.next, c.next + 1, c.log ++ [(c.next, .acquired)]⟩

/-- A handle is used, by its own number. -/
def fire (c : HandleCell β) (n : ℕ) (b : β) : HandleCell β :=
  { c with log := c.log ++ [(n, .used b)] }

/-- The handle that the variable names is used, if it names one. -/
def use (c : HandleCell β) (b : β) : HandleCell β := c.named.elim c fun n => c.fire n b

def release (c : HandleCell β) : HandleCell β :=
  c.named.elim c fun n => ⟨none, c.next, c.log ++ [(n, .released)]⟩

def history (c : HandleCell β) (n : ℕ) : List (HandleEvent β) :=
  c.log.filterMap fun e => if e.1 = n then some e.2 else none

def uses (c : HandleCell β) (n : ℕ) : List β := (c.history n).filterMap HandleEvent.payload

def Held (c : HandleCell β) (n : ℕ) : Prop := IsHeld (c.history n)

instance [DecidableEq β] (c : HandleCell β) (n : ℕ) : Decidable (c.Held n) :=
  inferInstanceAs (Decidable (IsHeld _))

/-- No handle is lost. -/
def Tidy (c : HandleCell β) : Prop := ∀ n, c.Held n → c.named = some n

structure Sound (c : HandleCell β) : Prop where
  lives : ∀ n, Life (c.history n)
  unborn : ∀ n, c.next ≤ n → c.history n = []
  held : ∀ n, c.named = some n → c.Held n

variable {c : HandleCell β}

/-- One more event, of handle `m`. -/
theorem history_note (c : HandleCell β) (named : Option ℕ) (next m : ℕ) (e : HandleEvent β)
    (n : ℕ) : (HandleCell.mk named next (c.log ++ [(m, e)])).history n =
      if m = n then c.history n ++ [e] else c.history n := by
  rw [history, List.filterMap_append]
  split_ifs with hn <;> simp [history, hn]

theorem sound_empty : (empty : HandleCell β).Sound where
  lives _ := .unborn
  unborn _ _ := rfl
  held n hn := by cases hn

theorem tidy_empty : (empty : HandleCell β).Tidy := fun _ hn => absurd rfl hn.1

theorem Sound.lt_of_held (h : c.Sound) {n : ℕ} (hn : c.Held n) : n < c.next := by
  by_contra hnext
  exact hn.1 (h.unborn n (not_lt.mp hnext))

section Acquire

theorem history_acquire (c : HandleCell β) (n : ℕ) : c.acquire.history n =
    if c.next = n then c.history n ++ [.acquired] else c.history n :=
  history_note c _ _ _ _ n

theorem Sound.held_acquire_iff (h : c.Sound) (n : ℕ) :
    c.acquire.Held n ↔ n = c.next ∨ c.Held n := by
  rw [Held, Held, history_acquire]
  split_ifs with hn
  · subst hn
    simp [IsHeld, h.unborn c.next le_rfl]
  · simp [Ne.symm hn]

theorem Sound.acquire (h : c.Sound) : c.acquire.Sound where
  lives n := by
    rw [history_acquire]
    split_ifs with hn
    · rw [h.unborn n hn.le]
      exact .held []
    · exact h.lives n
  unborn n hn := by
    have hlt : c.next < n := hn
    rw [history_acquire, if_neg hlt.ne]
    exact h.unborn n hlt.le
  held n hn := by
    rw [h.held_acquire_iff]
    exact .inl (Option.some.inj hn).symm

/-- Acquiring a handle loses one exactly if the variable names one. -/
theorem Sound.tidy_acquire_iff (h : c.Sound) (htidy : c.Tidy) :
    c.acquire.Tidy ↔ c.named = none := by
  constructor
  · intro hafter
    by_contra hnamed
    obtain ⟨n, hn⟩ := Option.ne_none_iff_exists'.mp hnamed
    have hheld := h.held n hn
    have hnext : some c.next = some n := hafter n ((h.held_acquire_iff n).mpr (.inr hheld))
    exact (h.lt_of_held hheld).ne' (Option.some.inj hnext)
  · intro hnamed n hn
    rcases (h.held_acquire_iff n).mp hn with rfl | hheld
    · rfl
    · exact absurd ((htidy n hheld).symm.trans hnamed) (by simp)

end Acquire

section Use

theorem history_fire (c : HandleCell β) (m : ℕ) (b : β) (n : ℕ) : (c.fire m b).history n =
    if m = n then c.history n ++ [.used b] else c.history n :=
  history_note c _ _ _ _ n

theorem held_fire_iff {m : ℕ} (hm : c.Held m) (b : β) (n : ℕ) :
    (c.fire m b).Held n ↔ c.Held n := by
  rw [Held, Held, history_fire]
  split_ifs with hn
  · subst hn
    exact iff_of_true ⟨by simp, by simpa using hm.2⟩ hm
  · rfl

theorem Sound.fire (h : c.Sound) {m : ℕ} (hm : c.Held m) (b : β) : (c.fire m b).Sound where
  lives n := by
    rw [history_fire]
    split_ifs with hn
    · exact (h.lives n).use (hn ▸ hm) b
    · exact h.lives n
  unborn n hn := by
    rw [history_fire, if_neg ((h.lt_of_held hm).trans_le hn).ne]
    exact h.unborn n hn
  held n hn := (held_fire_iff hm b n).mpr (h.held n hn)

theorem Tidy.fire (htidy : c.Tidy) {m : ℕ} (hm : c.Held m) (b : β) : (c.fire m b).Tidy :=
  fun n hn => htidy n ((held_fire_iff hm b n).mp hn)

@[simp] theorem named_use (c : HandleCell β) (b : β) : (c.use b).named = c.named := by
  rw [use]
  cases hnamed : c.named with
  | none => exact hnamed
  | some n => exact hnamed

theorem Sound.use (h : c.Sound) (b : β) : (c.use b).Sound := by
  rw [HandleCell.use]
  cases hnamed : c.named with
  | none => exact h
  | some n => exact h.fire (h.held n hnamed) b

theorem Sound.held_use_iff (h : c.Sound) (b : β) (n : ℕ) : (c.use b).Held n ↔ c.Held n := by
  rw [HandleCell.use]
  cases hnamed : c.named with
  | none => rfl
  | some m => exact held_fire_iff (h.held m hnamed) b n

theorem Sound.tidy_use_iff (h : c.Sound) (b : β) : (c.use b).Tidy ↔ c.Tidy := by
  simp only [Tidy, h.held_use_iff, named_use]

end Use

section Release

@[simp] theorem named_release (c : HandleCell β) : c.release.named = none := by
  rw [release]
  cases hnamed : c.named with
  | none => exact hnamed
  | some n => rfl

@[simp] theorem next_release (c : HandleCell β) : c.release.next = c.next := by
  rw [release]
  cases c.named <;> rfl

/-- What is held after a release was held before and is not what the variable named. -/
theorem held_release_iff (c : HandleCell β) (n : ℕ) :
    c.release.Held n ↔ c.Held n ∧ c.named ≠ some n := by
  rw [release]
  cases hnamed : c.named with
  | none => simp
  | some m =>
    rw [Option.elim_some, Held, history_note]
    split_ifs with hn
    · simp [IsHeld, hn]
    · simp [Held, hn]

theorem Sound.release (h : c.Sound) : c.release.Sound where
  lives n := by
    rw [HandleCell.release]
    cases hnamed : c.named with
    | none => exact h.lives n
    | some m =>
      rw [Option.elim_some, history_note]
      split_ifs with hn
      · exact (h.lives n).release (hn ▸ h.held m hnamed)
      · exact h.lives n
  unborn n hn := by
    rw [next_release] at hn
    rw [HandleCell.release]
    cases hnamed : c.named with
    | none => exact h.unborn n hn
    | some m =>
      rw [Option.elim_some, history_note,
        if_neg ((h.lt_of_held (h.held m hnamed)).trans_le hn).ne]
      exact h.unborn n hn
  held n hn := absurd ((named_release c).symm.trans hn) (by simp)

theorem Tidy.release (htidy : c.Tidy) : c.release.Tidy := by
  intro n hn
  obtain ⟨hheld, hnamed⟩ := (held_release_iff c n).mp hn
  exact absurd (htidy n hheld) hnamed

end Release

section Uses

theorem uses_note (c : HandleCell β) (named : Option ℕ) (next m : ℕ) (e : HandleEvent β)
    (n : ℕ) : (HandleCell.mk named next (c.log ++ [(m, e)])).uses n =
      c.uses n ++ if m = n then e.payload.toList else [] := by
  rw [uses, history_note]
  split_ifs with hn
  · cases e <;> simp [uses, HandleEvent.payload]
  · simp [uses]

@[simp] theorem uses_acquire (c : HandleCell β) (n : ℕ) : c.acquire.uses n = c.uses n := by
  rw [acquire, uses_note]
  simp [HandleEvent.payload]

@[simp] theorem uses_release (c : HandleCell β) (n : ℕ) : c.release.uses n = c.uses n := by
  rw [release]
  cases c.named with
  | none => rfl
  | some m =>
    rw [Option.elim_some, uses_note]
    simp [HandleEvent.payload]

theorem uses_use (c : HandleCell β) (b : β) (n : ℕ) :
    (c.use b).uses n = c.uses n ++ if c.named = some n then [b] else [] := by
  rw [use]
  cases c.named with
  | none => simp
  | some m =>
    rw [Option.elim_some, fire, uses_note]
    simp [HandleEvent.payload]

end Uses

end HandleCell

end ReflowOven
