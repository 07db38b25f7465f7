import Mathlib.Data.List.TakeWhile

/-!
# Byte strings of C programs

A C string is the list of its bytes before the terminating NUL. A pointer into it is an
offset, and what it points at is the suffix of the list from that offset. Only the
functions of the string library that scanning code is written with are given here, and
the splittings of a list that such code computes.
-/

namespace ReflowOven

universe u

def ascii (s : String) : List UInt8 := s.toList.map fun c => UInt8.ofNat c.toNat

/-- The bytes of a character array that starts with a literal and is zero filled. -/
def charArray (cap : ℕ) (s : String) : List UInt8 :=
  ascii s ++ List.replicate (cap - s.length) 0

/-- A NUL-terminated string, without its terminator. -/
structure CString where
  bytes : List UInt8
  noNul : 0 ∉ bytes
  deriving DecidableEq

/-- The C string at the start of a buffer: everything before its first NUL. -/
def CString.ofBuffer (buf : List UInt8) : CString where
  bytes := buf.takeWhile (· ≠ 0)
  noNul h := by simpa using List.mem_takeWhile_imp h

/-- The string that is left when the first `a` is overwritten by a NUL. -/
def CString.upTo (s : CString) (a : UInt8) : CString where
  bytes := s.bytes.takeWhile (· ≠ a)
  noNul h := s.noNul ((List.takeWhile_prefix _).mem h)

/-- The string that starts after the first `a`. -/
def CString.past (s : CString) (a : UInt8) : CString where
  bytes := (s.bytes.dropWhile (· ≠ a)).tail
  noNul h := s.noNul ((List.dropWhile_suffix _).mem (List.mem_of_mem_tail h))

section Split

variable {α : Type u} [DecidableEq α]

/-- Where a scan for `a` ends, if it finds one. -/
theorem eq_takeWhile_append {a : α} {l : List α} (h : a ∈ l) :
    l = l.takeWhile (· ≠ a) ++ a :: (l.dropWhile (· ≠ a)).tail := by
  have hne : l.dropWhile (· ≠ a) ≠ [] := by
    intro hnil
    have hall := List.dropWhile_eq_nil_iff.mp hnil a h
    simp at hall
  have hhead := List.head_dropWhile_not (p := (· ≠ a)) hne
  simp only [ne_eq, decide_not, Bool.not_eq_false', decide_eq_true_eq] at hhead
  have hcons : l.dropWhile (· ≠ a) = a :: (l.dropWhile (· ≠ a)).tail := by
    rw [← List.cons_head_tail hne, List.tail_cons]
    simp [hhead]
  rw [← hcons, List.takeWhile_append_dropWhile]

theorem takeWhile_ne_of_notMem {a : α} {l : List α} (h : a ∉ l) : l.takeWhile (· ≠ a) = l := by
  rw [List.takeWhile_eq_self_iff]
  intro x hx
  simp only [decide_eq_true_eq]
  rintro rfl
  exact h hx

theorem notMem_takeWhile_ne (a : α) (l : List α) : a ∉ l.takeWhile (· ≠ a) := fun h => by
  simpa using List.mem_takeWhile_imp h

theorem takeWhile_ne_append_cons {a : α} {l : List α} (h : a ∉ l) (rest : List α) :
    (l ++ a :: rest).takeWhile (· ≠ a) = l := by
  rw [List.takeWhile_append_of_pos (List.takeWhile_eq_self_iff.mp (takeWhile_ne_of_notMem h))]
  simp

theorem tail_dropWhile_ne_append_cons {a : α} {l : List α} (h : a ∉ l) (rest : List α) :
    ((l ++ a :: rest).dropWhile (· ≠ a)).tail = rest := by
  rw [List.dropWhile_append_of_pos (List.takeWhile_eq_self_iff.mp (takeWhile_ne_of_notMem h))]
  simp

end Split

section Strstr

variable {α : Type u} [DecidableEq α]

/-- The offset of the first occurrence of `pat`. -/
def strstr (pat : List α) : List α → Option ℕ
  | [] => if pat = [] then some 0 else none
  | c :: s => if pat <+: c :: s then some 0 else (strstr pat s).map (· + 1)

theorem strstr_eq_some_iff {pat s : List α} {k : ℕ} :
    strstr pat s = some k ↔ k ≤ s.length ∧ pat <+: s.drop k ∧ ∀ j < k, ¬pat <+: s.drop j := by
  induction s generalizing k with
  | nil =>
    simp only [strstr]
    split_ifs with hpat
    · subst hpat
      simp only [Option.some.injEq, List.length_nil, Nat.le_zero, List.drop_nil, List.nil_prefix,
        not_true_eq_false, true_and]
      exact ⟨fun hk => ⟨hk.symm, fun j hj => by omega⟩, fun hk => hk.1.symm⟩
    · simp [hpat]
  | cons c s ih =>
    simp only [strstr]
    split_ifs with hpre
    · simp only [Option.some.injEq]
      constructor
      · rintro rfl
        exact ⟨Nat.zero_le _, hpre, fun j hj => absurd hj (Nat.not_lt_zero j)⟩
      · rintro ⟨-, -, hfirst⟩
        by_contra hk
        exact hfirst 0 (by omega) hpre
    · rw [Option.map_eq_some_iff]
      constructor
      · rintro ⟨k, hk, rfl⟩
        obtain ⟨hle, hat, hfirst⟩ := ih.mp hk
        refine ⟨by simpa using hle, hat, fun j hj => ?_⟩
        cases j with
        | zero => exact hpre
        | succ j => exact hfirst j (by omega)
      · rintro ⟨hle, hat, hfirst⟩
        cases k with
        | zero => exact absurd hat hpre
        | succ k =>
          refine ⟨k, ih.mpr ⟨by simpa using hle, hat, fun j hj => ?_⟩, rfl⟩
          exact hfirst (j + 1) (by omega)

theorem strstr_of_prefix {pat s : List α} (h : pat <+: s) : strstr pat s = some 0 :=
  strstr_eq_some_iff.mpr ⟨Nat.zero_le _, h, fun j hj => absurd hj (Nat.not_lt_zero j)⟩

/-- A text in which no occurrence starts is passed over. -/
theorem strstr_append {pat a s : List α} (h : ∀ j < a.length, ¬pat <+: (a ++ s).drop j) :
    strstr pat (a ++ s) = (strstr pat s).map (· + a.length) := by
  induction a with
  | nil => simp
  | cons c a ih =>
    have hfirst : ¬pat <+: c :: (a ++ s) := h 0 (Nat.zero_lt_succ _)
    have hrest := ih fun j hj => h (j + 1) (Nat.succ_lt_succ hj)
    rw [List.cons_append, strstr, if_neg hfirst, hrest, Option.map_map]
    rfl

/-- What stands behind an occurrence does not move the first one. -/
theorem strstr_append_right {pat s : List α} {k : ℕ} (h : strstr pat s = some k)
    (rest : List α) : strstr pat (s ++ rest) = some k := by
  obtain ⟨hle, hat, hfirst⟩ := strstr_eq_some_iff.mp h
  have hlen := hat.length_le
  rw [List.length_drop] at hlen
  refine strstr_eq_some_iff.mpr ⟨?_, ?_, ?_⟩
  · rw [List.length_append]
    omega
  · rw [List.drop_append_of_le_length hle]
    exact hat.trans (List.prefix_append _ _)
  · intro j hj hpre
    rw [List.drop_append_of_le_length (by omega)] at hpre
    refine hfirst j hj (List.prefix_of_prefix_length_le hpre (List.prefix_append _ _) ?_)
    rw [List.length_drop]
    omega

theorem eq_append_of_strstr {pat s : List α} {k : ℕ} (h : strstr pat s = some k) :
    s = s.take k ++ pat ++ s.drop (k + pat.length) ∧ (s.take k).length = k := by
  obtain ⟨hle, ⟨rest, hrest⟩, -⟩ := strstr_eq_some_iff.mp h
  have hdrop : s.drop (k + pat.length) = rest := by
    rw [← List.drop_drop, ← hrest, List.drop_left]
  refine ⟨?_, List.length_take_of_le hle⟩
  rw [hdrop, List.append_assoc, hrest, List.take_append_drop]

theorem not_infix_take_of_strstr {pat s : List α} {k : ℕ} (h : strstr pat s = some k)
    (hpat : pat ≠ []) : ¬pat <:+: s.take k := by
  obtain ⟨hle, -, hfirst⟩ := strstr_eq_some_iff.mp h
  rintro ⟨before, after, heq⟩
  have hlen := congrArg List.length heq
  have hpos := List.length_pos_iff.mpr hpat
  simp only [List.length_append, List.length_take_of_le hle] at hlen
  refine hfirst before.length (by omega) ⟨after ++ s.drop k, ?_⟩
  have hs : s = before ++ (pat ++ (after ++ s.drop k)) := by
    calc s = s.take k ++ s.drop k := (List.take_append_drop k s).symm
      _ = before ++ (pat ++ (after ++ s.drop k)) := by rw [← heq]; simp
  have hdrop := congrArg (List.drop before.length) hs
  rw [List.drop_left] at hdrop
  exact hdrop.symm

end Strstr

end ReflowOven
