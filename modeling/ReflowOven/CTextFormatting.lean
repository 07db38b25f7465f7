import Mathlib.Tactic.Linarith
import Mathlib.Tactic.Zify
import ReflowOven.CStringScanning

/-!
# Formatted text of C programs

The text that integer conversions of the `printf` family produce, and what the bounded
writers of that family leave in a buffer.
-/

namespace ReflowOven

/-- Canonical decimal text: no sign and no leading zero. -/
def decimalText (n : ℕ) : List UInt8 := (Nat.toDigits 10 n).map fun c => UInt8.ofNat c.toNat

/-- Decimal text with a sign where there is one. -/
def signedText : ℤ → List UInt8
  | .ofNat n => decimalText n
  | .negSucc n => 0x2D :: decimalText (n + 1)

/-- `snprintk` into a buffer of `size` bytes: the string it leaves, and the number it returns,
which is the length of the text it was asked for. -/
def snprintk (size : ℕ) (text : List UInt8) : List UInt8 × ℕ := (text.take (size - 1), text.length)

section Decimal

/-- The number of digits. -/
theorem length_decimalText_le_iff {n k : ℕ} (hk : 0 < k) :
    (decimalText n).length ≤ k ↔ n < 10 ^ k := by
  rw [decimalText, List.length_map]
  exact Nat.length_toDigits_le_iff (by omega) hk

theorem decimalText_ne_nil (n : ℕ) : decimalText n ≠ [] := by
  simp [decimalText]

theorem decimalText_of_lt {n : ℕ} (h : n < 10) : decimalText n = [UInt8.ofNat (0x30 + n)] := by
  rw [decimalText, Nat.toDigits_of_lt_base h, List.map_singleton,
    Nat.toNat_digitChar_of_lt_ten h]

/-- The last digit. -/
theorem decimalText_of_le {n : ℕ} (h : 10 ≤ n) :
    decimalText n = decimalText (n / 10) ++ [UInt8.ofNat (0x30 + n % 10)] := by
  rw [decimalText, Nat.toDigits_of_base_le (by omega) h, List.map_append, List.map_singleton,
    Nat.toNat_digitChar_of_lt_ten (Nat.mod_lt n (by omega))]
  rfl

theorem toNat_digit {d : ℕ} (h : d < 10) : (UInt8.ofNat (0x30 + d)).toNat = 0x30 + d :=
  UInt8.toNat_ofNat_of_lt' (by simp only [UInt8.size]; omega)

/-- A number is written in digits. -/
theorem digit_of_mem_decimalText {n : ℕ} {c : UInt8} (h : c ∈ decimalText n) :
    0x30 ≤ c.toNat ∧ c.toNat ≤ 0x39 := by
  induction n using Nat.strong_induction_on with
  | _ n ih =>
    rcases Nat.lt_or_ge n 10 with hn | hn
    · rw [decimalText_of_lt hn, List.mem_singleton] at h
      rw [h, toNat_digit hn]
      omega
    · rw [decimalText_of_le hn, List.mem_append, List.mem_singleton] at h
      rcases h with h | h
      · exact ih _ (by omega) h
      · rw [h, toNat_digit (Nat.mod_lt n (by omega))]
        omega

/-- No leading zero. -/
theorem head?_decimalText_ne {n : ℕ} (h : 10 ≤ n) : (decimalText n).head? ≠ some 0x30 := by
  induction n using Nat.strong_induction_on with
  | _ n ih =>
    rw [decimalText_of_le h, List.head?_append,
      Option.or_of_isSome (List.isSome_head?.mpr (decimalText_ne_nil _))]
    rcases Nat.lt_or_ge (n / 10) 10 with hn | hn
    · rw [decimalText_of_lt hn, List.head?_cons]
      intro hzero
      have hdigit := congrArg UInt8.toNat (Option.some.inj hzero)
      rw [toNat_digit hn] at hdigit
      have hpos : n / 10 = 0 := Nat.add_left_cancel hdigit
      omega
    · exact ih _ (by omega) hn

/-- The digits stand for the number. -/
theorem foldl_decimalText (n : ℕ) :
    (decimalText n).foldl (fun n c => n * 10 + (c.toNat - 0x30)) 0 = n := by
  induction n using Nat.strong_induction_on with
  | _ n ih =>
    rcases Nat.lt_or_ge n 10 with hn | hn
    · rw [decimalText_of_lt hn, List.foldl_cons, List.foldl_nil, toNat_digit hn]
      omega
    · rw [decimalText_of_le hn, List.foldl_append, ih _ (by omega), List.foldl_cons,
        List.foldl_nil, toNat_digit (Nat.mod_lt n (by omega))]
      omega

theorem length_signedText_le {z : ℤ} {k : ℕ} (hk : 0 < k) (hlow : -10 ^ k < z)
    (hhigh : z < 10 ^ (k + 1)) : (signedText z).length ≤ k + 1 := by
  cases z with
  | ofNat n =>
    have hn : (n : ℤ) < 10 ^ (k + 1) := hhigh
    exact (length_decimalText_le_iff (by omega)).mpr (by exact_mod_cast hn)
  | negSucc n =>
    apply Nat.succ_le_succ
    apply (length_decimalText_le_iff hk).mpr
    rw [Int.negSucc_eq] at hlow
    zify
    linarith

theorem noNul_decimalText (n : ℕ) : 0 ∉ decimalText n := fun h => by
  simpa using (digit_of_mem_decimalText h).1

theorem noNul_signedText (z : ℤ) : 0 ∉ signedText z := by
  cases z with
  | ofNat n => exact noNul_decimalText n
  | negSucc n => exact List.not_mem_cons_of_ne_of_not_mem (by decide) (noNul_decimalText _)

end Decimal

section Bounded

variable {size : ℕ} {text : List UInt8}

theorem snprintk_of_lt (h : text.length < size) :
    snprintk size text = (text, text.length) := by
  rw [snprintk, List.take_of_length_le (by omega)]

/-- What is left in the buffer is the longest beginning of the text that fits. -/
theorem snprintk_longest {s : List UInt8} (hs : s <+: text) (hlen : s.length < size) :
    s <+: (snprintk size text).1 :=
  List.prefix_take_iff.mpr ⟨hs, by omega⟩

end Bounded

end ReflowOven
