import Mathlib.Tactic.Ring

/-!
# Fixed-width results of exact arithmetic

Unsigned values are natural numbers and signed values are integers. The functions
below are the conversions of the C abstract machine into a type of the given width,
so that a computation written with them is the one of the fixed-width code. Signed
overflow is represented by two's complement wrapping; the results that matter are
stated where it does not occur.
-/

namespace ReflowOven

/-- Conversion to `uint8_t`. -/
def u8 (n : ℕ) : ℕ := n % 2 ^ 8

/-- Conversion to `uint16_t`. -/
def u16 (n : ℕ) : ℕ := n % 2 ^ 16

/-- Conversion to `uint32_t`. -/
def u32 (n : ℕ) : ℕ := n % 2 ^ 32

/-- Conversion of a signed value to `uint8_t`. -/
def u8OfInt (z : ℤ) : ℕ := (z % 2 ^ 8).toNat

/-- Conversion of a signed value to `uint32_t`. -/
def u32OfInt (z : ℤ) : ℕ := (z % 2 ^ 32).toNat

/-- Conversion to `int32_t`. -/
def i32 (z : ℤ) : ℤ := z.bmod (2 ^ 32)

/-- Conversion to `int64_t`. -/
def i64 (z : ℤ) : ℤ := z.bmod (2 ^ 64)

theorem u8_eq {n : ℕ} (h : n < 2 ^ 8) : u8 n = n := Nat.mod_eq_of_lt h

theorem u32_eq {n : ℕ} (h : n < 2 ^ 32) : u32 n = n := Nat.mod_eq_of_lt h

/-- A running sum in 32 bits is exact where the whole sum fits. -/
theorem foldl_u32_add (f : ℕ → ℕ) (a : ℕ) {k : ℕ}
    (h : a + ((List.range k).map f).sum < 2 ^ 32) :
    (List.range k).foldl (fun total i => u32 (total + f i)) a =
      a + ((List.range k).map f).sum := by
  induction k with
  | zero => rfl
  | succ k ih =>
    simp only [List.range_succ, List.map_append, List.map_singleton, List.sum_append,
      List.sum_singleton] at h ⊢
    rw [List.foldl_append, ih (by omega)]
    simp only [List.foldl_cons, List.foldl_nil]
    rw [u32_eq (by omega)]
    omega

theorem u8OfInt_natCast {n : ℕ} (h : n < 2 ^ 8) : u8OfInt n = n := by
  simp only [u8OfInt]
  omega

theorem u32OfInt_eq {z : ℤ} (h₀ : 0 ≤ z) (h : z < 2 ^ 32) : (u32OfInt z : ℤ) = z := by
  simp only [u32OfInt]
  omega

theorem i32_eq {z : ℤ} (h₀ : -2 ^ 31 ≤ z) (h : z < 2 ^ 31) : i32 z = z := by
  simp only [i32]
  exact Int.bmod_eq_of_le (by omega) (by omega)

theorem le_i32 (z : ℤ) : -2 ^ 31 ≤ i32 z := by
  have h := Int.le_bmod (x := z) (m := 2 ^ 32) (by decide)
  simp only [i32]
  omega

theorem u32_lt (n : ℕ) : u32 n < 2 ^ 32 := Nat.mod_lt _ (by decide)

theorem i64_eq {z : ℤ} (h₀ : -2 ^ 63 ≤ z) (h : z < 2 ^ 63) : i64 z = z := by
  simp only [i64]
  exact Int.bmod_eq_of_le (by omega) (by omega)

/-- The truncated remainder of C, brought back above zero, is the residue. -/
theorem tmod_add_eq_emod (a : ℤ) {n : ℤ} (hn : 0 < n) :
    (if a.tmod n < 0 then a.tmod n + n else a.tmod n) = a % n := by
  have h := Int.emod_eq_tmod (a := a) (b := n)
  have hlo := Int.emod_nonneg a hn.ne'
  have hhi := Int.emod_lt_of_pos a hn
  split at h <;> split <;> omega

end ReflowOven
