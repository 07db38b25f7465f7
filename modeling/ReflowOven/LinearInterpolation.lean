import Mathlib.Algebra.Order.Ring.Int
import Mathlib.Tactic.Ring

/-!
# Linear interpolation of integers

Interpolation between two integers by one multiplication and one division that truncates
towards zero, as fixed-point code computes it. Whichever way the ends lie and whatever
their signs, the value never leaves the ends and moves from one to the other.
-/

namespace ReflowOven

/-- The value `k` of `n` steps of the way from `a` to `b`. -/
def interpolate (a b k n : ℤ) : ℤ := a + ((b - a) * k).tdiv n

variable {a b k k' n : ℤ}

@[simp] theorem interpolate_zero (a b n : ℤ) : interpolate a b 0 n = a := by
  simp [interpolate]

theorem interpolate_self (a b : ℤ) (hn : 0 < n) : interpolate a b n n = b := by
  rw [interpolate, Int.mul_tdiv_cancel _ hn.ne']
  ring

theorem interpolate_mono (hn : 0 < n) (hab : a ≤ b) (hk : k ≤ k') :
    interpolate a b k n ≤ interpolate a b k' n := by
  have hspan : 0 ≤ b - a := Int.sub_nonneg_of_le hab
  exact Int.add_le_add_left (Int.tdiv_le_tdiv hn (Int.mul_le_mul_of_nonneg_left hk hspan)) a

theorem interpolate_anti (hn : 0 < n) (hba : b ≤ a) (hk : k ≤ k') :
    interpolate a b k' n ≤ interpolate a b k n := by
  have hspan : b - a ≤ 0 := Int.sub_nonpos_of_le hba
  exact Int.add_le_add_left (Int.tdiv_le_tdiv hn (Int.mul_le_mul_of_nonpos_left hspan hk)) a

/-- The value lies between the ends. -/
theorem interpolate_mem (hn : 0 < n) (h₀ : 0 ≤ k) (hk : k ≤ n) :
    min a b ≤ interpolate a b k n ∧ interpolate a b k n ≤ max a b := by
  rcases Int.le_total a b with hab | hba
  · have hlow := interpolate_mono hn hab h₀
    have hhigh := interpolate_mono hn hab hk
    rw [interpolate_zero] at hlow
    rw [interpolate_self a b hn] at hhigh
    exact ⟨(min_le_left a b).trans hlow, hhigh.trans (le_max_right a b)⟩
  · have hhigh := interpolate_anti hn hba h₀
    have hlow := interpolate_anti hn hba hk
    rw [interpolate_zero] at hhigh
    rw [interpolate_self a b hn] at hlow
    exact ⟨(min_le_right a b).trans hlow, hhigh.trans (le_max_left a b)⟩

end ReflowOven
