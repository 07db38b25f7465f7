import Mathlib.Data.Int.ModEq
import ReflowOven.SelectionPanel

/-!
# Sums of detents

Without telemetry in between, the panel adds up the detents it commits modulo the number of
profiles: the selection after a movement is a function of the index it started from and of the
sum of its steps.
-/

namespace ReflowOven.DetentArithmetic

/-- A detent whose command the queue takes. The index is committed as a `uint8_t`. -/
def turn (count : ℕ) (s : ReflowSel) (steps : Int32) : Option ReflowSel :=
  (reflowSelNext s steps count).map fun next => reflowSelCommit (u8 next) s

/-- The index in range that is congruent to a sum. -/
def landing (count : ℕ) (sum : ℤ) : ℕ := (sum % count).toNat

/-- The selection after a commit. -/
def selected (idx : ℕ) : ReflowSel := ⟨idx, idx, true, 0⟩

@[simp] theorem selected_index (idx : ℕ) : (selected idx).index = idx := rfl

def stepSum (detents : List Int32) : ℤ := (detents.map Int32.toInt).sum

section Residues

variable {count : ℕ}

theorem landing_cast (hpos : 0 < count) (sum : ℤ) : (landing count sum : ℤ) = sum % count :=
  Int.toNat_of_nonneg (Int.emod_nonneg sum (Int.natCast_ne_zero.mpr hpos.ne'))

theorem landing_lt (hpos : 0 < count) (sum : ℤ) : landing count sum < count := by
  have hlt := Int.emod_lt_of_pos sum (Int.natCast_pos.mpr hpos)
  rw [← landing_cast hpos] at hlt
  exact_mod_cast hlt

theorem landing_modEq (hpos : 0 < count) (sum : ℤ) :
    (landing count sum : ℤ) ≡ sum [ZMOD count] := by
  rw [landing_cast hpos]
  exact Int.mod_modEq sum count

/-- Landing in between does not matter. -/
theorem landing_add (hpos : 0 < count) (sum steps : ℤ) :
    landing count (landing count sum + steps) = landing count (sum + steps) := by
  rw [landing, landing_cast hpos, Int.emod_add_emod, landing]

theorem eq_landing {idx : ℕ} (hidx : idx < count) {sum : ℤ} (h : (idx : ℤ) ≡ sum [ZMOD count]) :
    idx = landing count sum := by
  have hmod : (idx : ℤ) % count = idx := Int.emod_eq_of_lt (by omega) (by exact_mod_cast hidx)
  rw [landing, ← h, hmod, Int.toNat_natCast]

end Residues

section Detents

variable {count : ℕ} {s : ReflowSel}

/-- One detent. -/
theorem turn_eq (hpos : 0 < count) (hmax : count ≤ 255) (hidx : s.index < 2 ^ 8) (steps : Int32) :
    turn count s steps = some (selected (landing count (s.index + steps.toInt))) := by
  obtain ⟨next, hnext, hlt, hmod⟩ := reflowSelNext_eq hidx hpos steps
  have hland : next = landing count (s.index + steps.toInt) := by
    rw [landing, ← hmod, Int.toNat_natCast]
  rw [turn, hnext, Option.map_some, u8_eq (by omega), hland]
  rfl

/-- A movement of at least one detent. -/
theorem turns_eq (hpos : 0 < count) (hmax : count ≤ 255) (hidx : s.index < 2 ^ 8)
    {detents : List Int32} (hne : detents ≠ []) :
    detents.foldlM (turn count) s =
      some (selected (landing count (s.index + stepSum detents))) := by
  induction detents generalizing s with
  | nil => exact absurd rfl hne
  | cons steps detents ih =>
    rw [List.foldlM_cons, turn_eq hpos hmax hidx, Option.bind_eq_bind, Option.bind_some]
    have hsum : stepSum (steps :: detents) = steps.toInt + stepSum detents := List.sum_cons
    cases detents with
    | nil => simp [stepSum]
    | cons next detents =>
      have hlt := landing_lt hpos (s.index + steps.toInt)
      have hidx' : (selected (landing count (s.index + steps.toInt))).index < 2 ^ 8 := by
        rw [selected_index]
        omega
      rw [ih hidx' (List.cons_ne_nil _ _), hsum, selected_index, landing_add hpos, add_assoc]

/-- The index stays a byte. -/
theorem index_of_turns (hpos : 0 < count) (hmax : count ≤ 255) (hidx : s.index < 2 ^ 8)
    (detents : List Int32) :
    ∃ t, detents.foldlM (turn count) s = some t ∧ t.index < 2 ^ 8 := by
  by_cases hnil : detents = []
  · exact ⟨s, by rw [hnil]; rfl, hidx⟩
  · have hlt := landing_lt hpos (s.index + stepSum detents)
    refine ⟨_, turns_eq hpos hmax hidx hnil, ?_⟩
    rw [selected_index]
    omega

/-- No value that `reflow_sel_next` and the commit compute leaves its type: the sum, its
remainder and the corrected remainder are `int64_t`, and the index is narrowed to `int` and to
`uint8_t`. -/
structure NoOverflow (count : ℕ) (s : ReflowSel) (steps : Int32) : Prop where
  sum : -2 ^ 63 ≤ s.index + steps.toInt ∧ s.index + steps.toInt < 2 ^ 63
  remainder : -2 ^ 63 ≤ (s.index + steps.toInt).tmod count ∧
    (s.index + steps.toInt).tmod count + count < 2 ^ 63
  index : ∀ next, reflowSelNext s steps count = some next → next < 2 ^ 31 ∧ u8 next = next

theorem noOverflow (hpos : 0 < count) (hmax : count ≤ 255) (hidx : s.index < 2 ^ 8)
    (steps : Int32) : NoOverflow count s steps := by
  have hlo := steps.le_toInt
  have hhi := steps.toInt_lt
  have hcount : (0 : ℤ) < count := Int.natCast_pos.mpr hpos
  have hrem := Int.tmod_lt_of_pos (s.index + steps.toInt) hcount
  have hneg := Int.lt_tmod_of_pos (s.index + steps.toInt) hcount
  obtain ⟨next, hnext, hlt, -⟩ := reflowSelNext_eq hidx hpos steps
  refine ⟨by omega, by omega, fun next' hnext' => ?_⟩
  obtain rfl : next = next' := Option.some.inj (hnext.symm.trans hnext')
  exact ⟨by omega, u8_eq (by omega)⟩

end Detents

/-- Detents add up. From any index, over any profile count and after any movement, the panel
shows the one index in range that is congruent to the index it started from and all the steps.
Nothing overflows on the way, and any other split of the same sum ends in the same selection. -/
theorem detents_add_up {count : ℕ} (hpos : 0 < count) (hmax : count ≤ 255) {s : ReflowSel}
    (hidx : s.index < 2 ^ 8) {detents : List Int32} (hne : detents ≠ []) :
    ∃ t, detents.foldlM (turn count) s = some t ∧
      (t.index < count ∧ (t.index : ℤ) ≡ s.index + stepSum detents [ZMOD count]) ∧
      (∀ idx < count, (idx : ℤ) ≡ s.index + stepSum detents [ZMOD count] → idx = t.index) ∧
      (∀ before steps after, detents = before ++ steps :: after →
        ∃ u, before.foldlM (turn count) s = some u ∧ NoOverflow count u steps) ∧
      ∀ detents', detents' ≠ [] → stepSum detents' = stepSum detents →
        detents'.foldlM (turn count) s = some t := by
  refine ⟨selected (landing count (s.index + stepSum detents)), turns_eq hpos hmax hidx hne,
    ⟨landing_lt hpos _, landing_modEq hpos _⟩, fun idx hlt hmod => eq_landing hlt hmod, ?_, ?_⟩
  · intro before steps after _
    obtain ⟨u, hu, hidx'⟩ := index_of_turns hpos hmax hidx before
    exact ⟨u, hu, noOverflow hpos hmax hidx' steps⟩
  · intro detents' hne' hsum
    rw [turns_eq hpos hmax hidx hne', hsum]

/-- An index past the end, and the least number of steps that a detent can have. -/
theorem detents_add_up_extreme : ∃ t,
    [Int32.minValue, -1].foldlM (turn 4) ⟨250, 0, false, 0⟩ = some t ∧
      (t.index < 4 ∧ (t.index : ℤ) ≡ 250 + stepSum [Int32.minValue, -1] [ZMOD 4]) := by
  have hidx : (⟨250, 0, false, 0⟩ : ReflowSel).index < 2 ^ 8 := by decide
  have hne : [Int32.minValue, -1] ≠ [] := List.cons_ne_nil _ _
  obtain ⟨t, hrun, hindex, -⟩ := detents_add_up (show 0 < 4 by decide) (by decide) hidx hne
  exact ⟨t, hrun, hindex⟩

end ReflowOven.DetentArithmetic
