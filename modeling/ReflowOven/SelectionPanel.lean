import ReflowOven.ApplicationContract
import ReflowOven.MachineArithmetic

/-!
# The profile selection of the panel

The selection state machine `selmap.c` and the telemetry listener of `input_ui.c` that
feeds it.
-/

namespace ReflowOven

structure ReflowSel where
  index : ℕ
  want : ℕ
  pending : Bool
  stale : ℕ
  deriving DecidableEq, Repr

def reflowSelStaleFrames : ℕ := 2

def reflowSelInit : ReflowSel := ⟨0, 0, false, 0⟩

/-- `none` is `REFLOW_SEL_NONE`. -/
def reflowSelNext (s : ReflowSel) (steps : Int32) (count : ℕ) : Option ℕ :=
  if count = 0 then none
  else
    let next := (i64 (s.index + steps.toInt)).tmod count
    let next := if next < 0 then next + count else next
    some next.toNat

def reflowSelCommit (idx : ℕ) (_ : ReflowSel) : ReflowSel := ⟨idx, idx, true, 0⟩

/-- A telemetry frame arrived carrying `idx` as the oven's profile. -/
def reflowSelTelemetry (idx : ℕ) (s : ReflowSel) : ReflowSel :=
  if !s.pending then { s with index := idx }
  else if idx = s.want then ⟨idx, idx, false, 0⟩
  else
    let s := { s with stale := u8 (s.stale + 1) }
    if s.stale ≥ reflowSelStaleFrames then ⟨idx, idx, false, 0⟩ else s

/-- The statics of `input_ui.c`; `none` is `STATE_UNKNOWN`. -/
structure Panel where
  sel : ReflowSel
  lastState : Option UInt8
  deriving DecidableEq

def telemetryCb (p : Panel) (t : ReflowTelemetry) : Panel :=
  { lastState := some t.state, sel := reflowSelTelemetry t.profileIdx.toNat p.sel }

/-- The next index is the sum modulo the number of profiles, for any number of steps. -/
theorem reflowSelNext_eq {s : ReflowSel} {count : ℕ} (hidx : s.index < 2 ^ 8) (hc : 0 < count)
    (steps : Int32) :
    ∃ next : ℕ, reflowSelNext s steps count = some next ∧ next < count ∧
      (next : ℤ) = (s.index + steps.toInt) % count := by
  have hlo := steps.le_toInt
  have hhi := steps.toInt_lt
  have hsum : i64 (s.index + steps.toInt) = s.index + steps.toInt := i64_eq (by omega) (by omega)
  have hcount : (0 : ℤ) < count := by exact_mod_cast hc
  have hmod := Int.emod_nonneg (s.index + steps.toInt) hcount.ne'
  have hlt := Int.emod_lt_of_pos (s.index + steps.toInt) hcount
  refine ⟨((s.index + steps.toInt) % count).toNat, ?_, by omega, Int.toNat_of_nonneg hmod⟩
  simp only [reflowSelNext]
  rw [if_neg hc.ne', hsum, ← tmod_add_eq_emod _ hcount]

/-- Where a frame leaves a panel: believing the oven, or still waiting as before. -/
theorem reflowSelTelemetry_cases (idx : ℕ) (s : ReflowSel) :
    (reflowSelTelemetry idx s).pending = false ∧ (reflowSelTelemetry idx s).index = idx ∨
      s.pending = true ∧ idx ≠ s.want ∧ (reflowSelTelemetry idx s).pending = true ∧
        (reflowSelTelemetry idx s).index = s.index ∧
        (reflowSelTelemetry idx s).want = s.want := by
  simp only [reflowSelTelemetry]
  split_ifs with hp hw hs
  · exact .inl ⟨by simpa using hp, rfl⟩
  · exact .inl ⟨rfl, rfl⟩
  · exact .inl ⟨rfl, rfl⟩
  · have hpending : s.pending = true := by simpa using hp
    exact .inr ⟨hpending, hw, hpending, rfl, rfl⟩

end ReflowOven
