import Mathlib.Data.Int.Basic

/-!
# Build configuration

The Kconfig values the modelled code reads. A configuration carries the proof that each
option with a `range` is inside it, so a value outside the ranges cannot be built.
-/

namespace ReflowOven

structure CoreConfig where
  ctrlPeriodMs : ℕ := 100
  samplePeriodMs : ℕ := 250
  publishPeriodMs : ℕ := 500
  absMaxTempC : ℕ := 270
  sensorRetryMs : ℕ := 2000
  heaterWindowMs : ℕ := 1000
  heaterMinPulseMs : ℕ := 50
  heaterStaleMs : ℕ := 2000
  pidKpMilli : ℤ := 60000
  pidKiMilli : ℤ := 2000
  pidKdMilli : ℤ := 250000
  pidIClamp : ℤ := 1000
  pidDAlphaMilli : ℕ := 200
  ctrlPeriod_range : 10 ≤ ctrlPeriodMs ∧ ctrlPeriodMs ≤ 1000 := by decide
  samplePeriod_range : 100 ≤ samplePeriodMs ∧ samplePeriodMs ≤ 2000 := by decide
  publishPeriod_range : 100 ≤ publishPeriodMs ∧ publishPeriodMs ≤ 5000 := by decide
  absMaxTemp_range : 60 ≤ absMaxTempC ∧ absMaxTempC ≤ 400 := by decide
  sensorRetry_range : 250 ≤ sensorRetryMs ∧ sensorRetryMs ≤ 60000 := by decide
  heaterWindow_range : 100 ≤ heaterWindowMs ∧ heaterWindowMs ≤ 10000 := by decide
  heaterMinPulse_range : heaterMinPulseMs ≤ 1000 := by decide
  heaterStale_range : 200 ≤ heaterStaleMs ∧ heaterStaleMs ≤ 10000 := by decide
  pidDAlpha_range : 1 ≤ pidDAlphaMilli ∧ pidDAlphaMilli ≤ 1000 := by decide

/-- Every option at its default. -/
def CoreConfig.stock : CoreConfig := {}

/-- `ABS_MAX_MC` of the control thread. -/
def CoreConfig.absMaxMc (cfg : CoreConfig) : ℤ := cfg.absMaxTempC * 1000

end ReflowOven
