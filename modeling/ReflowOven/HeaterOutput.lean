import ReflowOven.Configuration
import ReflowOven.MachineArithmetic

/-!
# The heater output

The slow-PWM module `heater.c`. `pin` is the level of the gate and `outputOn` the value
the module records for it. Results of the GPIO driver and readings of `k_uptime_get()`
are arguments of the functions; every function runs under the module's spinlock or from a
fatal-error path, so each is one step.
-/

namespace ReflowOven

structure Heater where
  reqPermille : ℕ
  phaseMs : ℕ
  lastUpdate : ℤ
  outputOn : Bool
  pin : Bool
  deriving DecidableEq, Repr

/-- Static storage, with the gate held low by the pull-down. -/
def Heater.zero : Heater := ⟨0, 0, 0, false, false⟩

/-- `gpioOk` is the success of `gpio_pin_set_dt`, whose return code is discarded. -/
def drive (gpioOk on : Bool) (h : Heater) : Heater :=
  if on = h.outputOn then h
  else { h with pin := if gpioOk then on else h.pin, outputOn := on }

/-- Returns whether the result is 0. -/
def reflowHeaterInit (gpioReady configured : Bool) (now : ℤ) (h : Heater) : Bool × Heater :=
  if !gpioReady then (false, h)
  else if !configured then (false, h)
  else (true, ⟨0, 0, now, false, false⟩)

/-- The request after snapping pulses the SSR cannot honour. -/
def snapDuty (cfg : CoreConfig) (permille : ℕ) : ℕ :=
  let permille := if permille > 1000 then 1000 else permille
  if permille * cfg.heaterWindowMs / 1000 < cfg.heaterMinPulseMs then 0
  else if (1000 - permille) * cfg.heaterWindowMs / 1000 < cfg.heaterMinPulseMs then 1000
  else permille

def reflowHeaterSetDuty (cfg : CoreConfig) (now : ℤ) (permille : ℕ) (h : Heater) : Heater :=
  { h with reqPermille := snapDuty cfg permille, lastUpdate := now }

def reflowHeaterOff (gpioOk : Bool) (now : ℤ) (h : Heater) : Heater :=
  drive gpioOk false { h with reqPermille := 0, lastUpdate := now }

/-- The cut of the fatal-error path, without the lock and without the shadow. -/
def reflowHeaterEmergencyOff (gpioReady gpioOk : Bool) (h : Heater) : Heater :=
  if !gpioReady then h
  else { h with pin := if gpioOk then false else h.pin, outputOn := false, reqPermille := 0 }

def onMs (cfg : CoreConfig) (h : Heater) : ℕ := h.reqPermille * cfg.heaterWindowMs / 1000

def reflowHeaterTick (cfg : CoreConfig) (gpioOk : Bool) (now : ℤ) (dtMs : ℕ) (h : Heater) :
    Heater :=
  if now - h.lastUpdate > cfg.heaterStaleMs then
    drive gpioOk false { h with reqPermille := 0 }
  else
    let phaseMs := u32 (h.phaseMs + dtMs)
    let phaseMs := if phaseMs ≥ cfg.heaterWindowMs then phaseMs % cfg.heaterWindowMs else phaseMs
    let h := { h with phaseMs := phaseMs }
    drive gpioOk (decide (phaseMs < onMs cfg h)) h

@[simp] theorem drive_outputOn (gpioOk on : Bool) (h : Heater) :
    (drive gpioOk on h).outputOn = on := by
  simp only [drive]
  split
  · next he => exact he.symm
  · rfl

@[simp] theorem drive_reqPermille (gpioOk on : Bool) (h : Heater) :
    (drive gpioOk on h).reqPermille = h.reqPermille := by
  simp only [drive]
  split <;> rfl

@[simp] theorem drive_lastUpdate (gpioOk on : Bool) (h : Heater) :
    (drive gpioOk on h).lastUpdate = h.lastUpdate := by
  simp only [drive]
  split <;> rfl

@[simp] theorem drive_phaseMs (gpioOk on : Bool) (h : Heater) :
    (drive gpioOk on h).phaseMs = h.phaseMs := by
  simp only [drive]
  split <;> rfl

/-- A write that succeeds brings the gate to the recorded level, if it was there before. -/
theorem drive_pin {on : Bool} {h : Heater} (hp : h.pin = h.outputOn) :
    (drive true on h).pin = on := by
  simp only [drive]
  split
  · next he => rw [hp, he]
  · rfl

@[simp] theorem snapDuty_zero (cfg : CoreConfig) : snapDuty cfg 0 = 0 := by
  have hmin := cfg.heaterMinPulse_range
  have hwin := cfg.heaterWindow_range
  simp only [snapDuty]
  simp only [gt_iff_lt, Nat.not_lt_zero, if_false, Nat.zero_mul, Nat.zero_div, Nat.sub_zero]
  split
  · rfl
  · next h =>
    have hzero : cfg.heaterMinPulseMs = 0 := by omega
    rw [hzero, if_neg (Nat.not_lt_zero _)]

@[simp] theorem reflowHeaterSetDuty_reqPermille (cfg : CoreConfig) (now : ℤ) (d : ℕ) (h : Heater) :
    (reflowHeaterSetDuty cfg now d h).reqPermille = snapDuty cfg d := rfl

@[simp] theorem reflowHeaterOff_outputOn (gpioOk : Bool) (now : ℤ) (h : Heater) :
    (reflowHeaterOff gpioOk now h).outputOn = false := by simp [reflowHeaterOff]

@[simp] theorem reflowHeaterOff_reqPermille (gpioOk : Bool) (now : ℤ) (h : Heater) :
    (reflowHeaterOff gpioOk now h).reqPermille = 0 := by simp [reflowHeaterOff]

@[simp] theorem reflowHeaterOff_lastUpdate (gpioOk : Bool) (now : ℤ) (h : Heater) :
    (reflowHeaterOff gpioOk now h).lastUpdate = now := by simp [reflowHeaterOff]

theorem reflowHeaterOff_pin {now : ℤ} {h : Heater} (hp : h.pin = h.outputOn) :
    (reflowHeaterOff true now h).pin = false := drive_pin hp

/-- An initialisation that fails changes nothing; one that succeeds starts from off. -/
theorem reflowHeaterInit_cases (gpioReady configured : Bool) (now : ℤ) (h : Heater) :
    reflowHeaterInit gpioReady configured now h = (false, h) ∨
      reflowHeaterInit gpioReady configured now h = (true, ⟨0, 0, now, false, false⟩) := by
  cases gpioReady <;> cases configured <;> simp [reflowHeaterInit]

theorem reflowHeaterTick_of_stale {cfg : CoreConfig} {now : ℤ} {h : Heater}
    (hstale : (cfg.heaterStaleMs : ℤ) < now - h.lastUpdate) (gpioOk : Bool) (dtMs : ℕ) :
    reflowHeaterTick cfg gpioOk now dtMs h = drive gpioOk false { h with reqPermille := 0 } :=
  if_pos hstale

theorem reflowHeaterTick_of_live {cfg : CoreConfig} {now : ℤ} {h : Heater}
    (hlive : now - h.lastUpdate ≤ cfg.heaterStaleMs) (gpioOk : Bool) (dtMs : ℕ) :
    reflowHeaterTick cfg gpioOk now dtMs h =
      drive gpioOk (decide (u32 (h.phaseMs + dtMs) % cfg.heaterWindowMs < onMs cfg h))
        { h with phaseMs := u32 (h.phaseMs + dtMs) % cfg.heaterWindowMs } := by
  have hphase : (if u32 (h.phaseMs + dtMs) ≥ cfg.heaterWindowMs then
      u32 (h.phaseMs + dtMs) % cfg.heaterWindowMs else u32 (h.phaseMs + dtMs)) =
      u32 (h.phaseMs + dtMs) % cfg.heaterWindowMs := by
    split
    · rfl
    · next hlt => exact (Nat.mod_eq_of_lt (Nat.lt_of_not_le hlt)).symm
  simp only [reflowHeaterTick, if_neg (Int.not_lt.mpr hlive), hphase]
  rfl

/-- After a tick the output is on only under a live, non-zero request. -/
theorem reflowHeaterTick_on {cfg : CoreConfig} {gpioOk : Bool} {now : ℤ} {dtMs : ℕ} {h : Heater}
    (hon : (reflowHeaterTick cfg gpioOk now dtMs h).outputOn = true) :
    now - h.lastUpdate ≤ cfg.heaterStaleMs ∧ h.reqPermille ≠ 0 := by
  simp only [reflowHeaterTick] at hon
  split at hon
  · simp at hon
  · next hfresh =>
    refine ⟨not_lt.mp hfresh, ?_⟩
    intro hreq
    simp [onMs, hreq] at hon

theorem reflowHeaterTick_reqPermille (cfg : CoreConfig) (gpioOk : Bool) (now : ℤ) (dtMs : ℕ)
    (h : Heater) : (reflowHeaterTick cfg gpioOk now dtMs h).reqPermille = h.reqPermille ∨
      (reflowHeaterTick cfg gpioOk now dtMs h).reqPermille = 0 := by
  simp only [reflowHeaterTick]
  split <;> simp

@[simp] theorem reflowHeaterTick_lastUpdate (cfg : CoreConfig) (gpioOk : Bool) (now : ℤ) (dtMs : ℕ)
    (h : Heater) : (reflowHeaterTick cfg gpioOk now dtMs h).lastUpdate = h.lastUpdate := by
  simp only [reflowHeaterTick]
  split <;> simp

theorem reflowHeaterTick_pin {cfg : CoreConfig} {now : ℤ} {dtMs : ℕ} {h : Heater}
    (hp : h.pin = h.outputOn) : (reflowHeaterTick cfg true now dtMs h).pin =
      (reflowHeaterTick cfg true now dtMs h).outputOn := by
  simp only [reflowHeaterTick]
  split <;> rw [drive_pin, drive_outputOn] <;> exact hp

end ReflowOven
