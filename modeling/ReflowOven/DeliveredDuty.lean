import ReflowOven.GuardedMachines
import ReflowOven.HeaterOutput

/-!
# The duty a window delivers

Ticks sample the phase of the window at irregular points, and the decision of each holds
until the next. Within one window the output is on from its first tick to the first tick at
or past the end of the on-time, so what it delivers is a difference of two sampled phases:
each is less than one tick interval late.
-/

namespace ReflowOven.DeliveredDuty

/-- What an open window can have delivered when its phase is `phase`: it began less than
`D` late, and its on-time ended less than `D` late. -/
inductive WindowSoFar (onTime D phase : ℕ) : ℕ → Prop where
  | lit (start : ℕ) (late : start < D) (le : start ≤ phase) (on : phase < onTime) :
      WindowSoFar onTime D phase (phase - start)
  | spent (start stop : ℕ) (late : start < D) (le : start ≤ stop) (reached : onTime ≤ stop)
      (near : stop < onTime + D) (off : onTime ≤ phase) : WindowSoFar onTime D phase (stop - start)
  | dark (short : onTime < D) (off : onTime ≤ phase) : WindowSoFar onTime D phase 0

section Window

variable {onTime D phase held : ℕ}

theorem WindowSoFar.begin (late : phase < D) : WindowSoFar onTime D phase 0 := by
  by_cases hon : phase < onTime
  · have hlit := WindowSoFar.lit phase late le_rfl hon
    rwa [Nat.sub_self] at hlit
  · exact .dark (by omega) (by omega)

theorem WindowSoFar.advance (h : WindowSoFar onTime D phase held) {dt : ℕ} (hdt : dt ≤ D) :
    WindowSoFar onTime D (phase + dt) (held + if phase < onTime then dt else 0) := by
  cases h with
  | lit start late le on =>
    rw [if_pos on, ← Nat.sub_add_comm le]
    by_cases hstill : phase + dt < onTime
    · exact .lit start late (by omega) hstill
    · exact .spent start (phase + dt) late (by omega) (by omega) (by omega) (by omega)
  | spent start stop late le reached near off =>
    rw [if_neg (Nat.not_lt.mpr off)]
    exact .spent start stop late le reached near (by omega)
  | dark short off =>
    rw [if_neg (Nat.not_lt.mpr off)]
    exact .dark short (by omega)

/-- A window whose phase is past the on-time has delivered it up to less than `D`. -/
theorem WindowSoFar.near (h : WindowSoFar onTime D phase held) (hend : onTime ≤ phase) :
    |(held : ℤ) - onTime| < D := by
  rw [abs_lt]
  cases h with
  | lit _ _ _ on => omega
  | spent start stop late le reached near off => omega
  | dark short off => omega

end Window

/-- The heater module with a meter on its output: how long it has been on since the last
wrap of the phase (nothing before the first), and the same for each window since. -/
structure MeteredHeater where
  heater : Heater
  held : Option ℕ
  windows : List ℕ

inductive PwmCall
  | request (now : ℤ) (permille : ℕ)
  | tick (gpioOk : Bool) (now : ℤ) (dtMs : ℕ)

/-- The tick closes a window if it carries the phase over the end of it. -/
def meteredTick (cfg : CoreConfig) (gpioOk : Bool) (now : ℤ) (dtMs : ℕ) (s : MeteredHeater) :
    MeteredHeater :=
  let held := s.held.map (· + if s.heater.outputOn then dtMs else 0)
  let heater := reflowHeaterTick cfg gpioOk now dtMs s.heater
  if u32 (s.heater.phaseMs + dtMs) ≥ cfg.heaterWindowMs then
    { heater := heater, held := some 0, windows := held.toList ++ s.windows }
  else { heater := heater, held := held, windows := s.windows }

/-- Calls that keep the request at `r` and fresh, with ticks at most `D` apart. The meter
starts before the first wrap, or at one. -/
def pwm (cfg : CoreConfig) (r D : ℕ) : Machine MeteredHeater PwmCall where
  init s := s.heater.reqPermille = r ∧ s.heater.phaseMs < D ∧ s.windows = [] ∧
    (s.held = none ∨
      s.held = some 0 ∧ s.heater.outputOn = decide (s.heater.phaseMs < onMs cfg s.heater))
  admits s
    | .request _ permille => snapDuty cfg permille = r
    | .tick _ now dtMs => 0 < dtMs ∧ dtMs ≤ D ∧ now - s.heater.lastUpdate ≤ cfg.heaterStaleMs
  step s
    | .request now permille => { s with heater := reflowHeaterSetDuty cfg now permille s.heater }
    | .tick gpioOk now dtMs => meteredTick cfg gpioOk now dtMs s

instance (cfg : CoreConfig) (r D : ℕ) (s : MeteredHeater) (c : PwmCall) :
    Decidable ((pwm cfg r D).admits s c) := by
  cases c <;> simp only [pwm] <;> infer_instance

def onTime (cfg : CoreConfig) (r : ℕ) : ℕ := r * cfg.heaterWindowMs / 1000

theorem onTime_le (cfg : CoreConfig) {r : ℕ} (hr : r ≤ 1000) :
    onTime cfg r ≤ cfg.heaterWindowMs := by
  have hmul := Nat.mul_le_mul_right cfg.heaterWindowMs hr
  simp only [onTime]
  omega

theorem reflowHeaterTick_fresh {cfg : CoreConfig} {now : ℤ} {dtMs : ℕ} {h : Heater}
    (gpioOk : Bool) (hfresh : now - h.lastUpdate ≤ cfg.heaterStaleMs)
    (hphase : h.phaseMs < cfg.heaterWindowMs) (hdt : dtMs ≤ cfg.heaterWindowMs) :
    (reflowHeaterTick cfg gpioOk now dtMs h).reqPermille = h.reqPermille ∧
      (reflowHeaterTick cfg gpioOk now dtMs h).phaseMs =
        (if h.phaseMs + dtMs < cfg.heaterWindowMs then h.phaseMs + dtMs
          else h.phaseMs + dtMs - cfg.heaterWindowMs) ∧
      (reflowHeaterTick cfg gpioOk now dtMs h).outputOn = decide
        ((reflowHeaterTick cfg gpioOk now dtMs h).phaseMs < onTime cfg h.reqPermille) := by
  have hwindow := cfg.heaterWindow_range
  have hexact : u32 (h.phaseMs + dtMs) = h.phaseMs + dtMs := u32_eq (by omega)
  have hnext : u32 (h.phaseMs + dtMs) % cfg.heaterWindowMs =
      if h.phaseMs + dtMs < cfg.heaterWindowMs then h.phaseMs + dtMs
        else h.phaseMs + dtMs - cfg.heaterWindowMs := by
    rw [hexact]
    split
    · next hlt => exact Nat.mod_eq_of_lt hlt
    · next hge =>
      rw [Nat.mod_eq_sub_mod (Nat.le_of_not_lt hge)]
      exact Nat.mod_eq_of_lt (by omega)
  rw [reflowHeaterTick_of_live hfresh, hnext]
  refine ⟨drive_reqPermille _ _ _, drive_phaseMs _ _ _, ?_⟩
  rw [drive_outputOn, drive_phaseMs]
  rfl

structure Metered (cfg : CoreConfig) (r D : ℕ) (s : MeteredHeater) : Prop where
  request : s.heater.reqPermille = r
  phase_lt : s.heater.phaseMs < cfg.heaterWindowMs
  open_window : ∀ t, s.held = some t →
    s.heater.outputOn = decide (s.heater.phaseMs < onTime cfg r) ∧
      WindowSoFar (onTime cfg r) D s.heater.phaseMs t
  closed_windows : ∀ t ∈ s.windows, |(t : ℤ) - onTime cfg r| < D

theorem Metered.tick {cfg : CoreConfig} {r D : ℕ} {s : MeteredHeater} (h : Metered cfg r D s)
    (hr : r ≤ 1000) (hD : D ≤ cfg.heaterWindowMs) (gpioOk : Bool) {now : ℤ} {dtMs : ℕ}
    (hdt : dtMs ≤ D) (hfresh : now - s.heater.lastUpdate ≤ cfg.heaterStaleMs) :
    Metered cfg r D (meteredTick cfg gpioOk now dtMs s) := by
  have hwindow := cfg.heaterWindow_range
  have hphase := h.phase_lt
  obtain ⟨hreq, hnext, hout⟩ := reflowHeaterTick_fresh gpioOk hfresh hphase (hdt.trans hD)
  rw [h.request] at hreq hout
  have hexact : u32 (s.heater.phaseMs + dtMs) = s.heater.phaseMs + dtMs := u32_eq (by omega)
  -- the open window as this tick finds it, before a wrap
  have hopen : ∀ t, s.held.map (· + if s.heater.outputOn then dtMs else 0) = some t →
      WindowSoFar (onTime cfg r) D (s.heater.phaseMs + dtMs) t := by
    intro t ht
    obtain ⟨held, hheld, rfl⟩ := Option.map_eq_some_iff.mp ht
    obtain ⟨hon, hso⟩ := h.open_window held hheld
    simpa only [hon, decide_eq_true_eq] using hso.advance hdt
  by_cases hwrap : s.heater.phaseMs + dtMs < cfg.heaterWindowMs
  · rw [if_pos hwrap] at hnext
    simp only [meteredTick, hexact, if_neg (Nat.not_le.mpr hwrap)]
    exact
      { request := hreq
        phase_lt := hnext ▸ hwrap
        open_window := fun t ht => ⟨hout, hnext ▸ hopen t ht⟩
        closed_windows := h.closed_windows }
  · rw [if_neg hwrap] at hnext
    simp only [meteredTick, hexact, if_pos (Nat.le_of_not_lt hwrap)]
    exact
      { request := hreq
        phase_lt := by
          show (reflowHeaterTick cfg gpioOk now dtMs s.heater).phaseMs < _
          omega
        open_window := by
          intro t ht
          obtain rfl : 0 = t := Option.some.inj ht
          exact ⟨hout, .begin (by
            show (reflowHeaterTick cfg gpioOk now dtMs s.heater).phaseMs < _
            omega)⟩
        closed_windows := by
          intro t ht
          rcases List.mem_append.mp ht with ht | ht
          · have hle := onTime_le cfg hr
            exact (hopen t (Option.mem_toList.mp ht)).near (by omega)
          · exact h.closed_windows t ht }

/-- In every run of ticks at most `D` apart under a fresh request `r`, the phase stays
inside the window, and every whole window delivers `r` permille of it up to less than `D`. -/
theorem delivered_near_request (cfg : CoreConfig) {r D : ℕ} (hr : r ≤ 1000)
    (hD : D ≤ cfg.heaterWindowMs) {s : MeteredHeater} (h : (pwm cfg r D).Reachable s) :
    s.heater.phaseMs < cfg.heaterWindowMs ∧
      ∀ t ∈ s.windows, |(t : ℤ) - (r * cfg.heaterWindowMs / 1000 : ℕ)| < D := by
  have hmetered : Metered cfg r D s := by
    apply h.invariant
    · rintro s ⟨hreq, hphase, hwindows, hheld⟩
      exact
        { request := hreq
          phase_lt := by omega
          open_window := by
            intro t ht
            rcases hheld with hnone | ⟨hzero, hon⟩
            · rw [hnone] at ht
              cases ht
            · obtain rfl : 0 = t := Option.some.inj (hzero.symm.trans ht)
              rw [onMs, hreq] at hon
              exact ⟨hon, .begin hphase⟩
          closed_windows := by simp [hwindows] }
    · intro s c _ hs ha
      cases c with
      | request now permille =>
        exact { hs with request := ha }
      | tick gpioOk now dtMs => exact hs.tick hr hD gpioOk ha.2.1 ha.2.2
  exact ⟨hmetered.phase_lt, hmetered.closed_windows⟩

def meterStart : MeteredHeater := ⟨⟨300, 0, 0, true, true⟩, some 0, []⟩

/-- Uneven ticks across two windows of a second, with the request renewed between them. -/
def unevenTicks : List PwmCall :=
  [.tick true 140 140, .tick true 230 90, .tick true 370 140, .tick true 520 150,
    .tick true 670 150, .tick true 800 130, .tick true 940 140, .tick true 1090 150,
    .request 1090 300, .tick true 1240 150, .tick true 1390 150, .tick true 1540 150,
    .tick true 1690 150, .tick true 1840 150, .tick true 1990 150, .tick true 2020 30]

theorem delivered_near_request_uneven :
    ((pwm .stock 300 150).run meterStart unevenTicks).windows = [300, 370] ∧
      ((pwm .stock 300 150).run meterStart unevenTicks).heater.phaseMs < 1000 ∧
      ∀ t ∈ ((pwm .stock 300 150).run meterStart unevenTicks).windows,
        |(t : ℤ) - (300 * 1000 / 1000 : ℕ)| < (150 : ℕ) := by
  have hstart : (pwm .stock 300 150).Reachable meterStart :=
    .start ⟨rfl, by decide, rfl, .inr ⟨rfl, by decide⟩⟩
  have hadmitted : (pwm .stock 300 150).Admitted meterStart unevenTicks := by decide
  exact ⟨by decide, delivered_near_request .stock (by decide) (by decide) (hstart.run hadmitted)⟩

end ReflowOven.DeliveredDuty
