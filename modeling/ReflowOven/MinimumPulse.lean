import ReflowOven.HeaterShadow

/-!
# The shortest pulse of the SSR

`reflow_heater_set_duty` snaps a request whose pulse would be too short, but what the SSR
receives is decided tick by tick, and a request can fall to zero inside a window. A pulse
that a tick ends is as long as the ticks are apart, and no longer, so the minimum is kept
by the configurations whose control period is no shorter than it, and by those whose
window is too short for any pulse at all.
-/

namespace ReflowOven.MinimumPulse

open HeaterShadow (wantedLevel)

/-- The module, the clock, the last tick and the pulses: `onSince` is when the output came
on, and `pulses` are the lengths of those that a tick ended on a request in force. -/
structure PulsedHeater where
  heater : Heater
  now : ℤ
  lastTick : ℤ
  ticked : Bool
  onSince : Option ℤ
  pulses : List ℤ

/-- A call after the clock has run on for `wait` milliseconds. -/
inductive PulseCall
  | setDuty (wait permille : ℕ)
  | off (wait : ℕ)
  | emergencyOff (wait : ℕ)
  | tick (wait : ℕ)

def tickPulse (cfg : CoreConfig) (time : ℤ) (s : PulsedHeater) : PulsedHeater :=
  let heater := reflowHeaterTick cfg true time (u32OfInt (time - s.lastTick)) s.heater
  let ordinary := decide (time - s.heater.lastUpdate ≤ cfg.heaterStaleMs)
  { heater := heater
    now := time
    lastTick := time
    ticked := true
    onSince := if heater.outputOn then some (s.onSince.getD time) else none
    pulses :=
      if ordinary && !heater.outputOn then
        (s.onSince.map (time - ·)).toList ++ s.pulses
      else s.pulses }

def callPulse (cfg : CoreConfig) (s : PulsedHeater) : PulseCall → PulsedHeater
  | .setDuty wait permille =>
    { s with
      now := s.now + wait
      heater := reflowHeaterSetDuty cfg (s.now + wait) permille s.heater }
  | .off wait =>
    { s with
      now := s.now + wait
      heater := reflowHeaterOff true (s.now + wait) s.heater
      onSince := none }
  | .emergencyOff wait =>
    { s with
      now := s.now + wait
      heater := reflowHeaterEmergencyOff true true s.heater
      onSince := none }
  | .tick wait => tickPulse cfg (s.now + wait) s

/-- Any calls on an initialised module, with ticks at least one control period apart. -/
def pulsedHeater (cfg : CoreConfig) : Machine PulsedHeater PulseCall where
  init s := ∃ time, s =
    ⟨(reflowHeaterInit true true time .zero).2, time, time, false, none, []⟩
  admits s
    | .tick wait => s.ticked = true → cfg.ctrlPeriodMs ≤ s.now + wait - s.lastTick
    | _ => True
  step := callPulse cfg

/-- Every pulse that an ordinary tick ended was long enough. -/
def PulsesHonoured (cfg : CoreConfig) (s : PulsedHeater) : Prop :=
  ∀ p ∈ s.pulses, (cfg.heaterMinPulseMs : ℤ) ≤ p

structure Tracked (s : PulsedHeater) : Prop where
  from_tick : ∀ t, s.onSince = some t → s.ticked = true ∧ t ≤ s.lastTick
  clock : s.lastTick ≤ s.now

theorem Tracked.step {cfg : CoreConfig} {s : PulsedHeater} (h : Tracked s) (c : PulseCall) :
    Tracked (callPulse cfg s c) := by
  have hclock := h.clock
  cases c with
  | setDuty wait permille => exact ⟨h.from_tick, by simp only [callPulse]; omega⟩
  | off wait => exact ⟨nofun, by simp only [callPulse]; omega⟩
  | emergencyOff wait => exact ⟨nofun, by simp only [callPulse]; omega⟩
  | tick wait =>
    refine ⟨fun t ht => ⟨rfl, ?_⟩, le_rfl⟩
    simp only [callPulse, tickPulse] at ht ⊢
    split at ht
    · cases hsince : s.onSince with
      | none =>
        rw [hsince] at ht
        exact (Option.some.inj ht).symm.le
      | some since =>
        have hle := (h.from_tick since hsince).2
        rw [hsince] at ht
        obtain rfl : since = t := Option.some.inj ht
        omega
    · cases ht

/-- A tick ends a pulse at least as long after its start as ticks are apart. -/
theorem tickPulse_pulses {cfg : CoreConfig} {s : PulsedHeater} (h : Tracked s) {wait : ℕ}
    (ha : (pulsedHeater cfg).admits s (.tick wait)) :
    ∀ p ∈ (tickPulse cfg (s.now + wait) s).pulses, p ∈ s.pulses ∨ (cfg.ctrlPeriodMs : ℤ) ≤ p := by
  intro p hp
  simp only [tickPulse] at hp
  split at hp
  · rcases List.mem_append.mp hp with hp | hp
    · obtain ⟨since, hsince, rfl⟩ := Option.map_eq_some_iff.mp (Option.mem_toList.mp hp)
      obtain ⟨hticked, hle⟩ := h.from_tick since hsince
      have hapart : (cfg.ctrlPeriodMs : ℤ) ≤ s.now + wait - s.lastTick := ha hticked
      exact .inr (by omega)
    · exact .inl hp
  · exact .inl hp

theorem honoured_of_period {cfg : CoreConfig} (hperiod : cfg.heaterMinPulseMs ≤ cfg.ctrlPeriodMs)
    {s : PulsedHeater} (h : (pulsedHeater cfg).Reachable s) : PulsesHonoured cfg s := by
  have hinv : Tracked s ∧ PulsesHonoured cfg s := by
    apply h.invariant
    · rintro s ⟨time, rfl⟩
      exact ⟨⟨nofun, le_rfl⟩, nofun⟩
    · rintro s c - ⟨htracked, hpulses⟩ ha
      refine ⟨htracked.step c, ?_⟩
      cases c with
      | setDuty | off | emergencyOff => exact hpulses
      | tick wait =>
        intro p hp
        rcases tickPulse_pulses htracked ha p hp with hold | hnew
        · exact hpulses p hold
        · omega
  exact hinv.2

theorem snapDuty_eq_zero {cfg : CoreConfig} (hwindow : cfg.heaterWindowMs < cfg.heaterMinPulseMs)
    (permille : ℕ) : snapDuty cfg permille = 0 := by
  have hclamped : ∀ p : ℕ, p ≤ 1000 → p * cfg.heaterWindowMs / 1000 < cfg.heaterMinPulseMs := by
    intro p hp
    have hmul := Nat.mul_le_mul_right cfg.heaterWindowMs hp
    omega
  simp only [snapDuty]
  split
  · rw [if_pos (hclamped 1000 le_rfl)]
  · next hle => rw [if_pos (hclamped permille (Nat.not_lt.mp hle))]

theorem wantedLevel_of_zero {cfg : CoreConfig} {h : Heater} (hreq : h.reqPermille = 0) (now : ℤ)
    (dtMs : ℕ) : wantedLevel cfg h now dtMs = false := by
  simp [wantedLevel, onMs, hreq]

theorem honoured_of_window {cfg : CoreConfig}
    (hwindow : cfg.heaterWindowMs < cfg.heaterMinPulseMs) {s : PulsedHeater}
    (h : (pulsedHeater cfg).Reachable s) : PulsesHonoured cfg s := by
  have hinv : s.heater.reqPermille = 0 ∧ s.onSince = none ∧ s.pulses = [] := by
    apply h.invariant
    · rintro s ⟨time, rfl⟩
      exact ⟨rfl, rfl, rfl⟩
    · rintro s c - ⟨hreq, hsince, hpulses⟩ -
      cases c with
      | setDuty wait permille => exact ⟨snapDuty_eq_zero hwindow permille, hsince, hpulses⟩
      | off wait => exact ⟨reflowHeaterOff_reqPermille _ _ _, rfl, hpulses⟩
      | emergencyOff wait => exact ⟨rfl, rfl, hpulses⟩
      | tick wait =>
        have hreq' : (tickPulse cfg (s.now + wait) s).heater.reqPermille = 0 := by
          rcases reflowHeaterTick_reqPermille cfg true (s.now + wait)
            (u32OfInt (s.now + wait - s.lastTick)) s.heater with he | he
          · exact he.trans hreq
          · exact he
        refine ⟨hreq', ?_, ?_⟩
        · simp [pulsedHeater, callPulse, tickPulse, wantedLevel_of_zero hreq]
        · simp [pulsedHeater, callPulse, tickPulse, hsince, hpulses]
  intro p hp
  rw [hinv.2.2] at hp
  cases hp

def shortPulse (cfg : CoreConfig) : List PulseCall :=
  [.setDuty 0 1000, .tick 0, .setDuty cfg.ctrlPeriodMs 0, .tick 0]

def pulseStart : PulsedHeater :=
  ⟨(reflowHeaterInit true true 0 .zero).2, 0, 0, false, none, []⟩

theorem snapDuty_full {cfg : CoreConfig} (hpos : 0 < cfg.heaterMinPulseMs)
    (hwindow : cfg.heaterMinPulseMs ≤ cfg.heaterWindowMs) : snapDuty cfg 1000 = 1000 := by
  simp [snapDuty, hpos, hwindow]

theorem wantedLevel_of_full {cfg : CoreConfig} {h : Heater} (hreq : h.reqPermille = 1000)
    (now : ℤ) (dtMs : ℕ) (hfresh : now - h.lastUpdate ≤ cfg.heaterStaleMs) :
    wantedLevel cfg h now dtMs = true := by
  have hrange := cfg.heaterWindow_range
  have hlt := Nat.mod_lt (u32 (h.phaseMs + dtMs)) (y := cfg.heaterWindowMs) (by omega)
  have hfull : onMs cfg h = cfg.heaterWindowMs := by
    simp only [onMs, hreq]
    omega
  simp [wantedLevel, hfull, hlt, hfresh]

theorem shortPulse_pulses {cfg : CoreConfig} (hpos : 0 < cfg.heaterMinPulseMs)
    (hwindow : cfg.heaterMinPulseMs ≤ cfg.heaterWindowMs) :
    ((pulsedHeater cfg).run pulseStart (shortPulse cfg)).pulses = [(cfg.ctrlPeriodMs : ℤ)] := by
  have hfull := snapDuty_full hpos hwindow
  simp [shortPulse, pulsedHeater, callPulse, tickPulse, reflowHeaterSetDuty, pulseStart,
    wantedLevel_of_full, wantedLevel_of_zero, hfull, reflowHeaterInit]

/-- The configurations that honour the minimum pulse in every run are those whose control
period is no shorter than it, and those whose window is. -/
theorem minimum_honoured_iff (cfg : CoreConfig) :
    (∀ s, (pulsedHeater cfg).Reachable s → PulsesHonoured cfg s) ↔
      cfg.heaterMinPulseMs ≤ cfg.ctrlPeriodMs ∨ cfg.heaterWindowMs < cfg.heaterMinPulseMs := by
  constructor
  · intro h
    by_contra hnot
    push Not at hnot
    obtain ⟨hperiod, hwindow⟩ := hnot
    have hstart : (pulsedHeater cfg).Reachable pulseStart := .start ⟨0, rfl⟩
    have hadmitted : (pulsedHeater cfg).Admitted pulseStart (shortPulse cfg) := by
      simp [shortPulse, pulsedHeater, callPulse, tickPulse, pulseStart]
    have hpulses := shortPulse_pulses (by omega) hwindow
    have hlong := h _ (hstart.run hadmitted) cfg.ctrlPeriodMs (hpulses ▸ List.mem_cons_self)
    omega
  · rintro (hperiod | hwindow) s hs
    · exact honoured_of_period hperiod hs
    · exact honoured_of_window hwindow hs

theorem fastPeriod_range : 10 ≤ 10 ∧ 10 ≤ 1000 := by decide

def fastLoop : CoreConfig :=
  { CoreConfig.stock with ctrlPeriodMs := 10, ctrlPeriod_range := fastPeriod_range }

/-- Under a minimum of 50 ms the SSR receives a pulse of 10 ms. -/
theorem fast_loop_shortens_pulse : ¬∀ (cfg : CoreConfig) (s : PulsedHeater),
    (pulsedHeater cfg).Reachable s → PulsesHonoured cfg s := by
  intro h
  have hstart : (pulsedHeater fastLoop).Reachable pulseStart := .start ⟨0, rfl⟩
  have hadmitted : (pulsedHeater fastLoop).Admitted pulseStart (shortPulse fastLoop) :=
    ⟨trivial, nofun, trivial, fun _ => by decide, trivial⟩
  have hlong := h fastLoop _ (hstart.run hadmitted) 10 (by decide)
  exact absurd hlong (by decide)

end ReflowOven.MinimumPulse
