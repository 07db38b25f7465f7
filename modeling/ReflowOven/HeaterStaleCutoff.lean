import ReflowOven.GuardedMachines
import ReflowOven.HeaterOutput

/-!
# The stale-request cut-off of the heater module

Calls of the module interleaved with the clock. The deadline of a duty request is
evaluated inside `reflow_heater_tick`, so it is enforced at the ticks and nowhere else:
a tick never leaves the output on under a stale request, and a clock that runs on after
a tick that lights the element is the one way past the deadline. Which ticks do is read
off the calls, and so is the exact condition.
-/

namespace ReflowOven
namespace HeaterStale

/-- The module, the clock, and when a duty was last requested or the output cut. -/
structure TimedHeater where
  heater : Heater
  now : ℤ
  lastRequest : Option ℤ
  deriving DecidableEq

inductive HeaterCall
  | advance (ms : ℕ)
  | init (gpioReady configured : Bool)
  | setDuty (permille : ℕ)
  | off
  | tick (dtMs : ℕ)

def call (cfg : CoreConfig) (s : TimedHeater) : HeaterCall → TimedHeater
  | .advance ms => { s with now := s.now + ms }
  | .init gpioReady configured =>
    { s with heater := (reflowHeaterInit gpioReady configured s.now s.heater).2 }
  | .setDuty permille =>
    { s with heater := reflowHeaterSetDuty cfg s.now permille s.heater, lastRequest := s.now }
  | .off => { s with heater := reflowHeaterOff true s.now s.heater, lastRequest := s.now }
  | .tick dtMs => { s with heater := reflowHeaterTick cfg true s.now dtMs s.heater }

/-- Any interleaving of the clock and the calls, from static storage. -/
def timedHeater (cfg : CoreConfig) : Machine TimedHeater HeaterCall where
  init s := s.heater = .zero ∧ s.lastRequest = none
  admits _ _ := True
  step := call cfg

/-- At most the stale limit since the last duty request or off call, at a given time. -/
def FreshAt (cfg : CoreConfig) (s : TimedHeater) (time : ℤ) : Prop :=
  ∃ t, s.lastRequest = some t ∧ time - t ≤ cfg.heaterStaleMs

/-- The documented fail-safe: an output that is on rests on a fresh request. -/
def FailSafe (cfg : CoreConfig) (s : TimedHeater) : Prop :=
  s.heater.outputOn = true → FreshAt cfg s s.now

/-! ### What the calls alone say

A log lists the calls made so far, the latest first; `uptime` is the clock at the start,
which a module that was never called counts from 0.
-/

/-- How long ago a duty was last requested, the output cut or the module initialised. -/
def age (uptime : ℤ) : List HeaterCall → ℤ
  | [] => uptime
  | .advance ms :: log => age uptime log + ms
  | .init true true :: _ | .setDuty _ :: _ | .off :: _ => 0
  | _ :: log => age uptime log

/-- The duty requested, unless the output was cut or the module initialised since. -/
def asked : List HeaterCall → Option ℕ
  | [] => none
  | .setDuty permille :: _ => some permille
  | .init true true :: _ | .off :: _ => none
  | _ :: log => asked log

/-- The place in the window: the time the ticks have reported since the module was
initialised, those that came too late left out. -/
def position (cfg : CoreConfig) (uptime : ℤ) : List HeaterCall → ℕ
  | [] => 0
  | .init true true :: _ => 0
  | .tick dtMs :: log =>
    if age uptime log ≤ cfg.heaterStaleMs then
      u32 (position cfg uptime log + dtMs) % cfg.heaterWindowMs
    else position cfg uptime log
  | _ :: log => position cfg uptime log

/-- A tick with this log behind it falls into the share of the window that a request made
at most the stale limit ago asks for. -/
def Lights (cfg : CoreConfig) (uptime : ℤ) (log : List HeaterCall) (dtMs : ℕ) : Prop :=
  ∃ permille, asked log = some permille ∧ age uptime log ≤ cfg.heaterStaleMs ∧
    position cfg uptime (.tick dtMs :: log) < snapDuty cfg permille * cfg.heaterWindowMs / 1000

/-- The calls that never write the pin. -/
def Leaves : HeaterCall → Prop
  | .advance _ | .setDuty _ => True
  | .init gpioReady configured => (gpioReady && configured) = false
  | .off | .tick _ => False

/-- From a tick that lights the element to the next tick, cut or initialisation, the last
request never grows older than the stale limit. -/
def InTime (cfg : CoreConfig) (uptime : ℤ) (log : List HeaterCall) : Prop :=
  ∀ since dtMs before, since ++ .tick dtMs :: before <:+ log → Lights cfg uptime before dtMs →
    (∀ c ∈ since, Leaves c) → age uptime (since ++ .tick dtMs :: before) ≤ cfg.heaterStaleMs

/-- The log ends with a tick that lights the element and calls that leave the pin. -/
def Lit (cfg : CoreConfig) (uptime : ℤ) (log : List HeaterCall) : Prop :=
  ∃ since dtMs before, log = since ++ .tick dtMs :: before ∧ Lights cfg uptime before dtMs ∧
    ∀ c ∈ since, Leaves c

theorem inTime_iff (cfg : CoreConfig) (uptime : ℤ) (log : List HeaterCall) :
    InTime cfg uptime log ↔
      ∀ log', log' <:+ log → Lit cfg uptime log' → age uptime log' ≤ cfg.heaterStaleMs := by
  constructor
  · rintro h _ hsuffix ⟨since, dtMs, before, rfl, hlights, hleaves⟩
    exact h since dtMs before hsuffix hlights hleaves
  · intro h since dtMs before hsuffix hlights hleaves
    exact h _ hsuffix ⟨since, dtMs, before, rfl, hlights, hleaves⟩

section Log

variable {cfg : CoreConfig} {uptime : ℤ} {log : List HeaterCall}

theorem not_lit_nil : ¬Lit cfg uptime [] := by
  rintro ⟨since, dtMs, before, hlog, -⟩
  simp at hlog

theorem lit_tick {dtMs : ℕ} : Lit cfg uptime (.tick dtMs :: log) ↔ Lights cfg uptime log dtMs := by
  constructor
  · rintro ⟨since, dtMs', before, hlog, hlights, hleaves⟩
    cases since with
    | nil =>
      obtain ⟨hdt, rfl⟩ : HeaterCall.tick dtMs = .tick dtMs' ∧ log = before :=
        List.cons.inj hlog
      cases hdt
      exact hlights
    | cons c since =>
      obtain ⟨rfl, -⟩ := List.cons.inj hlog
      exact absurd (hleaves _ List.mem_cons_self) id
  · exact fun h => ⟨[], dtMs, log, rfl, h, by simp⟩

theorem lit_leaves {c : HeaterCall} (hc : Leaves c) :
    Lit cfg uptime (c :: log) ↔ Lit cfg uptime log := by
  constructor
  · rintro ⟨since, dtMs, before, hlog, hlights, hleaves⟩
    cases since with
    | nil =>
      obtain ⟨rfl, -⟩ := List.cons.inj hlog
      exact absurd hc id
    | cons d since =>
      obtain ⟨-, rfl⟩ := List.cons.inj hlog
      exact ⟨since, dtMs, before, rfl, hlights, fun e he => hleaves e (.tail _ he)⟩
  · rintro ⟨since, dtMs, before, rfl, hlights, hleaves⟩
    exact ⟨c :: since, dtMs, before, rfl, hlights, List.forall_mem_cons.mpr ⟨hc, hleaves⟩⟩

theorem not_lit_cut {c : HeaterCall} (hc : c = .off ∨ c = .init true true) :
    ¬Lit cfg uptime (c :: log) := by
  rintro ⟨since, dtMs, before, hlog, hlights, hleaves⟩
  cases since with
  | nil =>
    obtain ⟨rfl, -⟩ := List.cons.inj hlog
    simp at hc
  | cons d since =>
    obtain ⟨rfl, -⟩ := List.cons.inj hlog
    have hleave := hleaves c List.mem_cons_self
    rcases hc with rfl | rfl <;> simp [Leaves] at hleave

/-- An element that is lit was asked for. -/
theorem Lit.asked (h : Lit cfg uptime log) : ∃ permille, asked log = some permille := by
  obtain ⟨since, dtMs, before, rfl, ⟨permille, hasked, -⟩, hleaves⟩ := h
  induction since with
  | nil => exact ⟨permille, hasked⟩
  | cons c since ih =>
    obtain ⟨hc, hrest⟩ := List.forall_mem_cons.mp hleaves
    cases c with
    | advance ms => exact ih hrest
    | setDuty permille' => exact ⟨permille', rfl⟩
    | init gpioReady configured =>
      cases gpioReady <;> cases configured <;> first | exact ih hrest | simp [Leaves] at hc
    | off => exact absurd hc id
    | tick dtMs => exact absurd hc id

end Log

/-- The module holds what the calls say. -/
structure Reflects (cfg : CoreConfig) (uptime : ℤ) (log : List HeaterCall) (s : TimedHeater) :
    Prop where
  stamp : s.now - s.heater.lastUpdate = age uptime log
  place : s.heater.phaseMs = position cfg uptime log
  idle : asked log = none → s.heater.reqPermille = 0
  live : ∀ permille, asked log = some permille → age uptime log ≤ cfg.heaterStaleMs →
    s.heater.reqPermille = snapDuty cfg permille
  request : ∀ permille, asked log = some permille → s.lastRequest = some s.heater.lastUpdate
  lit : s.heater.outputOn = true ↔ Lit cfg uptime log

theorem Reflects.boot {cfg : CoreConfig} {start : TimedHeater}
    (hstart : (timedHeater cfg).init start) : Reflects cfg start.now [] start := by
  obtain ⟨hzero, -⟩ := hstart
  exact {
    stamp := by simp [hzero, Heater.zero, age]
    place := by simp [hzero, Heater.zero, position]
    idle := fun _ => by simp [hzero, Heater.zero]
    live := fun _ h => by cases h
    request := fun _ h => by cases h
    lit := iff_of_false (by simp [hzero, Heater.zero]) not_lit_nil }

theorem Reflects.tick {cfg : CoreConfig} {uptime : ℤ} {log : List HeaterCall} {s : TimedHeater}
    (h : Reflects cfg uptime log s) (dtMs : ℕ) :
    Reflects cfg uptime (.tick dtMs :: log) (call cfg s (.tick dtMs)) := by
  by_cases hlive : age uptime log ≤ cfg.heaterStaleMs
  · have hstamp : s.now - s.heater.lastUpdate ≤ cfg.heaterStaleMs := h.stamp ▸ hlive
    have htick := reflowHeaterTick_of_live hstamp true dtMs
    have hplace : position cfg uptime (.tick dtMs :: log) =
        u32 (s.heater.phaseMs + dtMs) % cfg.heaterWindowMs := by
      rw [position, if_pos hlive, h.place]
    refine ⟨?_, ?_, ?_, ?_, ?_, ?_⟩
    · simpa [call, htick, age] using h.stamp
    · simpa [call, htick] using hplace.symm
    · simpa [call, htick, asked] using h.idle
    · simpa [call, htick, asked, age] using h.live
    · simpa [call, htick, asked] using h.request
    · rw [lit_tick]
      simp only [call, htick, drive_outputOn, decide_eq_true_eq, onMs, ← hplace]
      constructor
      · intro hlt
        cases hasked : asked log with
        | none => simp [h.idle hasked] at hlt
        | some permille =>
          rw [h.live permille hasked hlive] at hlt
          exact ⟨permille, hasked, hlive, hlt⟩
      · rintro ⟨permille, hasked, -, hlt⟩
        rwa [h.live permille hasked hlive]
  · have hstamp : (cfg.heaterStaleMs : ℤ) < s.now - s.heater.lastUpdate :=
      h.stamp ▸ Int.not_le.mp hlive
    have htick := reflowHeaterTick_of_stale hstamp true dtMs
    refine ⟨?_, ?_, ?_, ?_, ?_, ?_⟩
    · simpa [call, htick, age] using h.stamp
    · simpa [call, htick, position, hlive] using h.place
    · simp [call, htick]
    · exact fun _ _ hle => absurd hle hlive
    · simpa [call, htick, asked] using h.request
    · rw [lit_tick]
      refine iff_of_false (by simp [call, htick]) ?_
      rintro ⟨-, -, hle, -⟩
      exact hlive hle

theorem Reflects.call {cfg : CoreConfig} {uptime : ℤ} {log : List HeaterCall} {s : TimedHeater}
    (h : Reflects cfg uptime log s) (c : HeaterCall) :
    Reflects cfg uptime (c :: log) (call cfg s c) := by
  cases c with
  | advance ms =>
    have hleaves : Leaves (.advance ms) := trivial
    refine ⟨?_, h.place, h.idle, fun permille hasked hle => ?_, h.request,
      h.lit.trans (lit_leaves hleaves).symm⟩
    · have hstamp := h.stamp
      simp only [HeaterStale.call, age]
      omega
    · refine h.live permille hasked (le_trans ?_ hle)
      simp [age]
  | init gpioReady configured =>
    by_cases hdone : (gpioReady && configured) = true
    · obtain ⟨rfl, rfl⟩ : gpioReady = true ∧ configured = true := by simpa using hdone
      have hcut : HeaterCall.init true true = .off ∨ HeaterCall.init true true = .init true true :=
        .inr rfl
      refine ⟨?_, rfl, fun _ => rfl, by simp [asked], by simp [asked],
        iff_of_false (by simp [HeaterStale.call, reflowHeaterInit]) (not_lit_cut hcut)⟩
      simp [HeaterStale.call, reflowHeaterInit, age]
    · have hleaves : Leaves (.init gpioReady configured) := by simpa [Leaves] using hdone
      have hfailed : HeaterStale.call cfg s (.init gpioReady configured) = s := by
        cases gpioReady <;> cases configured <;> simp_all [HeaterStale.call, reflowHeaterInit]
      have hlog : age uptime (.init gpioReady configured :: log) = age uptime log ∧
          asked (.init gpioReady configured :: log) = asked log ∧
          position cfg uptime (.init gpioReady configured :: log) = position cfg uptime log := by
        cases gpioReady <;> cases configured <;> simp_all [age, asked, position]
      obtain ⟨hage, hasked, hposition⟩ := hlog
      rw [hfailed]
      exact ⟨hage ▸ h.stamp, hposition ▸ h.place, hasked ▸ h.idle, hasked ▸ hage ▸ h.live,
        hasked ▸ h.request, h.lit.trans (lit_leaves hleaves).symm⟩
  | setDuty permille =>
    have hleaves : Leaves (.setDuty permille) := trivial
    refine ⟨?_, h.place, by simp [asked], ?_, fun _ _ => rfl,
      h.lit.trans (lit_leaves hleaves).symm⟩
    · simp [HeaterStale.call, reflowHeaterSetDuty, age]
    · rintro permille' hasked -
      rw [← Option.some.inj hasked]
      rfl
  | off =>
    have hcut : HeaterCall.off = .off ∨ HeaterCall.off = .init true true := .inl rfl
    refine ⟨?_, ?_, fun _ => ?_, by simp [asked], by simp [asked],
      iff_of_false (by simp [HeaterStale.call]) (not_lit_cut hcut)⟩
    · simp [HeaterStale.call, age]
    · simpa [HeaterStale.call, reflowHeaterOff, position] using h.place
    · simp [HeaterStale.call]
  | tick dtMs => exact h.tick dtMs

theorem run_reflects {cfg : CoreConfig} {start : TimedHeater}
    (hstart : (timedHeater cfg).init start) (calls : List HeaterCall) :
    Reflects cfg start.now calls.reverse ((timedHeater cfg).run start calls) := by
  induction calls using List.reverseRecOn with
  | nil => exact Reflects.boot hstart
  | append_singleton calls c ih =>
    rw [List.reverse_append, List.reverse_singleton, List.singleton_append, Machine.run_append]
    exact ih.call c

/-- Where the state holds what the calls say, so does the fail-safe. -/
theorem Reflects.failSafe_iff {cfg : CoreConfig} {uptime : ℤ} {log : List HeaterCall}
    {s : TimedHeater} (h : Reflects cfg uptime log s) :
    FailSafe cfg s ↔ (Lit cfg uptime log → age uptime log ≤ cfg.heaterStaleMs) := by
  rw [FailSafe, h.lit]
  refine forall_congr' fun hlit => ?_
  obtain ⟨permille, hasked⟩ := hlit.asked
  simp only [FreshAt, h.request permille hasked, Option.some.injEq, exists_eq_left', h.stamp]

/-- A run keeps the fail-safe in every state exactly when each tick that lights the element
is followed in time by a call that renews the request or looks at it again. -/
theorem fail_safe_iff_in_time (cfg : CoreConfig) (start : TimedHeater)
    (hstart : (timedHeater cfg).init start) (calls : List HeaterCall) :
    (∀ s ∈ (timedHeater cfg).visited start calls, FailSafe cfg s) ↔
      InTime cfg start.now calls.reverse := by
  simp only [inTime_iff, Machine.mem_visited_iff, forall_exists_index, and_imp,
    forall_apply_eq_imp_iff₂]
  constructor
  · intro h log hsuffix
    have htaken : log.reverse <+: calls := by
      simpa using List.reverse_prefix.mpr hsuffix
    simpa using (run_reflects hstart log.reverse).failSafe_iff.mp (h _ htaken)
  · intro h taken htaken
    exact (run_reflects hstart taken).failSafe_iff.mpr (h _ (List.reverse_suffix.mpr htaken))

def atBoot : TimedHeater := ⟨.zero, 0, none⟩

/-- A full request, one tick, then a control loop that stops calling. -/
def abandonedRun : List HeaterCall := [.init true true, .setDuty 1000, .tick 100, .advance 2001]

def promptRun : List HeaterCall := [.setDuty 1000, .tick 100, .advance 2000, .tick 100]

theorem fail_safe_iff_in_time_prompt :
    (∀ s ∈ (timedHeater {}).visited atBoot promptRun, FailSafe {} s) ∧
      InTime {} 0 promptRun.reverse := by
  have hsafe : ∀ s ∈ (timedHeater {}).visited atBoot promptRun, FailSafe {} s := by
    simp only [promptRun, Machine.visited, List.forall_mem_cons]
    refine ⟨fun hon => absurd hon (by decide), fun hon => absurd hon (by decide),
      fun _ => ⟨0, rfl, by decide⟩, fun _ => ⟨0, rfl, by decide⟩, fun _ => ⟨0, rfl, by decide⟩, ?_⟩
    simp
  exact ⟨hsafe, (fail_safe_iff_in_time {} atBoot ⟨rfl, rfl⟩ promptRun).mp hsafe⟩

/-- The output is still on 2001 ms after the last request, with a limit of 2000 ms. -/
theorem abandoned_loop_keeps_output_on :
    (timedHeater {}).Reachable ((timedHeater {}).run atBoot abandonedRun) ∧
      ((timedHeater {}).run atBoot abandonedRun).heater.outputOn = true ∧
      ¬FreshAt {} ((timedHeater {}).run atBoot abandonedRun)
        ((timedHeater {}).run atBoot abandonedRun).now := by
  refine ⟨?_, by decide, ?_⟩
  · have hboot : (timedHeater {}).Reachable atBoot := .start ⟨rfl, rfl⟩
    exact hboot.run ⟨trivial, trivial, trivial, trivial, trivial⟩
  · rintro ⟨t, ht, hle⟩
    have h0 : t = 0 := Option.some.inj (ht.symm.trans (by decide))
    subst h0
    exact absurd hle (by decide)

end HeaterStale
end ReflowOven
