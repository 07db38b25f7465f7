import ReflowOven.ElementSafety
import ReflowOven.FaultLatch
import ReflowOven.TemperatureReading

/-!
# The oven with its thermocouple

`controller_thread` on top of `temp.c`, from the answers of the sensor driver to the heating
element. The front-end bridges an outage with the last sample it believed, but a run does
not survive an outage: what a run acts on is therefore never older than its own last three
samples, once it has taken so many.
-/

namespace ReflowOven.MeasuredOven

open TemperatureReading SpikeFilter

variable {F : Type}

/-- The control thread, and its front-end with the calls since the last initialisation. -/
structure Measured (F : Type) where
  world : World F
  session : Session

def initTemp (ready : Bool) (s : Session) : Session :=
  ⟨(reflowTempInit ready s.frontEnd).2, if ready then [] else s.calls⟩

/-- The front-end is only tried again after the heater answered. -/
def retryTemp (cfg : CoreConfig) (it : Iteration) (w : World F) (s : Session) : Session :=
  if !w.ready && decide (w.ctx.state ≠ .running) &&
      decide (it.now - w.lastRetry ≥ cfg.sensorRetryMs) &&
      (reflowHeaterInit it.heaterReady it.heaterConfigured it.reinitTime w.heater).1 then
    initTemp it.tempReady s
  else s

def sampleDue (cfg : CoreConfig) (w : World F) : Bool :=
  w.ready && decide (w.sinceSample ≥ cfg.samplePeriodMs)

/-- Whether a sample is taken in an iteration is known after its retry. -/
def takesSample (cfg : CoreConfig) (it : Iteration) (w : World F) : Bool :=
  sampleDue cfg (retryFrontEnd cfg it (advanceClock it w))

/-- The iteration, with what the front-end makes of the answers of the driver. -/
def readThrough (s : Session) (answers : SensorAnswers) (it : Iteration) : Iteration :=
  { it with read := (reflowTempRead answers s.frontEnd).1.toOption }

inductive MeasuredInput
  | iterate (it : Iteration) (answers : SensorAnswers)
  | command (time : ℤ) (cmd : ReflowCmd)

/-- The session after the retry of an iteration. -/
def Measured.retried (cfg : CoreConfig) (it : Iteration) (m : Measured F) : Session :=
  retryTemp cfg it (advanceClock it m.world) m.session

/-- The statics of `temp.c` before the thread runs, with no calls. -/
def untouched : Session := ⟨⟨reflowSpikeReset, false⟩, []⟩

/-- What the control thread is given. -/
def Measured.loopInput (cfg : CoreConfig) (m : Measured F) : MeasuredInput → LoopInput
  | .iterate it answers => .iterate (readThrough (m.retried cfg it) answers it)
  | .command time cmd => .command time cmd

variable [CFloat F]

def Measured.boot (b : Boot) : Measured F where
  world := bootController b
  session :=
    if (reflowHeaterInit b.heaterReady b.heaterConfigured b.initTime .zero).1 then
      initTemp b.tempReady untouched
    else untouched

/-- Every run of the thread and its front-end. -/
def measuredOven (cfg : CoreConfig) : Machine (Measured F) MeasuredInput where
  init m := ∃ b, m = .boot b
  admits _ _ := True
  step
    | m, .iterate it answers =>
      { world := iterate cfg (readThrough (m.retried cfg it) answers it) m.world
        session :=
          if takesSample cfg it m.world then readings.step (m.retried cfg it) answers
          else m.retried cfg it }
    | m, .command time cmd => { m with world := handleCmd time cmd m.world }

/-- The thread of a measured oven is a control thread. -/
theorem step_world (cfg : CoreConfig) (m : Measured F) (input : MeasuredInput) :
    ((measuredOven cfg).step m input).world =
      (controllerThread cfg).step m.world (m.loopInput cfg input) := by
  cases input <;> rfl

section Sessions

/-- The filter counts the samples suppressed since the last one believed. -/
def Counted (s : Session) : Prop :=
  s.frontEnd.spike.rejects =
    (s.calls.takeWhile fun call => !call.believed).countP fun call => call.sample.isSome

/-- What the last call reports is the sample that the filter holds. -/
def Reports (s : Session) : Prop :=
  ∀ mc, s.calls.head?.bind Call.reportedMc = some mc →
    s.frontEnd.spike.haveLast = true ∧ s.frontEnd.spike.lastMc = mc

structure Faithful (s : Session) : Prop where
  remembers : Remembers s
  counted : Counted s
  reports : Reports s

theorem Faithful.step {s : Session} (h : Faithful s) (a : SensorAnswers) :
    Faithful (readings.step s a) := by
  refine ⟨h.remembers.step a, ?_, ?_⟩
  all_goals
    obtain ⟨e, -, hcalls, hspike⟩ | ⟨raw, -, -, hcalls, hspike⟩ |
      ⟨raw, -, hlast, -, -, hcalls, hspike⟩ := readings_cases h.remembers a
  · rw [Counted, hcalls, hspike, h.counted]
    simp
  · rw [Counted, hcalls, hspike]
    simp
  · rw [Counted, hcalls, hspike, h.counted]
    simp
  · intro mc hmc
    simp [hcalls] at hmc
  · intro mc hmc
    obtain rfl : raw = mc := by simpa [hcalls] using hmc
    simp [hspike]
  · intro mc hmc
    obtain rfl : s.frontEnd.spike.lastMc = mc := by simpa [hcalls] using hmc
    simp [hspike]

theorem Faithful.fresh (fe : TempFrontEnd) : Faithful ⟨(reflowTempInit true fe).2, []⟩ :=
  ⟨remembers_init fe, rfl, nofun⟩

theorem Faithful.init {s : Session} (h : Faithful s) (ready : Bool) :
    Faithful (initTemp ready s) := by
  cases ready with
  | false => exact h
  | true => exact .fresh s.frontEnd

/-- Where the last three calls obtained samples, the last one reports one of these. -/
theorem Faithful.recent {s : Session} (h : Faithful s)
    (hanswered : ∀ call ∈ s.calls.take reflowSpikeMaxRejects, call.sample.isSome) : Recent s := by
  intro mc hmc
  obtain ⟨hlast, rfl⟩ := h.reports mc hmc
  obtain ⟨late, b, older, hcalls, hb, hsample, hlate⟩ := h.remembers.believed hlast
  refine ⟨b, ?_, hsample⟩
  have hwhile : s.calls.takeWhile (fun call => !call.believed) = late := by
    rw [hcalls, List.takeWhile_append_of_pos (by simpa using fun call hc => (hlate call hc).1)]
    simp [hb]
  -- three suppressed samples in a row would have been believed
  have hshort : late.length < reflowSpikeMaxRejects := by
    by_contra hlong
    push Not at hlong
    have htake : s.calls.take reflowSpikeMaxRejects = late.take reflowSpikeMaxRejects := by
      rw [hcalls, List.take_append_of_le_length hlong]
    have hall : (late.take reflowSpikeMaxRejects).countP (fun call => call.sample.isSome) =
        reflowSpikeMaxRejects := by
      rw [List.countP_eq_length.mpr (htake ▸ hanswered), List.length_take, min_eq_left hlong]
    have hcount := h.counted
    rw [Counted, hwhile] at hcount
    have hle := (List.take_sublist reflowSpikeMaxRejects late).countP_le
      (p := fun call : Call => call.sample.isSome)
    have hsane := h.remembers.sane.rejects
    omega
  rw [hcalls, List.take_append, List.mem_append]
  right
  obtain ⟨k, hk⟩ : ∃ k, reflowSpikeMaxRejects - late.length = k + 1 :=
    ⟨reflowSpikeMaxRejects - late.length - 1, by omega⟩
  rw [hk, List.take_succ_cons]
  exact List.mem_cons_self

end Sessions

/-- The three fields that only the sampling phase writes. -/
structure SameReading (w w' : World F) : Prop where
  valid : w'.ctx.tempValid = w.ctx.tempValid
  filtered : w'.ctx.tempMc = w.ctx.tempMc
  raw : w'.ctx.tempRawMc = w.ctx.tempRawMc

omit [CFloat F] in
theorem SameReading.trans {w w' w'' : World F} (h : SameReading w w') (h' : SameReading w' w'') :
    SameReading w w'' :=
  ⟨h'.valid.trans h.valid, h'.filtered.trans h.filtered, h'.raw.trans h.raw⟩

section Phases

variable (cfg : CoreConfig) (it : Iteration) (w : World F)

omit [CFloat F]

theorem retryFrontEnd_sameReading : SameReading w (retryFrontEnd cfg it (advanceClock it w)) := by
  simp only [retryFrontEnd]
  split_ifs <;> exact ⟨rfl, rfl, rfl⟩

theorem absoluteCutOut_sameReading : SameReading w (absoluteCutOut cfg it w) := by
  rcases absoluteCutOut_cases cfg it w with ⟨-, he⟩ | ⟨-, he⟩
  · rw [he]
    exact ⟨rfl, rfl, rfl⟩
  · rw [he]
    exact ⟨rfl, rfl, rfl⟩

theorem publishPeriodic_sameReading : SameReading w (publishPeriodic cfg it w) := by
  rcases publishPeriodic_cases cfg it w with he | he
  · rw [he]
    exact ⟨rfl, rfl, rfl⟩
  · rw [he]
    exact ⟨rfl, rfl, rfl⟩

variable [CFloat F]

theorem driveElement_sameReading (dtMs : ℕ) (newSample : Bool) (sampleDt : ℕ) :
    SameReading w (driveElement cfg it dtMs newSample sampleDt w) := by
  simp only [driveElement, runStep]
  split
  · cases w.ctx.prof with
    | none => exact ⟨rfl, rfl, rfl⟩
    | some prof =>
      dsimp only
      cases (tickRun prof dtMs w).ctx.run.result with
      | done | errOvertemp | errTimeout => exact ⟨rfl, rfl, rfl⟩
      | active =>
        dsimp only
        split_ifs <;> exact ⟨rfl, rfl, rfl⟩
  · exact ⟨rfl, rfl, rfl⟩

/-- The reading that an iteration leaves is that of its sampling phase. -/
theorem iterate_sameReading :
    SameReading (sampleSensor cfg it (retryFrontEnd cfg it (advanceClock it w))).1
      (iterate cfg it w) := by
  have hrest : ∀ (v : World F) (dtMs : ℕ) (newSample : Bool) (sampleDt : ℕ),
      SameReading v (publishPeriodic cfg it (tickHeater cfg it dtMs
        (driveElement cfg it dtMs newSample sampleDt (absoluteCutOut cfg it v)))) := by
    intro v dtMs newSample sampleDt
    have hdriven := (absoluteCutOut_sameReading cfg it v).trans
      (driveElement_sameReading cfg it _ dtMs newSample sampleDt)
    have hticked : SameReading _ (tickHeater cfg it dtMs _) := ⟨hdriven.1, hdriven.2, hdriven.3⟩
    exact hticked.trans (publishPeriodic_sameReading cfg it _)
  exact hrest _ _ _ _

end Phases

omit [CFloat F] in
theorem sampleSensor_sampled {cfg : CoreConfig} {it : Iteration} {w : World F}
    (hdue : takesSample cfg it w = true) {mc raw : ℤ} (hread : it.read = some (mc, raw)) :
    (sampleSensor cfg it (retryFrontEnd cfg it (advanceClock it w))).1.ctx.tempValid = true ∧
      (sampleSensor cfg it (retryFrontEnd cfg it (advanceClock it w))).1.ctx.tempMc = mc ∧
      (sampleSensor cfg it (retryFrontEnd cfg it (advanceClock it w))).1.ctx.tempRawMc = raw := by
  rw [takesSample, sampleDue] at hdue
  simp only [sampleSensor, hdue, if_true, hread]
  trivial

/-- What an iteration makes of the last reading. -/
theorem iterate_reading (cfg : CoreConfig) (it : Iteration) (w : World F) :
    (takesSample cfg it w = false ∧ SameReading w (iterate cfg it w)) ∨
    (takesSample cfg it w = true ∧ it.read = none ∧ (iterate cfg it w).ctx.tempValid = false) ∨
    (takesSample cfg it w = true ∧ ∃ mc raw, it.read = some (mc, raw) ∧
      (iterate cfg it w).ctx.tempValid = true ∧ (iterate cfg it w).ctx.tempMc = mc ∧
      (iterate cfg it w).ctx.tempRawMc = raw) := by
  have hretry := retryFrontEnd_sameReading cfg it w
  have hlast := iterate_sameReading cfg it w
  cases hdue : takesSample cfg it w with
  | false =>
    rw [takesSample, sampleDue] at hdue
    simp only [sampleSensor, hdue, Bool.false_eq_true, if_false] at hlast
    exact .inl ⟨rfl, hretry.trans hlast⟩
  | true =>
    right
    cases hread : it.read with
    | none =>
      refine .inl ⟨rfl, rfl, hlast.valid.trans ?_⟩
      rw [takesSample, sampleDue] at hdue
      simp only [sampleSensor, hdue, if_true, hread]
      split_ifs <;> rfl
    | some pair =>
      obtain ⟨hvalid, hmc, hraw⟩ := sampleSensor_sampled hdue hread
      exact .inr ⟨rfl, pair.1, pair.2, rfl, hlast.valid.trans hvalid,
        hlast.filtered.trans hmc, hlast.raw.trans hraw⟩

theorem callOf_reading {a : SensorAnswers} {fe : TempFrontEnd} {mc raw : ℤ}
    (h : (reflowTempRead a fe).1.toOption = some (mc, raw)) :
    (callOf a fe).sample = some raw ∧ (callOf a fe).reportedMc = some mc ∧ Plausible raw := by
  cases hsample : obtainSample a with
  | error e => simp [reflowTempRead, hsample, Except.toOption] at h
  | ok raw' =>
    obtain ⟨hcall, -⟩ := callOf_ok hsample fe
    obtain ⟨hmc, rfl⟩ : (reflowSpikeFilter fe.spike raw').2.1 = mc ∧ raw' = raw := by
      simpa [reflowTempRead, hsample, Except.toOption] using h
    exact ⟨by rw [hcall], by rw [hcall, hmc], plausible_of_obtainSample hsample⟩

/-- A valid reading is what the last call obtained and reported. -/
structure Linked (m : Measured F) : Prop where
  coherent : Coherent m.world
  faithful : Faithful m.session
  reading : m.world.ctx.tempValid = true → ∃ call, m.session.calls.head? = some call ∧
    call.sample = some m.world.ctx.tempRawMc ∧ call.reportedMc = some m.world.ctx.tempMc ∧
      Plausible m.world.ctx.tempRawMc

omit [CFloat F] in
/-- The front-end of a thread that has a reading is not initialised again. -/
theorem Linked.retried_eq {m : Measured F} (h : Linked m) (hvalid : m.world.ctx.tempValid = true)
    (cfg : CoreConfig) (it : Iteration) : m.retried cfg it = m.session := by
  have hready := (h.coherent.reading_last hvalid).1
  simp [Measured.retried, retryTemp, advanceClock, hready]

omit [CFloat F] in
theorem Linked.faithful_retried {m : Measured F} (h : Linked m) (cfg : CoreConfig)
    (it : Iteration) : Faithful (m.retried cfg it) := by
  simp only [Measured.retried, retryTemp]
  split
  · exact h.faithful.init _
  · exact h.faithful

theorem Linked.step {m : Measured F} (h : Linked m) (cfg : CoreConfig) (input : MeasuredInput) :
    Linked ((measuredOven cfg).step m input) := by
  cases input with
  | command time cmd =>
    have hsame : SameReading m.world (handleCmd time cmd m.world) := by
      obtain he | ⟨-, -, -, -, _, -, he⟩ | ⟨-, -, he⟩ | ⟨-, -, _, -, he⟩ | ⟨-, -, he⟩ :=
        handleCmd_cases time cmd m.world
      all_goals
        rw [he]
        exact ⟨rfl, rfl, rfl⟩
    refine ⟨h.coherent.handleCmd time cmd, h.faithful, ?_⟩
    simp only [measuredOven, hsame.valid, hsame.filtered, hsame.raw]
    exact h.reading
  | iterate it answers =>
    have hretried := h.faithful_retried cfg it
    refine ⟨h.coherent.iterate cfg _, ?_, ?_⟩
    · simp only [measuredOven]
      split
      · exact hretried.step answers
      · exact hretried
    · have hcases := iterate_reading cfg (readThrough (m.retried cfg it) answers it) m.world
      have htakes : takesSample cfg (readThrough (m.retried cfg it) answers it) m.world =
          takesSample cfg it m.world := rfl
      rw [htakes] at hcases
      simp only [measuredOven]
      obtain ⟨hnot, hsame⟩ | ⟨-, -, hlost⟩ | ⟨hdue, mc, raw, hread, -, hmc, hraw⟩ := hcases
      · rw [hsame.valid, hsame.filtered, hsame.raw, hnot]
        intro hvalid
        rw [h.retried_eq hvalid]
        exact h.reading hvalid
      · rw [hlost]
        exact nofun
      · intro _
        obtain ⟨hsample, hreported, hplausible⟩ := callOf_reading hread
        rw [hmc, hraw, hdue, if_pos rfl]
        exact ⟨_, rfl, hsample, hreported, hplausible⟩

theorem Linked.boot (b : Boot) : Linked (.boot b : Measured F) := by
  have huntouched : Faithful untouched := .fresh untouched.frontEnd
  refine ⟨coherent_boot b, ?_, ?_⟩
  · simp only [Measured.boot]
    split
    · exact huntouched.init _
    · exact huntouched
  · simp only [Measured.boot, bootController]
    split <;> simp [enterLoop, Ctx.zero]

theorem linked_of_reachable {cfg : CoreConfig} {m : Measured F}
    (h : (measuredOven cfg).Reachable m) : Linked m := by
  apply h.invariant
  · rintro m ⟨b, rfl⟩
    exact .boot b
  · exact fun m input _ hm _ => hm.step cfg input

/-- An iteration that leaves a run running took no sample, or obtained one. -/
theorem running_step {m : Measured F} (h : Linked m) (cfg : CoreConfig) (input : MeasuredInput)
    (hbefore : m.world.ctx.state = .running)
    (hafter : ((measuredOven cfg).step m input).world.ctx.state = .running) :
    ((measuredOven cfg).step m input).session.calls = m.session.calls ∨
      ∃ call, call.sample.isSome ∧
        ((measuredOven cfg).step m input).session.calls = call :: m.session.calls := by
  cases input with
  | command time cmd => exact .inl rfl
  | iterate it answers =>
    have hvalid := (h.step cfg (.iterate it answers)).coherent.running_valid hafter
    have hcases := iterate_reading cfg (readThrough (m.retried cfg it) answers it) m.world
    have htakes : takesSample cfg (readThrough (m.retried cfg it) answers it) m.world =
        takesSample cfg it m.world := rfl
    rw [htakes] at hcases
    have hretried := h.retried_eq (h.coherent.running_valid hbefore) cfg it
    simp only [measuredOven] at hvalid ⊢
    obtain ⟨hnot, -⟩ | ⟨-, -, hlost⟩ | ⟨hdue, mc, raw, hread, -, -, -⟩ := hcases
    · left
      rw [hnot, hretried]
      rfl
    · rw [hlost] at hvalid
      cases hvalid
    · right
      obtain ⟨hsample, -, -⟩ := callOf_reading hread
      rw [hdue, if_pos rfl]
      refine ⟨callOf answers (m.retried cfg it).frontEnd, by rw [hsample]; rfl, ?_⟩
      rw [readings, hretried]

/-- A run acts on its own samples: with two samples taken since any state of it, the
temperature in force was obtained by one of the last three calls, none of which failed. An
outage that the filter bridges is thus never bridged into a run for longer. -/
theorem run_acts_on_recent_samples (cfg : CoreConfig) {m : Measured F}
    (h : (measuredOven cfg).Reachable m) (inputs : List MeasuredInput)
    (hrunning : ∀ t ∈ (measuredOven cfg).visited m inputs, t.world.ctx.state = .running)
    (htwo : m.session.calls.length + 2 ≤ ((measuredOven cfg).run m inputs).session.calls.length) :
    (∀ call ∈ ((measuredOven cfg).run m inputs).session.calls.take 3, call.sample.isSome) ∧
      ∃ call ∈ ((measuredOven cfg).run m inputs).session.calls.take 3,
        call.sample = some ((measuredOven cfg).run m inputs).world.ctx.tempMc := by
  have hm := linked_of_reachable h
  obtain ⟨hlinked, new, hcalls, hnew⟩ := Machine.run_invariant_inside (M := measuredOven cfg)
    (I := fun t => Linked t ∧ ∃ new, t.session.calls = new ++ m.session.calls ∧
      ∀ call ∈ new, call.sample.isSome) (P := fun t => t.world.ctx.state = .running)
    (fun t input ht hbefore _ hafter => by
      obtain ⟨hlinked, new, hcalls, hnew⟩ := ht
      refine ⟨hlinked.step cfg input, ?_⟩
      obtain he | ⟨call, hsample, he⟩ := running_step hlinked cfg input hbefore hafter
      · exact ⟨new, he.trans hcalls, hnew⟩
      · exact ⟨call :: new, by rw [he, hcalls]; rfl, List.forall_mem_cons.mpr ⟨hsample, hnew⟩⟩)
    ⟨hm, [], rfl, nofun⟩ (Machine.admitted_of_forall (fun _ _ => trivial) _ _) hrunning
  have hlast := hrunning _ (Machine.run_mem_visited m inputs)
  generalize (measuredOven cfg).run m inputs = t at *
  -- the call before these two left the reading that the state of the run rests on
  obtain ⟨first, hfirst, hsample, -, -⟩ :=
    hm.reading (hm.coherent.running_valid (hrunning m (Machine.mem_visited_self _ _)))
  obtain ⟨rest, hrest⟩ := List.head?_eq_some_iff.mp hfirst
  have hanswered : ∀ call ∈ t.session.calls.take 3, call.sample.isSome := by
    intro call hcall
    have hlong : 3 ≤ (new ++ [first]).length := by
      rw [hcalls, List.length_append] at htwo
      rw [List.length_append, List.length_singleton]
      omega
    rw [hcalls, hrest, List.append_cons, List.take_append_of_le_length hlong] at hcall
    rcases List.mem_append.mp (List.mem_of_mem_take hcall) with hmem | hmem
    · exact hnew call hmem
    · rw [List.mem_singleton.mp hmem, hsample]
      rfl
  refine ⟨hanswered, ?_⟩
  obtain ⟨call, hcall, -, hreported, -⟩ := hlinked.reading (hlinked.coherent.running_valid hlast)
  exact hlinked.faithful.recent hanswered _ (by rw [hcall, Option.bind_some, hreported])

/-- A cold oven that has just been started. -/
def started : Measured ℚ :=
  (measuredOven .stock).run (.boot ⟨true, true, true, 0, 0, 0, 0⟩)
    [.iterate (roomIteration 300) (degrees 25),
      .command 310 ⟨ReflowCmdId.start.toU8, 0⟩]

/-- A spike, and then the oven warming up. -/
def warmingUp : List MeasuredInput :=
  [.iterate (roomIteration 600) (degrees 90),
    .iterate (roomIteration 900) (degrees 26)]

theorem started_reachable : (measuredOven .stock).Reachable started := by
  have hboot : (measuredOven .stock).Reachable
      (.boot ⟨true, true, true, 0, 0, 0, 0⟩ : Measured ℚ) := .start ⟨_, rfl⟩
  exact hboot.run (Machine.admitted_of_forall (fun _ _ => trivial) _ _)

theorem run_acts_on_recent_samples_warmingUp :
    (∀ call ∈ ((measuredOven .stock).run started warmingUp).session.calls.take 3,
      call.sample.isSome) ∧
      ∃ call ∈ ((measuredOven .stock).run started warmingUp).session.calls.take 3,
        call.sample = some ((measuredOven .stock).run started warmingUp).world.ctx.tempMc :=
  run_acts_on_recent_samples .stock started_reachable warmingUp (by decide +kernel)
    (by decide +kernel)

def IsClear : MeasuredInput → Prop
  | .iterate _ _ => False
  | .command _ cmd => cmd.id = ReflowCmdId.clearFault.toU8

/-- A sample at the hard limit ends the iteration in a fault, wherever the thread stood. -/
theorem iterate_hot {cfg : CoreConfig} {it : Iteration} {w : World F}
    (hdue : takesSample cfg it w = true) {mc raw : ℤ} (hread : it.read = some (mc, raw))
    (hhot : cfg.absMaxMc ≤ raw) : (iterate cfg it w).ctx.state = .fault := by
  have hcut : (absoluteCutOut cfg it (sampleSensor cfg it
      (retryFrontEnd cfg it (advanceClock it w))).1).ctx.state = .fault := by
    have hphase := sampleSensor_sampled hdue hread
    generalize (sampleSensor cfg it (retryFrontEnd cfg it (advanceClock it w))).1 = v at *
    obtain ⟨hvalid, -, hraw⟩ := hphase
    rcases absoluteCutOut_cases cfg it v with ⟨-, he⟩ | ⟨hcool, he⟩
    · rw [he]
      rfl
    · rw [he]
      by_contra hne
      have hbelow := hcool hvalid hne
      rw [reflowOvertempTripped_eq_false] at hbelow
      omega
  have hdriven := (FaultLatch.driveElement_quiet cfg it (u32OfInt (it.now - w.lastTick))
    (sampleSensor cfg it (retryFrontEnd cfg it (advanceClock it w))).2.1
    (sampleSensor cfg it (retryFrontEnd cfg it (advanceClock it w))).2.2 _).latched hcut
  exact ((FaultLatch.publishPeriodic_quiet cfg it (tickHeater cfg it _ _)).latched hdriven.1).1

theorem run_world (cfg : CoreConfig) (m : Measured F) (inputs : List MeasuredInput)
    (hclear : ∀ input ∈ inputs, ¬IsClear input) :
    ∃ loopInputs, (∀ input ∈ loopInputs, ¬FaultLatch.IsClear input) ∧
      ((measuredOven cfg).run m inputs).world =
        (controllerThread cfg).run m.world loopInputs := by
  induction inputs generalizing m with
  | nil => exact ⟨[], by simp, rfl⟩
  | cons input inputs ih =>
    obtain ⟨hhead, htail⟩ := List.forall_mem_cons.mp hclear
    obtain ⟨loopInputs, hloop, hrun⟩ := ih ((measuredOven cfg).step m input) htail
    refine ⟨m.loopInput cfg input :: loopInputs, List.forall_mem_cons.mpr ⟨?_, hloop⟩, ?_⟩
    · cases input with
      | iterate it answers => simp [Measured.loopInput, FaultLatch.IsClear]
      | command time cmd => exact hhead
    · rw [Machine.run_cons, Machine.run_cons, hrun, step_world]

/-- A sample of the chip at or above the hard limit cuts the element at once, whatever the
filter makes of it, and the oven stays in a fault with the element off until it is cleared. -/
theorem hot_sample_latches (cfg : CoreConfig) {m : Measured F}
    (h : (measuredOven cfg).Reachable m) {it : Iteration} {answers : SensorAnswers} {raw : ℤ}
    (hdue : takesSample cfg it m.world = true) (hsample : obtainSample answers = .ok raw)
    (hhot : cfg.absMaxMc ≤ raw) (inputs : List MeasuredInput)
    (hclear : ∀ input ∈ inputs, ¬IsClear input) :
    ∃ fault, FaultLatch.Latched fault ((measuredOven cfg).run
      ((measuredOven cfg).step m (.iterate it answers)) inputs).world := by
  have hread : (readThrough (m.retried cfg it) answers it).read =
      some ((reflowSpikeFilter (m.retried cfg it).frontEnd.spike raw).2.1, raw) := by
    simp [readThrough, reflowTempRead, hsample, Except.toOption]
  have htakes : takesSample cfg (readThrough (m.retried cfg it) answers it) m.world = true := hdue
  have hfault : ((measuredOven cfg).step m (.iterate it answers)).world.ctx.state = .fault :=
    iterate_hot htakes hread hhot
  have hnext := h.next (a := .iterate it answers) trivial
  have hlast : Coherent ((measuredOven cfg).run
      ((measuredOven cfg).step m (.iterate it answers)) inputs).world :=
    (linked_of_reachable (hnext.run (Machine.admitted_of_forall (fun _ _ => trivial) _ _))).coherent
  obtain ⟨loopInputs, hloop, hrun⟩ :=
    run_world cfg ((measuredOven cfg).step m (.iterate it answers)) inputs hclear
  rw [hrun] at hlast ⊢
  exact ⟨_, FaultLatch.latched_of_coherent hlast
    (FaultLatch.run_latched ⟨hfault, rfl⟩ hloop)⟩

/-- The filter suppresses the first sample of 350 degrees, and the oven is cut all the same. -/
theorem hot_sample_latches_suppressed : ∃ fault, FaultLatch.Latched fault
    ((measuredOven .stock).run ((measuredOven .stock).step started
      (.iterate (roomIteration 600) (degrees 350))) warmingUp).world := by
  have hsample : obtainSample (degrees 350) = .ok 350000 := by decide +kernel
  exact hot_sample_latches .stock started_reachable (by decide +kernel) hsample
    (by decide +kernel) warmingUp (by simp [warmingUp, IsClear])

/-- No iteration begins before the last one did, or `2 ^ 31` ms or more after it; the first one may
begin at the instant of the boot. -/
def Timely (m : Measured F) : MeasuredInput → Prop
  | .iterate it _ => 0 ≤ it.now - m.world.lastTick ∧ it.now - m.world.lastTick < 2 ^ 31
  | .command _ _ => True

structure Guarded (cfg : CoreConfig) (m : Measured F) : Prop where
  linked : Linked m
  entitled : ElementSafety.Entitled cfg m.world
  fresh : ElementSafety.Fresh cfg m.world

theorem Guarded.boot (cfg : CoreConfig) (b : Boot) : Guarded cfg (.boot b : Measured F) := by
  have hidle : (bootController b : World F).ctx.state ≠ .running := by
    simp only [bootController]
    split <;> simp [enterLoop, Ctx.zero]
  obtain ⟨-, hreq, hoff⟩ := (coherent_boot b).idle_off hidle
  refine ⟨.boot b, .of_off hreq hoff, fun _ => ?_⟩
  have hrange := cfg.samplePeriod_range
  simp only [Measured.boot, bootController]
  split <;> simp [enterFault, publish, enterLoop] <;> omega

theorem Guarded.step {cfg : CoreConfig} {m : Measured F} (h : Guarded cfg m)
    {input : MeasuredInput} (ht : Timely m input) :
    Guarded cfg ((measuredOven cfg).step m input) := by
  have hlinked := h.linked.step cfg input
  have hcoherent := h.linked.coherent
  cases input with
  | iterate it answers =>
    exact ⟨hlinked, ElementSafety.iterate_entitled hcoherent cfg _,
      ElementSafety.iterate_fresh h.fresh ht.1 ht.2⟩
  | command time cmd =>
    exact ⟨hlinked, ElementSafety.handleCmd_entitled hcoherent h.entitled time cmd,
      ElementSafety.handleCmd_fresh h.fresh time cmd⟩

/-- From the chip to the element: a lit element rests on the last call of the front-end, less
than a sample period old, which obtained a plausible sample; the sample and what the filter
made of it are both below the hard limit and the abort level of a stage that may heat. -/
theorem lit_element_measured (cfg : CoreConfig) {m : Measured F}
    (h : ((measuredOven cfg).restrict Timely).Reachable m)
    (hon : m.world.heater.pin = true) :
    ∃ call raw mc, m.session.calls.head? = some call ∧ call.sample = some raw ∧
      call.reportedMc = some mc ∧ Plausible raw ∧ raw < cfg.absMaxMc ∧ mc < cfg.absMaxMc ∧
      0 ≤ m.world.lastTick - m.world.lastSample ∧
      m.world.lastTick - m.world.lastSample < cfg.samplePeriodMs ∧
      ∃ prof, m.world.ctx.prof = some prof ∧ m.world.ctx.run.stage < prof.nStages ∧
        (prof.stage m.world.ctx.run.stage).kind ≠ .cool ∧
        raw < prof.abortMc ∧ mc < prof.abortMc := by
  have hguarded : Guarded cfg m := by
    apply h.invariant
    · rintro m ⟨b, rfl⟩
      exact .boot cfg b
    · exact fun m input _ hm ha => hm.step ha.2
  have hcoherent := hguarded.linked.coherent
  have hheating := hguarded.entitled (.inr (hcoherent.pin_recorded.symm.trans hon))
  obtain ⟨prof, hprof, hstage, hkind, habort, habortRaw⟩ := hheating.stage
  obtain ⟨hlimit, hlimitRaw⟩ := hheating.below_limit
  have hvalid := hcoherent.running_valid hheating.running
  obtain ⟨call, hcall, hsample, hreported, hplausible⟩ := hguarded.linked.reading hvalid
  obtain ⟨hsince, hclock⟩ := hguarded.fresh (hcoherent.reading_last hvalid).1
  exact ⟨call, _, _, hcall, hsample, hreported, hplausible, hlimitRaw, hlimit, by omega, by omega,
    prof, hprof, hstage, hkind, habortRaw, habort⟩

/-- An oven switched on, started and, half a minute later, heating. -/
def heatingUp : List MeasuredInput :=
  [.iterate (roomIteration 0) (degrees 25), .iterate (roomIteration 300) (degrees 25),
    .command 310 ⟨ReflowCmdId.start.toU8, 0⟩,
    .iterate (roomIteration 30000) (degrees 25)]

theorem lit_element_measured_heatingUp : ∃ m : Measured ℚ, m.world.heater.pin = true ∧
    ∃ call raw mc, m.session.calls.head? = some call ∧ call.sample = some raw ∧
      call.reportedMc = some mc ∧ Plausible raw ∧ raw < CoreConfig.stock.absMaxMc ∧
      mc < CoreConfig.stock.absMaxMc ∧
      0 ≤ m.world.lastTick - m.world.lastSample ∧
      m.world.lastTick - m.world.lastSample < CoreConfig.stock.samplePeriodMs ∧
      ∃ prof, m.world.ctx.prof = some prof ∧ m.world.ctx.run.stage < prof.nStages ∧
        (prof.stage m.world.ctx.run.stage).kind ≠ .cool ∧
        raw < prof.abortMc ∧ mc < prof.abortMc := by
  have hadmitted : ((measuredOven .stock).restrict Timely).Admitted
      (.boot ⟨true, true, true, 0, 0, 0, 0⟩ : Measured ℚ) heatingUp :=
    ⟨⟨trivial, by decide +kernel, by decide +kernel⟩,
      ⟨trivial, by decide +kernel, by decide +kernel⟩, ⟨trivial, trivial⟩,
      ⟨trivial, by decide +kernel, by decide +kernel⟩, trivial⟩
  have hboot : ((measuredOven .stock).restrict Timely).Reachable
      (.boot ⟨true, true, true, 0, 0, 0, 0⟩ : Measured ℚ) := .start ⟨_, rfl⟩
  have hon : (((measuredOven .stock).restrict Timely).run
      (.boot ⟨true, true, true, 0, 0, 0, 0⟩ : Measured ℚ) heatingUp).world.heater.pin = true := by
    decide +kernel
  exact ⟨_, hon, lit_element_measured .stock (hboot.run hadmitted) hon⟩

end ReflowOven.MeasuredOven
