import ReflowOven.ElementSafety

/-!
# What a start leaves of the history before it

Two controllers that have just started the same profile on the same reading may have any
past, and their clocks may be apart by any amount. `Alike` relates what the rest of the run
reads: the whole context, the heater without the instant of its last request, and the
instants of the last iteration and of the last sample. The instant of the last request is
written before every read of it, the retry clock is only read by an oven that cannot run,
and the publishing clock decides only when frames are sent.
-/

namespace ReflowOven.RunIsolation

variable {F : Type} {δ : ℤ}

/-- The same iteration, `δ` later. -/
def delayIteration (δ : ℤ) (it : Iteration) : Iteration :=
  { it with
    now := it.now + δ
    reinitTime := it.reinitTime + δ
    sampleTime := it.sampleTime + δ
    cutTime := it.cutTime + δ
    stepTime := it.stepTime + δ
    tickTime := it.tickTime + δ
    publishTime := it.publishTime + δ }

def delayed (δ : ℤ) : LoopInput → LoopInput
  | .iterate it => .iterate (delayIteration δ it)
  | .command time cmd => .command (time + δ) cmd

/-- Equal but for the instant of the last request. -/
structure SameOutput (h₁ h₂ : Heater) : Prop where
  req : h₁.reqPermille = h₂.reqPermille
  phase : h₁.phaseMs = h₂.phaseMs
  output : h₁.outputOn = h₂.outputOn
  pin : h₁.pin = h₂.pin

/-- Two running worlds whose clocks are `δ` apart. -/
structure Alike (δ : ℤ) (w₁ w₂ : World F) : Prop where
  ctx : w₁.ctx = w₂.ctx
  heater : SameOutput w₁.heater w₂.heater
  tick : w₁.lastTick + δ = w₂.lastTick
  sample : w₁.lastSample + δ = w₂.lastSample
  since : w₁.sinceSample = w₂.sinceSample
  ready : w₁.ready = true ∧ w₂.ready = true

/-- The instants of the last request are `δ` apart as well. -/
structure InStep (δ : ℤ) (w₁ w₂ : World F) : Prop extends Alike δ w₁ w₂ where
  update : w₁.heater.lastUpdate + δ = w₂.heater.lastUpdate

section Heaters

variable {h₁ h₂ : Heater}

theorem SameOutput.drive (h : SameOutput h₁ h₂) (on : Bool) :
    SameOutput (drive true on h₁) (drive true on h₂) := by
  simp only [ReflowOven.drive, h.output]
  split
  · exact h
  · exact ⟨h.req, h.phase, rfl, rfl⟩

theorem SameOutput.off (h : SameOutput h₁ h₂) (t₁ t₂ : ℤ) :
    SameOutput (reflowHeaterOff true t₁ h₁) (reflowHeaterOff true t₂ h₂) := by
  have hrequest : SameOutput { h₁ with reqPermille := 0, lastUpdate := t₁ }
      { h₂ with reqPermille := 0, lastUpdate := t₂ } := ⟨rfl, h.phase, h.output, h.pin⟩
  exact hrequest.drive false

theorem SameOutput.setDuty (h : SameOutput h₁ h₂) (cfg : CoreConfig) (t₁ t₂ : ℤ) (duty : ℕ) :
    SameOutput (reflowHeaterSetDuty cfg t₁ duty h₁) (reflowHeaterSetDuty cfg t₂ duty h₂) :=
  ⟨rfl, h.phase, h.output, h.pin⟩

/-- A tick judges the age of the request, so the two ages have to agree. -/
theorem SameOutput.tick (h : SameOutput h₁ h₂) (hage : h₁.lastUpdate + δ = h₂.lastUpdate)
    (cfg : CoreConfig) (time : ℤ) (dtMs : ℕ) :
    SameOutput (reflowHeaterTick cfg true time dtMs h₁)
      (reflowHeaterTick cfg true (time + δ) dtMs h₂) := by
  have hsame : time + δ - h₂.lastUpdate = time - h₁.lastUpdate := by omega
  simp only [reflowHeaterTick, hsame]
  split
  · have hrequest : SameOutput { h₁ with reqPermille := 0 } { h₂ with reqPermille := 0 } :=
      ⟨rfl, h.phase, h.output, h.pin⟩
    exact hrequest.drive false
  · simp only [onMs, h.req, h.phase]
    apply SameOutput.drive
    exact ⟨rfl, rfl, h.output, h.pin⟩

end Heaters

section Phases

variable {w₁ w₂ : World F}

theorem Alike.publish (h : Alike δ w₁ w₂) (t₁ t₂ : ℤ) :
    Alike δ (publish t₁ w₁) (publish t₂ w₂) :=
  ⟨h.ctx, h.heater, h.tick, h.sample, h.since, h.ready⟩

theorem InStep.enterFault (h : Alike δ w₁ w₂) (time : ℤ) (fault : ReflowFault) :
    InStep δ (enterFault time fault w₁) (enterFault (time + δ) fault w₂) where
  ctx := by simp [h.ctx]
  heater := h.heater.off _ _
  tick := h.tick
  sample := h.sample
  since := h.since
  ready := h.ready
  update := by simp

theorem InStep.stopRun (h : Alike δ w₁ w₂) (time : ℤ) (next : ReflowState) :
    InStep δ (stopRun time next w₁) (stopRun (time + δ) next w₂) where
  ctx := by simp [ReflowOven.stopRun, h.ctx]
  heater := h.heater.off _ _
  tick := h.tick
  sample := h.sample
  since := h.since
  ready := h.ready
  update := by simp

theorem Alike.withCtx (h : Alike δ w₁ w₂) (ctx : Ctx F) :
    Alike δ { w₁ with ctx := ctx } { w₂ with ctx := ctx } :=
  ⟨rfl, h.heater, h.tick, h.sample, h.since, h.ready⟩

theorem Alike.advanceClock (h : Alike δ w₁ w₂) (it : Iteration) :
    Alike δ (advanceClock it w₁) (advanceClock (delayIteration δ it) w₂) := by
  have hdt : it.now + δ - w₂.lastTick = it.now - w₁.lastTick := by
    rw [← h.tick]
    omega
  refine ⟨h.ctx, h.heater, rfl, h.sample, ?_, h.ready⟩
  simp only [ReflowOven.advanceClock, delayIteration, hdt, h.since]

theorem retryFrontEnd_of_ready (cfg : CoreConfig) (it : Iteration) {w : World F}
    (h : w.ready = true) : retryFrontEnd cfg it w = w := by
  simp [retryFrontEnd, h]

/-- Both sample or neither does, with the same outcome. -/
theorem Alike.sampleSensor (h : Alike δ w₁ w₂) (cfg : CoreConfig) (it : Iteration) :
    Alike δ (sampleSensor cfg it w₁).1 (sampleSensor cfg (delayIteration δ it) w₂).1 ∧
      (sampleSensor cfg it w₁).2 = (sampleSensor cfg (delayIteration δ it) w₂).2 := by
  have hdt : it.now + δ - w₂.lastSample = it.now - w₁.lastSample := by
    rw [← h.sample]
    omega
  simp only [ReflowOven.sampleSensor, delayIteration, h.ready, h.since, hdt, h.ctx]
  split
  · have hsampled (ctx : Ctx F) (rs₁ rs₂ : List SensorRead) : Alike δ
        { w₁ with
          ctx := ctx, lastSample := it.now, sinceSample := 0, ready := true, reads := rs₁ }
        { w₂ with
          ctx := ctx, lastSample := it.now + δ, sinceSample := 0, ready := true, reads := rs₂ } :=
      ⟨rfl, h.heater, h.tick, rfl, rfl, rfl, rfl⟩
    cases it.read with
    | some reading => exact ⟨hsampled _ _ _, rfl⟩
    | none =>
      dsimp only
      split_ifs
      · exact ⟨(InStep.enterFault (hsampled _ _ _) it.sampleTime .sensor).toAlike, rfl⟩
      · exact ⟨(hsampled _ _ _).publish _ _, rfl⟩
      · exact ⟨hsampled _ _ _, rfl⟩
  · exact ⟨h, rfl⟩

theorem Alike.absoluteCutOut (h : Alike δ w₁ w₂) (cfg : CoreConfig) (it : Iteration) :
    Alike δ (absoluteCutOut cfg it w₁) (absoluteCutOut cfg (delayIteration δ it) w₂) := by
  simp only [ReflowOven.absoluteCutOut, h.ctx]
  split
  · exact (InStep.enterFault h it.cutTime .overtemp).toAlike
  · exact h

theorem Alike.requestDuty (h : Alike δ w₁ w₂) (cfg : CoreConfig) (time : ℤ) (duty : ℕ) :
    InStep δ (requestDuty cfg time duty w₁) (requestDuty cfg (time + δ) duty w₂) where
  ctx := by simp [ReflowOven.requestDuty, h.ctx]
  heater := h.heater.setDuty cfg _ _ duty
  tick := h.tick
  sample := h.sample
  since := h.since
  ready := h.ready
  update := rfl

theorem InStep.tickHeater (h : InStep δ w₁ w₂) (cfg : CoreConfig) (it : Iteration) (dtMs : ℕ) :
    Alike δ (tickHeater cfg it dtMs w₁) (tickHeater cfg (delayIteration δ it) dtMs w₂) :=
  ⟨h.ctx, h.heater.tick h.update cfg it.tickTime dtMs, h.tick, h.sample, h.since, h.ready⟩

/-- When a frame is due is all that the publishing clocks decide. -/
theorem Alike.publishPeriodic (h : Alike δ w₁ w₂) (cfg : CoreConfig) (it : Iteration) :
    Alike δ (publishPeriodic cfg it w₁) (publishPeriodic cfg (delayIteration δ it) w₂) := by
  rcases publishPeriodic_cases cfg it w₁ with h₁ | h₁
  all_goals
    rcases publishPeriodic_cases cfg (delayIteration δ it) w₂ with h₂ | h₂
    all_goals
      rw [h₁, h₂]
      exact ⟨h.ctx, h.heater, h.tick, h.sample, h.since, h.ready⟩

variable [CFloat F]

/-- Every way through a step of a run renews the request or takes it back. -/
theorem Alike.runStep (h : Alike δ w₁ w₂) {prof : ReflowProfile} (hprof : w₁.ctx.prof = some prof)
    (cfg : CoreConfig) (time : ℤ) (dtMs : ℕ) (newSample : Bool) (sampleDtMs : ℕ) :
    InStep δ (runStep cfg time dtMs newSample sampleDtMs w₁)
      (runStep cfg (time + δ) dtMs newSample sampleDtMs w₂) := by
  have hticked : Alike δ (tickRun prof dtMs w₁) (tickRun prof dtMs w₂) := by
    simp only [tickRun, h.ctx]
    exact h.withCtx _
  have hprof₂ : w₂.ctx.prof = some prof := h.ctx ▸ hprof
  simp only [ReflowOven.runStep, hprof, hprof₂]
  rw [← hticked.ctx]
  cases (tickRun prof dtMs w₁).ctx.run.result with
  | done => exact InStep.stopRun hticked time .done
  | errOvertemp => exact InStep.enterFault hticked time .overtemp
  | errTimeout => exact InStep.enterFault hticked time .timeout
  | active =>
    dsimp only
    split_ifs
    · exact hticked.requestDuty cfg time 0
    · exact (hticked.withCtx _).requestDuty cfg time _
    · rw [hticked.ctx]
      exact hticked.requestDuty cfg time _

theorem Alike.driveElement (h : Alike δ w₁ w₂) (hprof : w₁.ctx.prof.isSome) (cfg : CoreConfig)
    (it : Iteration) (dtMs : ℕ) (newSample : Bool) (sampleDt : ℕ) :
    InStep δ (driveElement cfg it dtMs newSample sampleDt w₁)
      (driveElement cfg (delayIteration δ it) dtMs newSample sampleDt w₂) := by
  obtain ⟨prof, hprof⟩ := Option.isSome_iff_exists.mp hprof
  simp only [ReflowOven.driveElement, ← h.ctx]
  split
  · exact h.runStep hprof cfg it.stepTime _ _ _
  · exact
      { ctx := rfl
        heater := h.heater.off _ _
        tick := h.tick
        sample := h.sample
        since := h.since
        ready := h.ready
        update := by simp [delayIteration] }

end Phases

section Pacing

/-- The sampling counter is the time between the last sample and the last iteration. -/
def Paced (w : World F) : Prop := w.sinceSample = u32OfInt (w.lastTick - w.lastSample)

theorem u32_add_u32OfInt (a b : ℤ) : u32 (u32OfInt a + u32OfInt b) = u32OfInt (a + b) := by
  simp only [u32, u32OfInt]
  omega

theorem Paced.advanceClock {w : World F} (h : Paced w) (it : Iteration) :
    Paced (advanceClock it w) := by
  simp only [Paced, ReflowOven.advanceClock]
  rw [h, u32_add_u32OfInt]
  congr 1
  omega

/-- A front-end that comes back is sampled in the same iteration. -/
theorem retryFrontEnd_cases (cfg : CoreConfig) (it : Iteration) {w : World F} (h : Paced w) :
    Paced (retryFrontEnd cfg it w) ∨ ((retryFrontEnd cfg it w).ready = true ∧
      cfg.samplePeriodMs ≤ (retryFrontEnd cfg it w).sinceSample) := by
  simp only [retryFrontEnd]
  split_ifs
  · exact .inr ⟨rfl, le_rfl⟩
  · exact .inl h
  · exact .inl h

theorem sampleSensor_paced (cfg : CoreConfig) (it : Iteration) {w : World F}
    (h : Paced w ∨ (w.ready = true ∧ cfg.samplePeriodMs ≤ w.sinceSample))
    (htick : w.lastTick = it.now) : Paced (sampleSensor cfg it w).1 := by
  have hzero (ctx : Ctx F) (heater : Heater) (frames : List ReflowTelemetry)
      (reads : List SensorRead) : Paced { w with
        ctx := ctx, heater := heater, lastSample := it.now, sinceSample := 0,
        frames := frames, reads := reads } := by
    simp [Paced, htick, u32OfInt]
  simp only [sampleSensor]
  split
  · cases it.read with
    | some reading => exact hzero _ _ _ _
    | none =>
      dsimp only
      split_ifs <;> exact hzero _ _ _ _
  · next hskip => exact h.resolve_right fun hdue => hskip (by simpa using hdue)

theorem Paced.absoluteCutOut {w : World F} (h : Paced w) (cfg : CoreConfig) (it : Iteration) :
    Paced (absoluteCutOut cfg it w) := by
  rcases absoluteCutOut_cases cfg it w with ⟨-, he⟩ | ⟨-, he⟩
  · rw [he]
    exact h
  · rwa [he]

theorem Paced.publishPeriodic {w : World F} (h : Paced w) (cfg : CoreConfig) (it : Iteration) :
    Paced (publishPeriodic cfg it w) := by
  rcases publishPeriodic_cases cfg it w with he | he
  · rw [he]
    exact h
  · rwa [he]

variable [CFloat F]

theorem Paced.runStep {w : World F} (h : Paced w) (cfg : CoreConfig) (time : ℤ) (dtMs : ℕ)
    (newSample : Bool) (sampleDtMs : ℕ) :
    Paced (runStep cfg time dtMs newSample sampleDtMs w) := by
  simp only [ReflowOven.runStep]
  split
  · exact h
  next prof _ =>
    cases (tickRun prof dtMs w).ctx.run.result with
    | done | errOvertemp | errTimeout => exact h
    | active =>
      dsimp only
      split_ifs <;> exact h

theorem Paced.driveElement {w : World F} (h : Paced w) (cfg : CoreConfig) (it : Iteration)
    (dtMs : ℕ) (newSample : Bool) (sampleDt : ℕ) :
    Paced (driveElement cfg it dtMs newSample sampleDt w) := by
  simp only [ReflowOven.driveElement]
  split
  · exact h.runStep _ _ _ _ _
  · exact h

theorem Paced.iterate {w : World F} (h : Paced w) (cfg : CoreConfig) (it : Iteration) :
    Paced (iterate cfg it w) := by
  have hsampled : Paced
      (sampleSensor cfg it (retryFrontEnd cfg it (ReflowOven.advanceClock it w))).1 := by
    apply sampleSensor_paced
    · exact retryFrontEnd_cases cfg it (h.advanceClock it)
    · simp only [retryFrontEnd]
      split_ifs <;> rfl
  have hdriven := (hsampled.absoluteCutOut cfg it).driveElement cfg it
    (u32OfInt (it.now - w.lastTick))
    (sampleSensor cfg it (retryFrontEnd cfg it (ReflowOven.advanceClock it w))).2.1
    (sampleSensor cfg it (retryFrontEnd cfg it (ReflowOven.advanceClock it w))).2.2
  exact Paced.publishPeriodic (w := ReflowOven.tickHeater cfg it _ _) hdriven cfg it

theorem Paced.handleCmd {w : World F} (h : Paced w) (time : ℤ) (cmd : ReflowCmd) :
    Paced (handleCmd time cmd w) := by
  obtain he | ⟨-, -, -, -, _, -, he⟩ | ⟨-, -, he⟩ | ⟨-, -, _, -, he⟩ | ⟨-, -, he⟩ :=
    handleCmd_cases time cmd w
  all_goals
    rw [he]
    exact h

theorem paced_of_reachable {cfg : CoreConfig} {w : World F}
    (h : (controllerThread cfg).Reachable w) : Paced w := by
  apply h.invariant
  · rintro w ⟨b, rfl⟩
    simp only [bootController]
    split <;> simp [Paced, enterFault, publish, enterLoop, u32OfInt]
  · intro w input _ hw _
    cases input with
    | iterate it => exact hw.iterate cfg it
    | command time cmd => exact hw.handleCmd time cmd

end Pacing

section Runs

variable {w₁ w₂ : World F}

/-- What an operator, a logger or the element sees of a running oven. -/
structure Observation (F : Type) where
  state : ReflowState
  fault : ReflowFault
  stage : ℕ
  stageMs : ℕ
  totalMs : ℕ
  result : ReflowRunResult
  setpointMc : ℤ
  duty : ℕ
  integral : F
  outputOn : Bool
  pin : Bool

def observe (w : World F) : Observation F where
  state := w.ctx.state
  fault := w.ctx.fault
  stage := w.ctx.run.stage
  stageMs := w.ctx.run.stageMs
  totalMs := w.ctx.run.totalMs
  result := w.ctx.run.result
  setpointMc := w.ctx.setpointMc
  duty := w.ctx.duty
  integral := w.ctx.pid.integral
  outputOn := w.heater.outputOn
  pin := w.heater.pin

theorem Alike.observe (h : Alike δ w₁ w₂) : observe w₁ = observe w₂ := by
  simp only [RunIsolation.observe, h.ctx, h.heater.output, h.heater.pin]

variable [CFloat F]

theorem Alike.iterate (h : Alike δ w₁ w₂) (hw : Coherent w₁) (cfg : CoreConfig)
    (it : Iteration) : Alike δ (iterate cfg it w₁) (iterate cfg (delayIteration δ it) w₂) := by
  have hnow : (delayIteration δ it).now - w₂.lastTick = it.now - w₁.lastTick := by
    rw [← h.tick]
    simp only [delayIteration]
    omega
  have hadvanced := h.advanceClock it
  obtain ⟨hsampled, hflags⟩ := hadvanced.sampleSensor cfg it
  have hcut := hsampled.absoluteCutOut cfg it
  have hcoherent := ((hw.advanceClock it).sampleSensor cfg it).absoluteCutOut cfg it
  obtain ⟨prof, hprof, -⟩ := hcoherent.profile_selected
  simp only [ReflowOven.iterate, retryFrontEnd_of_ready _ _ hadvanced.ready.1,
    retryFrontEnd_of_ready _ _ hadvanced.ready.2, ← hflags, hnow]
  exact ((hcut.driveElement (by simp [hprof]) cfg it _ _ _).tickHeater cfg it _).publishPeriodic
    cfg it

theorem Alike.handleCmd (h : Alike δ w₁ w₂) (time : ℤ) (cmd : ReflowCmd) :
    Alike δ (handleCmd time cmd w₁) (handleCmd (time + δ) cmd w₂) := by
  simp only [ReflowOven.handleCmd, h.ctx]
  split
  · split_ifs
    · exact h
    · exact h
    · exact h
    · split
      · exact h
      · exact (h.withCtx _).publish _ _
  · split_ifs
    · exact (InStep.stopRun h time .idle).toAlike
    · exact h
  · split_ifs
    · exact h
    · split
      · exact h
      · exact (h.withCtx _).publish _ _
  · split_ifs
    · exact (h.withCtx _).publish _ _
    · exact h
  · exact h

/-- A start that is accepted at that instant. -/
structure Accepted (w : World F) (time : ℤ) (cmd : ReflowCmd) : Prop where
  start : cmd.id = ReflowCmdId.start.toU8
  idle : w.ctx.state ≠ .running
  runs : (ReflowOven.handleCmd time cmd w).ctx.state = .running

/-- What an accepted start leaves: a new run, a reset controller, and everything that the
history could have touched back where every start finds it. -/
theorem Accepted.world {w : World F} (hw : Coherent w) {time : ℤ} {cmd : ReflowCmd}
    (h : Accepted w time cmd) :
    w.ready = true ∧ ∃ prof, reflowProfileGet w.ctx.profileIdx = some prof ∧
      ReflowOven.handleCmd time cmd w = publish time { w with ctx :=
        { state := .running
          fault := .none
          profileIdx := w.ctx.profileIdx
          prof := some prof
          run := reflowRunStart prof w.ctx.tempMc
          pid := pidReset
          tempMc := w.ctx.tempMc
          tempRawMc := w.ctx.tempRawMc
          tempValid := true
          duty := 0
          setpointMc := (reflowRunStart prof w.ctx.tempMc).setpointMc } } := by
  have hid : ReflowCmdId.ofU8? cmd.id = some .start := by rw [h.start]; rfl
  have hruns := h.runs
  obtain he | ⟨-, hfault, -, hvalid, prof, hprof, he⟩ | ⟨hother, -⟩ | ⟨hother, -⟩ | ⟨hother, -⟩ :=
    handleCmd_cases time cmd w
  · rw [he] at hruns
    exact absurd hruns h.idle
  · obtain ⟨prof', hprof', hget⟩ := hw.profile_selected
    obtain rfl : prof = prof' := Option.some.inj (hprof.symm.trans hprof')
    have hnone : w.ctx.fault = .none := by
      by_contra hne
      exact hfault (hw.fault_latched.mp hne)
    refine ⟨(hw.reading_last hvalid).1, prof, hget, ?_⟩
    dsimp only at he
    rw [he, hnone, hvalid, hprof, (hw.idle_off h.idle).1]
  · exact absurd (hid.symm.trans hother) (by decide)
  · exact absurd (hid.symm.trans hother) (by decide)
  · exact absurd (hid.symm.trans hother) (by decide)

/-- What of a history a start may depend on. -/
structure SameStart (w₁ w₂ : World F) (t₁ t₂ : ℤ) : Prop where
  profile : w₁.ctx.profileIdx = w₂.ctx.profileIdx
  temp : w₁.ctx.tempMc = w₂.ctx.tempMc
  raw : w₁.ctx.tempRawMc = w₂.ctx.tempRawMc
  sample : t₁ - w₁.lastSample = t₂ - w₂.lastSample
  tick : t₁ - w₁.lastTick = t₂ - w₂.lastTick
  phase : w₁.heater.phaseMs = w₂.heater.phaseMs

theorem alike_of_accepted {cfg : CoreConfig} (hw₁ : (controllerThread cfg).Reachable w₁)
    (hw₂ : (controllerThread cfg).Reachable w₂) {t₁ t₂ : ℤ} {cmd₁ cmd₂ : ReflowCmd}
    (h₁ : Accepted w₁ t₁ cmd₁) (h₂ : Accepted w₂ t₂ cmd₂) (hsame : SameStart w₁ w₂ t₁ t₂) :
    Alike (t₂ - t₁) (ReflowOven.handleCmd t₁ cmd₁ w₁) (ReflowOven.handleCmd t₂ cmd₂ w₂) := by
  have hcoh₁ := coherent_of_reachable hw₁
  have hcoh₂ := coherent_of_reachable hw₂
  obtain ⟨hready₁, prof, hget₁, he₁⟩ := h₁.world hcoh₁
  obtain ⟨hready₂, prof', hget₂, he₂⟩ := h₂.world hcoh₂
  obtain rfl : prof = prof' := by
    rw [hsame.profile] at hget₁
    exact Option.some.inj (hget₁.symm.trans hget₂)
  obtain ⟨-, hreq₁, hoff₁⟩ := hcoh₁.idle_off h₁.idle
  obtain ⟨-, hreq₂, hoff₂⟩ := hcoh₂.idle_off h₂.idle
  rw [he₁, he₂]
  refine Alike.publish ?_ _ _
  exact
    { ctx := by simp only [hsame.profile, hsame.temp, hsame.raw]
      heater := ⟨hreq₁.trans hreq₂.symm, hsame.phase, hoff₁.trans hoff₂.symm, by
        rw [hcoh₁.pin_recorded, hcoh₂.pin_recorded, hoff₁, hoff₂]⟩
      tick := by
        have := hsame.tick
        dsimp only
        omega
      sample := by
        have := hsame.sample
        dsimp only
        omega
      since := by
        have hp₁ := paced_of_reachable hw₁
        have hp₂ := paced_of_reachable hw₂
        simp only [Paced] at hp₁ hp₂
        have htick := hsame.tick
        have hsample := hsame.sample
        rw [hp₁, hp₂]
        congr 1
        omega
      ready := ⟨hready₁, hready₂⟩ }

/-- Two reachable ovens that start the same profile on the same reading, at the same distance
from their last sample and iteration and in the same phase of the window, go through the
same run, whatever either did before. -/
theorem no_state_leaks {cfg : CoreConfig} (hw₁ : (controllerThread cfg).Reachable w₁)
    (hw₂ : (controllerThread cfg).Reachable w₂) {t₁ t₂ : ℤ} {cmd₁ cmd₂ : ReflowCmd}
    (h₁ : Accepted w₁ t₁ cmd₁) (h₂ : Accepted w₂ t₂ cmd₂) (hsame : SameStart w₁ w₂ t₁ t₂)
    (inputs : List LoopInput) :
    ((controllerThread cfg).visited (ReflowOven.handleCmd t₁ cmd₁ w₁) inputs).map observe =
      ((controllerThread cfg).visited (ReflowOven.handleCmd t₂ cmd₂ w₂)
        (inputs.map (delayed (t₂ - t₁)))).map observe := by
  apply Machine.map_visited_lockstep
    (R := fun w w' => Alike (t₂ - t₁) w w' ∧ Coherent w)
  · rintro w w' input ⟨hw, hcoh⟩
    cases input with
    | iterate it => exact ⟨hw.iterate hcoh cfg it, hcoh.iterate cfg it⟩
    | command time cmd => exact ⟨hw.handleCmd time cmd, hcoh.handleCmd time cmd⟩
  · exact fun _ _ h => h.1.observe
  · exact ⟨alike_of_accepted hw₁ hw₂ h₁ h₂ hsame, (coherent_of_reachable hw₁).handleCmd t₁ cmd₁⟩

/-- An oven that has only taken a sample. -/
def fresh : World ℚ :=
  (controllerThread .stock).run (bootController ⟨true, true, true, 0, 0, 0, 0⟩)
    [.iterate (roomIteration 300)]

/-- An oven that has heated, lost its sensor, and been cleared. -/
def veteran : World ℚ :=
  (controllerThread .stock).run (bootController ⟨true, true, true, 0, 0, 0, 0⟩)
    [.iterate (roomIteration 300), .command 310 ⟨ReflowCmdId.start.toU8, 0⟩,
      .iterate (roomIteration 600),
      .iterate { roomIteration 900 with read := none },
      .command 910 ⟨ReflowCmdId.clearFault.toU8, 0⟩, .iterate (roomIteration 1300)]

/-- The second start of the veteran goes like the first of the fresh oven: here an iteration,
and the stop after it. -/
theorem no_state_leaks_veteran :
    ((controllerThread {}).visited
        (ReflowOven.handleCmd 310 ⟨ReflowCmdId.start.toU8, 0⟩ fresh)
        [.iterate (roomIteration 600),
          .command 610 ⟨ReflowCmdId.stop.toU8, 0⟩]).map observe =
      ((controllerThread {}).visited
        (ReflowOven.handleCmd 1310 ⟨ReflowCmdId.start.toU8, 0⟩ veteran)
        ([.iterate (roomIteration 600),
          .command 610 ⟨ReflowCmdId.stop.toU8, 0⟩].map (delayed (1310 - 310)))).map observe := by
  have hboot : (controllerThread {}).Reachable
      (bootController ⟨true, true, true, 0, 0, 0, 0⟩ : World ℚ) := .start ⟨_, rfl⟩
  have hadmitted := Machine.admitted_of_forall (M := controllerThread (F := ℚ) {})
    (fun _ _ => trivial)
  exact no_state_leaks (hboot.run (hadmitted _ _)) (hboot.run (hadmitted _ _))
    ⟨rfl, by decide +kernel, by decide +kernel⟩ ⟨rfl, by decide +kernel, by decide +kernel⟩
    ⟨by decide +kernel, by decide +kernel, by decide +kernel, by decide +kernel,
      by decide +kernel, by decide +kernel⟩ _

end Runs

end ReflowOven.RunIsolation
