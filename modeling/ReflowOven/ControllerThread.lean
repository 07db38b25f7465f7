import ReflowOven.ApplicationContract
import ReflowOven.BoundedQueues
import ReflowOven.Configuration
import ReflowOven.GuardedMachines
import ReflowOven.HeaterOutput
import ReflowOven.PidControl
import ReflowOven.ReflowProfiles

/-!
# The control thread

`controller_thread` with its command handler. One iteration of the loop body is a
composition of the phases of the source in their order; commands are handled one by one
in the wait that follows. What the environment decides is an argument: every reading of
`k_uptime_get()`, the results of the front-end initialisations and the sensor reads.
GPIO writes succeed. Published frames and sensor reads are recorded, newest first.
-/

namespace ReflowOven

variable {F : Type}

structure Ctx (F : Type) where
  state : ReflowState
  fault : ReflowFault
  profileIdx : ℕ
  prof : Option ReflowProfile
  run : ReflowRun
  pid : PidState F
  tempMc : ℤ
  tempRawMc : ℤ
  tempValid : Bool
  duty : ℕ
  setpointMc : ℤ

/-- A call of `reflow_temp_read`: filtered and raw value, or a failure. -/
structure SensorRead where
  time : ℤ
  result : Option (ℤ × ℤ)
  deriving DecidableEq

/-- The control context, the heater module, the locals of the thread and the record. -/
structure World (F : Type) where
  ctx : Ctx F
  heater : Heater
  lastTick : ℤ
  lastPublish : ℤ
  lastSample : ℤ
  lastRetry : ℤ
  sinceSample : ℕ
  ready : Bool
  frames : List ReflowTelemetry
  reads : List SensorRead

/-- The frame `publish` builds from the context. -/
def telemetryOf (uptime : ℤ) (ctx : Ctx F) : ReflowTelemetry where
  uptimeMs := .ofNat (u32OfInt uptime)
  tempMc := .ofInt ctx.tempMc
  tempValid := if ctx.tempValid then 1 else 0
  setpointMc := .ofInt (if ctx.state = .running then ctx.setpointMc else 0)
  dutyPermille := .ofNat ctx.duty
  state := ctx.state.toU8
  fault := ctx.fault.toU8
  profileIdx := .ofNat ctx.profileIdx
  stageIdx := .ofNat ctx.run.stage
  nStages := .ofNat (match ctx.prof with | some prof => prof.nStages | none => 0)
  stageMs := .ofNat ctx.run.stageMs
  totalMs := .ofNat ctx.run.totalMs

def publish (time : ℤ) (w : World F) : World F :=
  { w with frames := telemetryOf time w.ctx :: w.frames }

def enterFault (time : ℤ) (fault : ReflowFault) (w : World F) : World F :=
  publish time { w with
    heater := reflowHeaterOff true time w.heater
    ctx := { w.ctx with duty := 0, state := .fault, fault := fault } }

def stopRun (time : ℤ) (next : ReflowState) (w : World F) : World F :=
  publish time { w with
    heater := reflowHeaterOff true time w.heater
    ctx := { w.ctx with duty := 0, state := next } }

section Frames

variable (time : ℤ) (fault : ReflowFault) (next : ReflowState) (w : World F)

@[simp] theorem publish_ctx : (publish time w).ctx = w.ctx := rfl

@[simp] theorem enterFault_ctx : (enterFault time fault w).ctx =
    { w.ctx with duty := 0, state := .fault, fault := fault } := rfl

@[simp] theorem enterFault_heater :
    (enterFault time fault w).heater = reflowHeaterOff true time w.heater := rfl

@[simp] theorem stopRun_heater :
    (stopRun time next w).heater = reflowHeaterOff true time w.heater := rfl

end Frames

variable [CFloat F]

def pidCfg (cfg : CoreConfig) : PidCfg F :=
  let milli (z : ℤ) : F := CFloat.ofRat z / CFloat.ofRat 1000
  { kp := milli cfg.pidKpMilli
    ki := milli cfg.pidKiMilli
    kd := milli cfg.pidKdMilli
    outMin := CFloat.ofRat 0
    outMax := CFloat.ofRat 1000
    iMin := -CFloat.ofRat cfg.pidIClamp
    iMax := CFloat.ofRat cfg.pidIClamp
    dAlpha := milli cfg.pidDAlphaMilli }

def handleCmd (time : ℤ) (cmd : ReflowCmd) (w : World F) : World F :=
  match ReflowCmdId.ofU8? cmd.id with
  | some .start =>
    if w.ctx.state = .fault then w
    else if !w.ctx.tempValid then w
    else if w.ctx.state = .running then w
    else match w.ctx.prof with
      | none => w  -- NULL, which the source would dereference
      | some prof =>
        let run := reflowRunStart prof w.ctx.tempMc
        publish time { w with ctx := { w.ctx with
          run := run, pid := pidReset, setpointMc := run.setpointMc, state := .running } }
  | some .stop => if w.ctx.state = .running then stopRun time .idle w else w
  | some .selectProfile =>
    if w.ctx.state = .running then w
    else match reflowProfileGet (u8OfInt cmd.arg) with
      | none => w
      | some prof =>
        publish time { w with ctx := { w.ctx with
          profileIdx := u8OfInt cmd.arg, prof := some prof } }
  | some .clearFault =>
    if w.ctx.state = .fault then
      publish time { w with ctx := { w.ctx with fault := .none, state := .idle } }
    else w
  | none => w

/-- The duty a new sample asks for, and the controller state after it. -/
def pidDuty (cfg : CoreConfig) (sampleDtMs : ℕ) (ctx : Ctx F) : Ctx F :=
  let milli (z : ℤ) : F := CFloat.ofRat z / CFloat.ofRat 1000
  let step := pidStep (pidCfg cfg) ctx.pid (milli ctx.setpointMc) (milli ctx.tempMc)
    (milli sampleDtMs)
  { ctx with pid := step.2, duty := CFloat.toU16 (step.1.out + CFloat.ofRat (1 / 2)) }

/-- The stage machine moves, and the setpoint with it. -/
def tickRun (prof : ReflowProfile) (dtMs : ℕ) (w : World F) : World F :=
  let run := reflowRunTick w.ctx.run prof dtMs w.ctx.tempMc w.ctx.tempRawMc
  { w with ctx := { w.ctx with run := run, setpointMc := run.setpointMc } }

def requestDuty (cfg : CoreConfig) (time : ℤ) (duty : ℕ) (w : World F) : World F :=
  { w with
    ctx := { w.ctx with duty := duty }
    heater := reflowHeaterSetDuty cfg time duty w.heater }

def runStep (cfg : CoreConfig) (time : ℤ) (dtMs : ℕ) (newSample : Bool) (sampleDtMs : ℕ)
    (w : World F) : World F :=
  match w.ctx.prof with
  | none => w  -- NULL, which the source would dereference
  | some prof =>
    let w := tickRun prof dtMs w
    match w.ctx.run.result with
    | .done => stopRun time .done w
    | .errOvertemp => enterFault time .overtemp w
    | .errTimeout => enterFault time .timeout w
    | .active =>
      if !reflowRunHeaterAllowed w.ctx.run prof then requestDuty cfg time 0 w
      else
        let w := if newSample then { w with ctx := pidDuty cfg sampleDtMs w.ctx } else w
        requestDuty cfg time w.ctx.duty w

/-- What the environment does during one iteration: the instant at the top of the loop,
the outcome of a front-end retry, the outcome of a sensor read, and the instants at
which the later calls of the body read the clock. -/
structure Iteration where
  now : ℤ
  heaterReady : Bool
  heaterConfigured : Bool
  tempReady : Bool
  read : Option (ℤ × ℤ)
  reinitTime : ℤ
  sampleTime : ℤ
  cutTime : ℤ
  stepTime : ℤ
  tickTime : ℤ
  publishTime : ℤ

/-- An iteration at one instant, on a front-end that answers. -/
def iterationAt (now : ℤ) (read : Option (ℤ × ℤ)) : Iteration where
  now := now
  heaterReady := true
  heaterConfigured := true
  tempReady := true
  read := read
  reinitTime := now
  sampleTime := now
  cutTime := now
  stepTime := now
  tickTime := now
  publishTime := now

/-- A reading of 25 degrees, filtered and raw. -/
def roomIteration (now : ℤ) : Iteration := iterationAt now (some (25000, 25000))

def advanceClock (it : Iteration) (w : World F) : World F :=
  { w with
    lastTick := it.now
    sinceSample := u32 (w.sinceSample + u32OfInt (it.now - w.lastTick)) }

/-- A front-end that was missing may be back; only tried outside a run. -/
def retryFrontEnd (cfg : CoreConfig) (it : Iteration) (w : World F) : World F :=
  if !w.ready && decide (w.ctx.state ≠ .running) &&
      decide (it.now - w.lastRetry ≥ cfg.sensorRetryMs) then
    let init := reflowHeaterInit it.heaterReady it.heaterConfigured it.reinitTime w.heater
    let w := { w with lastRetry := it.now, heater := init.2 }
    if init.1 && it.tempReady then { w with ready := true, sinceSample := cfg.samplePeriodMs }
    else w
  else w

/-- The sampling phase, with `new_sample` and `sample_dt`. -/
def sampleSensor (cfg : CoreConfig) (it : Iteration) (w : World F) : World F × Bool × ℕ :=
  if w.ready && decide (w.sinceSample ≥ cfg.samplePeriodMs) then
    let sampleDt := u32OfInt (it.now - w.lastSample)
    let w := { w with
      lastSample := it.now, sinceSample := 0, reads := ⟨it.now, it.read⟩ :: w.reads }
    match it.read with
    | some (mc, raw) =>
      ({ w with ctx := { w.ctx with tempMc := mc, tempRawMc := raw, tempValid := true } },
        true, sampleDt)
    | none =>
      let wasValid := w.ctx.tempValid
      let w := { w with ctx := { w.ctx with tempValid := false } }
      if w.ctx.state = .running then (enterFault it.sampleTime .sensor w, false, sampleDt)
      else if wasValid then (publish it.sampleTime w, false, sampleDt)
      else (w, false, sampleDt)
  else (w, false, 0)

/-- The hard limit, independent of the profile and of the spike rejector. -/
def absoluteCutOut (cfg : CoreConfig) (it : Iteration) (w : World F) : World F :=
  if w.ctx.tempValid && decide (w.ctx.state ≠ .fault) &&
      reflowOvertempTripped w.ctx.tempMc w.ctx.tempRawMc cfg.absMaxMc then
    enterFault it.cutTime .overtemp w
  else w

def driveElement (cfg : CoreConfig) (it : Iteration) (dtMs : ℕ) (newSample : Bool)
    (sampleDt : ℕ) (w : World F) : World F :=
  if w.ctx.state = .running then
    runStep cfg it.stepTime dtMs newSample
      (if sampleDt ≠ 0 then sampleDt else cfg.samplePeriodMs) w
  else
    { w with
      ctx := { w.ctx with duty := 0 }
      heater := reflowHeaterOff true it.stepTime w.heater }

def tickHeater (cfg : CoreConfig) (it : Iteration) (dtMs : ℕ) (w : World F) : World F :=
  { w with heater := reflowHeaterTick cfg true it.tickTime dtMs w.heater }

def publishPeriodic (cfg : CoreConfig) (it : Iteration) (w : World F) : World F :=
  if it.now - w.lastPublish ≥ cfg.publishPeriodMs then
    publish it.publishTime { w with lastPublish := it.now }
  else w

/-- One pass through the body of the loop, up to the wait. -/
def iterate (cfg : CoreConfig) (it : Iteration) (w : World F) : World F :=
  let dtMs := u32OfInt (it.now - w.lastTick)
  let sampled := sampleSensor cfg it (retryFrontEnd cfg it (advanceClock it w))
  publishPeriodic cfg it <| tickHeater cfg it dtMs <|
    driveElement cfg it dtMs sampled.2.1 sampled.2.2 <| absoluteCutOut cfg it sampled.1

/-- The outcome of the initialisations before the loop. -/
structure Boot where
  heaterReady : Bool
  heaterConfigured : Bool
  tempReady : Bool
  initTime : ℤ
  faultTime : ℤ
  retryTime : ℤ
  tickTime : ℤ

def Ctx.zero : Ctx F where
  state := .idle
  fault := .none
  profileIdx := 0
  prof := reflowProfileGet 0
  run := .zero
  pid := pidReset
  tempMc := 0
  tempRawMc := 0
  tempValid := false
  duty := 0
  setpointMc := 0

/-- The locals of the thread as it enters its loop. -/
def enterLoop (b : Boot) (heater : Heater) (ready : Bool) : World F where
  ctx := .zero
  heater := heater
  lastTick := b.tickTime
  lastPublish := b.tickTime
  lastSample := b.tickTime
  lastRetry := b.retryTime
  sinceSample := 0
  ready := ready
  frames := []
  reads := []

def bootController (b : Boot) : World F :=
  let init := reflowHeaterInit b.heaterReady b.heaterConfigured b.initTime .zero
  let ready := init.1 && b.tempReady
  let w := enterLoop b init.2 ready
  if !ready then enterFault b.faultTime .sensor w else w

/-- Slots of `cmd_q`. -/
def cmdQueueLen : ℕ := 8

/-- `reflow_cmd_post`, without waiting for room. -/
def reflowCmdPost (cmd : ReflowCmd) (queue : List ReflowCmd) : Bool × List ReflowCmd :=
  BoundedQueue.put cmdQueueLen cmd queue

inductive LoopInput
  | iterate (it : Iteration)
  | command (time : ℤ) (cmd : ReflowCmd)

/-- Every run of the thread: iterations, and commands handled between them. -/
def controllerThread (cfg : CoreConfig) : Machine (World F) LoopInput where
  init w := ∃ b, w = bootController b
  admits _ _ := True
  step
    | w, .iterate it => iterate cfg it w
    | w, .command time cmd => handleCmd time cmd w

end ReflowOven
