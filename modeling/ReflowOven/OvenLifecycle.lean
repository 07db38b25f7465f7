import ReflowOven.ControllerInvariants
import ReflowOven.StutterRefinement

/-!
# The life of the oven

What the control core is for, without its thread: an oven that is idle, running, done or in
a fault with a cause, and a selected profile. The thread refines it: an iteration goes
through at most one change of its own accord, a command through at most the one it names,
and every change is published before the step is over.
-/

namespace ReflowOven.OvenLifecycle

inductive FaultCause | sensor | overtemp | timeout
  deriving DecidableEq, Repr

inductive Phase
  | idle
  | running
  | done
  | fault (cause : FaultCause)
  deriving DecidableEq, Repr

structure Oven where
  phase : Phase
  profile : Fin reflowProfileCount
  deriving DecidableEq

/-- What can happen to an oven: four commands, and two things it does by itself. -/
inductive OvenEvent
  | start
  | stop
  | select (profile : Fin reflowProfileCount)
  | clear
  | finish
  | trip (cause : FaultCause)
  deriving DecidableEq

def Oven.switchedOn : Oven := ⟨.idle, ⟨0, by decide⟩⟩

/-- Only the absolute limit raises a fault outside a run. -/
def lifecycle : Machine Oven OvenEvent where
  init o := o = .switchedOn ∨ o = { Oven.switchedOn with phase := .fault .sensor }
  admits
    | o, .start => o.phase = .idle ∨ o.phase = .done
    | o, .stop | o, .finish => o.phase = .running
    | o, .select _ => o.phase ≠ .running
    | o, .clear => ∃ cause, o.phase = .fault cause
    | o, .trip cause => (∀ cause', o.phase ≠ .fault cause') ∧
        (cause = .overtemp ∨ o.phase = .running)
  step
    | o, .start => { o with phase := .running }
    | o, .stop | o, .clear => { o with phase := .idle }
    | o, .select profile => { o with profile }
    | o, .finish => { o with phase := .done }
    | o, .trip cause => { o with phase := .fault cause }

def FaultCause.fault : FaultCause → ReflowFault
  | .sensor => .sensor
  | .overtemp => .overtemp
  | .timeout => .timeout

def Phase.state : Phase → ReflowState
  | .idle => .idle
  | .running => .running
  | .done => .done
  | .fault _ => .fault

def Phase.cause : Phase → ReflowFault
  | .idle | .running | .done => .none
  | .fault cause => cause.fault

variable {F : Type}

/-- The control context is that of the oven. -/
structure Status (ctx : Ctx F) (o : Oven) : Prop where
  state : ctx.state = o.phase.state
  fault : ctx.fault = o.phase.cause
  profile : ctx.profileIdx = o.profile

/-- The frame shows the oven. -/
structure Shows (f : ReflowTelemetry) (o : Oven) : Prop where
  state : f.state = o.phase.state.toU8
  fault : f.fault = o.phase.cause.toU8
  profile : f.profileIdx.toNat = o.profile

/-- The input that an event stems from. -/
def Stems : LoopInput → OvenEvent → Prop
  | .iterate _, .finish | .iterate _, .trip _ => True
  | .command _ cmd, .start => cmd.id = ReflowCmdId.start.toU8
  | .command _ cmd, .stop => cmd.id = ReflowCmdId.stop.toU8
  | .command _ cmd, .select profile =>
    cmd.id = ReflowCmdId.selectProfile.toU8 ∧ u8OfInt cmd.arg = profile
  | .command _ cmd, .clear => cmd.id = ReflowCmdId.clearFault.toU8
  | _, _ => False

theorem Status.shows {ctx : Ctx F} {o : Oven} (h : Status ctx o) (time : ℤ) :
    Shows (telemetryOf time ctx) o := by
  refine ⟨congrArg ReflowState.toU8 h.state, congrArg ReflowFault.toU8 h.fault, ?_⟩
  have hlt : ctx.profileIdx < 2 ^ 8 := h.profile ▸ o.profile.isLt.trans (by decide)
  exact (UInt8.toNat_ofNat_of_lt' hlt).trans h.profile

/-- From `w` to `w'` the oven goes through at most one event, and the frames in between show
the oven before it and then the oven after it. -/
structure Goes (o : Oven) (e : Option OvenEvent) (w w' : World F) : Prop where
  admitted : lifecycle.Admitted o e.toList
  status : Status w'.ctx (lifecycle.run o e.toList)
  told : ∃ new us, w'.frames = new ++ w.frames ∧ List.Forall₂ Shows new.reverse us ∧
    StutterEq (o :: us) [o, lifecycle.run o e.toList]

variable {o : Oven} {e : Option OvenEvent} {w w' w'' : World F}

/-- Nothing happens and nothing is said. -/
theorem Goes.silent (h : Status w'.ctx o) (hframes : w'.frames = w.frames) : Goes o none w w' :=
  ⟨trivial, h, [], [], hframes, .nil, (stutterEq_twice o []).symm⟩

/-- The oven is shown after what happened, if anything did. -/
theorem Goes.published (hadmitted : lifecycle.Admitted o e.toList)
    (h : Status w'.ctx (lifecycle.run o e.toList)) {time : ℤ}
    (hframes : w'.frames = telemetryOf time w'.ctx :: w.frames) : Goes o e w w' :=
  ⟨hadmitted, h, [_], [lifecycle.run o e.toList], hframes, .cons (h.shows time) .nil, .refl _⟩

theorem Goes.andThen (h : Goes o none w w') (h' : Goes o e w' w'') : Goes o e w w'' := by
  obtain ⟨new, us, hnew, hus, hshown⟩ := h.told
  obtain ⟨new', us', hnew', hus', hshown'⟩ := h'.told
  refine ⟨h'.admitted, h'.status, new' ++ new, us ++ us', by rw [hnew', hnew, List.append_assoc],
    ?_, ?_⟩
  · rw [List.reverse_append]
    exact List.rel_append hus hus'
  · have hone : StutterEq (o :: us) [o] := hshown.trans (stutterEq_twice o [])
    exact (hone.append (.refl us')).trans hshown'

theorem Goes.andRest (h : Goes o e w w') (h' : Goes (lifecycle.run o e.toList) none w' w'') :
    Goes o e w w'' := by
  obtain ⟨new, us, hnew, hus, hshown⟩ := h.told
  obtain ⟨new', us', hnew', hus', hshown'⟩ := h'.told
  refine ⟨h.admitted, h'.status, new' ++ new, us ++ us', by rw [hnew', hnew, List.append_assoc],
    ?_, ?_⟩
  · rw [List.reverse_append]
    exact List.rel_append hus hus'
  · have hone : StutterEq (lifecycle.run o e.toList :: us') [lifecycle.run o e.toList] :=
      hshown'.trans (stutterEq_twice _ [])
    exact (hshown.append (.refl us')).trans (hone.cons o)

/-- A fault is raised, with its frame. -/
theorem Goes.tripped (cause : FaultCause) (hadmitted : lifecycle.admits o (.trip cause))
    (hprofile : w'.ctx.profileIdx = o.profile) (hframes : w'.frames = w.frames) (time : ℤ) :
    Goes o (some (.trip cause)) w (enterFault time cause.fault w') :=
  .published ⟨hadmitted, trivial⟩ ⟨rfl, rfl, hprofile⟩ (congrArg (_ :: ·) hframes)

section Phases

variable (cfg : CoreConfig) (it : Iteration)

theorem retryFrontEnd_goes (h : Status w.ctx o) : Goes o none w (retryFrontEnd cfg it w) := by
  simp only [retryFrontEnd]
  split_ifs <;> exact .silent h rfl

/-- The oven is not in the state of any other phase. -/
theorem Status.phase_running (h : Status w.ctx o) (hs : w.ctx.state = .running) :
    o.phase = .running := by
  have hstate := h.state.symm.trans hs
  cases hp : o.phase with
  | running => rfl
  | idle | done | fault => simp [hp, Phase.state] at hstate

theorem Status.phase_ne_fault (h : Status w.ctx o) (hs : w.ctx.state ≠ .fault)
    (cause : FaultCause) : o.phase ≠ .fault cause := by
  intro hp
  exact hs (h.state.trans (by rw [hp]; rfl))

theorem sampleSensor_goes (h : Status w.ctx o) :
    ∃ e, Goes o e w (sampleSensor cfg it w).1 ∧ (e = none ∨ e = some (.trip .sensor)) := by
  simp only [sampleSensor]
  split
  · cases hread : it.read with
    | some pair => exact ⟨none, .silent ⟨h.state, h.fault, h.profile⟩ rfl, .inl rfl⟩
    | none =>
      dsimp only
      split_ifs with hrun hvalid
      · have hphase := h.phase_running hrun
        have hadmitted : lifecycle.admits o (.trip .sensor) := ⟨by simp [hphase], .inr hphase⟩
        refine ⟨_, .tripped .sensor hadmitted ?_ ?_ _, .inr rfl⟩
        · exact h.profile
        · rfl
      · exact ⟨none, .published trivial ⟨h.state, h.fault, h.profile⟩ rfl, .inl rfl⟩
      · exact ⟨none, .silent ⟨h.state, h.fault, h.profile⟩ rfl, .inl rfl⟩
  · exact ⟨none, .silent h rfl, .inl rfl⟩

theorem absoluteCutOut_goes (h : Status w.ctx o) : ∃ e, Goes o e w (absoluteCutOut cfg it w) ∧
    (e = none ∨ w.ctx.state ≠ .fault ∧ e = some (.trip .overtemp)) := by
  rcases absoluteCutOut_cases cfg it w with ⟨hstate, he⟩ | ⟨-, he⟩
  · rw [he]
    have hadmitted : lifecycle.admits o (.trip .overtemp) := ⟨h.phase_ne_fault hstate, .inl rfl⟩
    exact ⟨_, .tripped .overtemp hadmitted h.profile rfl _, .inr ⟨hstate, rfl⟩⟩
  · rw [he]
    exact ⟨none, .silent h rfl, .inl rfl⟩

theorem publishPeriodic_goes (h : Status w.ctx o) :
    Goes o none w (publishPeriodic cfg it w) := by
  rcases publishPeriodic_cases cfg it w with he | he
  · rw [he]
    exact .published trivial ⟨h.state, h.fault, h.profile⟩ rfl
  · rw [he]
    exact .silent h rfl

variable [CFloat F]

theorem runStep_goes (h : Status w.ctx o) (hrun : w.ctx.state = .running) (time : ℤ) (dtMs : ℕ)
    (newSample : Bool) (sampleDtMs : ℕ) :
    ∃ e, Goes o e w (runStep cfg time dtMs newSample sampleDtMs w) ∧
      ∀ event ∈ e, Stems (.iterate it) event := by
  have hphase := h.phase_running hrun
  have htrip : ∀ cause, lifecycle.admits o (.trip cause) := fun cause =>
    ⟨by simp [hphase], .inr hphase⟩
  unfold runStep
  split
  · exact ⟨none, .silent h rfl, nofun⟩
  · dsimp only
    split
    · refine ⟨some .finish, .published ⟨hphase, trivial⟩ ⟨rfl, ?_, h.profile⟩ rfl, ?_⟩
      · exact h.fault.trans (by rw [hphase]; rfl)
      · rintro _ ⟨⟩
        trivial
    · refine ⟨_, .tripped .overtemp (htrip _) ?_ ?_ time, ?_⟩
      · exact h.profile
      · rfl
      · rintro _ ⟨⟩
        trivial
    · refine ⟨_, .tripped .timeout (htrip _) ?_ ?_ time, ?_⟩
      · exact h.profile
      · rfl
      · rintro _ ⟨⟩
        trivial
    · split_ifs <;> exact ⟨none, .silent ⟨h.state, h.fault, h.profile⟩ rfl, nofun⟩

theorem driveElement_goes (h : Status w.ctx o) (dtMs : ℕ) (newSample : Bool) (sampleDt : ℕ) :
    ∃ e, Goes o e w (driveElement cfg it dtMs newSample sampleDt w) ∧
      (∀ event ∈ e, Stems (.iterate it) event) ∧ (w.ctx.state ≠ .running → e = none) := by
  simp only [driveElement]
  split
  · next hrun =>
    obtain ⟨e, hgoes, hstems⟩ := runStep_goes cfg it h hrun it.stepTime dtMs newSample
      (if sampleDt ≠ 0 then sampleDt else cfg.samplePeriodMs)
    exact ⟨e, hgoes, hstems, fun hne => absurd hrun hne⟩
  · exact ⟨none, .silent ⟨h.state, h.fault, h.profile⟩ rfl, by simp, fun _ => rfl⟩

/-- The cut-out and the run step; once in a fault nothing more happens. -/
theorem cutAndDrive_goes (h : Status w.ctx o) (dtMs : ℕ) (newSample : Bool) (sampleDt : ℕ) :
    ∃ e, Goes o e w (driveElement cfg it dtMs newSample sampleDt (absoluteCutOut cfg it w)) ∧
      (∀ event ∈ e, Stems (.iterate it) event) ∧ (w.ctx.state = .fault → e = none) := by
  obtain ⟨e, hcut, rfl | ⟨hne, rfl⟩⟩ := absoluteCutOut_goes cfg it h
  · obtain ⟨e', hdrive, hstems, hidle⟩ :=
      driveElement_goes cfg it hcut.status dtMs newSample sampleDt
    refine ⟨e', hcut.andThen hdrive, hstems, fun hf => hidle ?_⟩
    have hstate : (absoluteCutOut cfg it w).ctx.state = w.ctx.state :=
      hcut.status.state.trans h.state.symm
    rw [hstate, hf]
    exact nofun
  · obtain ⟨e', hdrive, -, hidle⟩ := driveElement_goes cfg it hcut.status dtMs newSample sampleDt
    have hfault : (absoluteCutOut cfg it w).ctx.state = .fault := hcut.status.state
    obtain rfl := hidle (by rw [hfault]; exact nofun)
    refine ⟨_, hcut.andRest hdrive, ?_, fun hf => absurd hf hne⟩
    rintro _ ⟨⟩
    trivial

/-- An iteration goes through at most one event. -/
theorem iterate_goes (h : Status w.ctx o) :
    ∃ e, Goes o e w (iterate cfg it w) ∧ ∀ event ∈ e, Stems (.iterate it) event := by
  have hadvanced : Goes o none w (advanceClock it w) := .silent h rfl
  have hretried := hadvanced.andThen (retryFrontEnd_goes cfg it hadvanced.status)
  have hrest : ∀ {o : Oven} {e : Option OvenEvent} {w w' : World F} (dtMs : ℕ),
      Goes o e w w' → Goes o e w (publishPeriodic cfg it (tickHeater cfg it dtMs w')) := by
    intro o e w w' dtMs hgoes
    have hticked : Goes (lifecycle.run o e.toList) none w' (tickHeater cfg it dtMs w') :=
      .silent hgoes.status rfl
    exact hgoes.andRest (hticked.andThen (publishPeriodic_goes cfg it hticked.status))
  obtain ⟨e, hsample, rfl | rfl⟩ := sampleSensor_goes cfg it hretried.status
  · obtain ⟨e', hgoes, hstems, -⟩ := cutAndDrive_goes cfg it hsample.status
      (u32OfInt (it.now - w.lastTick))
      (sampleSensor cfg it (retryFrontEnd cfg it (advanceClock it w))).2.1
      (sampleSensor cfg it (retryFrontEnd cfg it (advanceClock it w))).2.2
    exact ⟨e', hrest _ ((hretried.andThen hsample).andThen hgoes), hstems⟩
  · obtain ⟨e', hgoes, -, hfault⟩ := cutAndDrive_goes cfg it hsample.status
      (u32OfInt (it.now - w.lastTick))
      (sampleSensor cfg it (retryFrontEnd cfg it (advanceClock it w))).2.1
      (sampleSensor cfg it (retryFrontEnd cfg it (advanceClock it w))).2.2
    obtain rfl := hfault hsample.status.state
    refine ⟨_, hrest _ ((hretried.andThen hsample).andRest hgoes), ?_⟩
    rintro _ ⟨⟩
    trivial

omit cfg it in
/-- A command that is heeded is the event it names. -/
theorem handleCmd_goes (h : Status w.ctx o) (time : ℤ) (cmd : ReflowCmd) :
    ∃ e, Goes o e w (handleCmd time cmd w) ∧ ∀ event ∈ e, Stems (.command time cmd) event := by
  obtain he | ⟨hid, hf, hr, -, prof, -, he⟩ | ⟨hid, hr, he⟩ | ⟨hid, hr, prof, hget, he⟩ |
    ⟨hid, hf, he⟩ := handleCmd_cases time cmd w
  · rw [he]
    exact ⟨none, .silent h rfl, nofun⟩
  all_goals rw [he]
  · have hphase : o.phase = .idle ∨ o.phase = .done := by
      cases hp : o.phase with
      | idle => exact .inl rfl
      | done => exact .inr rfl
      | running => exact absurd (h.state.trans (by rw [hp]; rfl)) hr
      | fault cause => exact absurd hp (h.phase_ne_fault hf cause)
    refine ⟨some .start, .published ⟨hphase, trivial⟩ ⟨rfl, ?_, h.profile⟩ rfl, ?_⟩
    · refine h.fault.trans ?_
      rcases hphase with hp | hp <;> rw [hp] <;> rfl
    · rintro _ ⟨⟩
      exact (ReflowCmdId.toU8_of_ofU8? hid).symm
  · have hphase := h.phase_running hr
    refine ⟨some .stop, .published ⟨hphase, trivial⟩ ⟨rfl, ?_, h.profile⟩ rfl, ?_⟩
    · exact h.fault.trans (by rw [hphase]; rfl)
    · rintro _ ⟨⟩
      exact (ReflowCmdId.toU8_of_ofU8? hid).symm
  · have hlt : u8OfInt cmd.arg < reflowProfileCount :=
      (reflowProfileGet_isSome_iff _).mp (by rw [hget]; rfl)
    have hphase : o.phase ≠ .running := fun hp => hr (h.state.trans (by rw [hp]; rfl))
    refine ⟨some (.select ⟨_, hlt⟩), .published ⟨hphase, trivial⟩ ⟨h.state, h.fault, rfl⟩ rfl, ?_⟩
    rintro _ ⟨⟩
    exact ⟨(ReflowCmdId.toU8_of_ofU8? hid).symm, rfl⟩
  · have hphase : ∃ cause, o.phase = .fault cause := by
      have hstate := h.state.symm.trans hf
      cases hp : o.phase with
      | fault cause => exact ⟨cause, rfl⟩
      | idle | running | done => simp [hp, Phase.state] at hstate
    refine ⟨some .clear, .published ⟨hphase, trivial⟩ ⟨rfl, rfl, h.profile⟩ rfl, ?_⟩
    rintro _ ⟨⟩
    exact (ReflowCmdId.toU8_of_ofU8? hid).symm

end Phases

variable [CFloat F]

/-- Every step of the thread is answered. -/
theorem step_answered (cfg : CoreConfig) (w : World F) (input : LoopInput) {o : Oven}
    (h : Status w.ctx o) : ∃ e, Machine.Answered lifecycle (fun w o => Status w.ctx o) Stems
      (fun w : World F => w.frames.reverse) Shows w ((controllerThread cfg).step w input) input
      o e := by
  have hgoes : ∃ e, Goes o e w ((controllerThread cfg).step w input) ∧
      ∀ event ∈ e, Stems input event := by
    cases input with
    | iterate it => exact iterate_goes cfg it h
    | command time cmd => exact handleCmd_goes h time cmd
  obtain ⟨e, hgoes, hstems⟩ := hgoes
  obtain ⟨new, us, hnew, hus, hshown⟩ := hgoes.told
  refine ⟨e, hstems, hgoes.admitted, hgoes.status, new.reverse, us, ?_, hus, hshown⟩
  rw [hnew, List.reverse_append]

/-- The message the telemetry channel is defined with. -/
def channelInit : ReflowTelemetry := ⟨0, 0, 0, 0, 0, ReflowState.idle.toU8, 0, 0, 0, 0, 0, 0⟩

/-- The thread enters its loop idle, or with a fault of the sensor that it has published. -/
theorem boot_cases (b : Boot) : ∃ o, lifecycle.init o ∧ Status (bootController b : World F).ctx o ∧
    ∃ us, List.Forall₂ Shows (bootController b : World F).frames.reverse us ∧
      StutterEq (Oven.switchedOn :: us) [.switchedOn, o] := by
  simp only [bootController]
  split
  · have hstatus : Status (enterFault b.faultTime .sensor (enterLoop b (reflowHeaterInit
        b.heaterReady b.heaterConfigured b.initTime .zero).2
        ((reflowHeaterInit b.heaterReady b.heaterConfigured b.initTime .zero).1 && b.tempReady)) :
        World F).ctx { Oven.switchedOn with phase := .fault .sensor } := ⟨rfl, rfl, rfl⟩
    exact ⟨_, .inr rfl, hstatus, [_], .cons (hstatus.shows _) .nil, .refl _⟩
  · exact ⟨_, .inl rfl, ⟨rfl, rfl, rfl⟩, [], .nil, (stutterEq_twice _ []).symm⟩

theorem exists_refined (cfg : CoreConfig) {w : World F} {o : Oven} (h : Status w.ctx o)
    (inputs : List LoopInput) : ∃ events, Machine.Refined (controllerThread cfg) lifecycle
      (fun w o => Status w.ctx o) Stems (fun w : World F => w.frames.reverse) Shows w inputs o
      events :=
  Machine.exists_refined (fun w input _ h _ => step_answered cfg w input h) h
    (Machine.admitted_of_forall (fun _ _ => trivial) _ _)

/-- The control thread refines the life of the oven: whatever happens to it, its states are
those of a run of the oven, each event of which stems from an input of its own. -/
theorem controller_refines_lifecycle (cfg : CoreConfig) (b : Boot) (inputs : List LoopInput) :
    ∃ o events, lifecycle.init o ∧ lifecycle.Admitted o events ∧
      (∃ ovens, List.Forall₂ (fun w o => Status w.ctx o)
        ((controllerThread cfg).visited (bootController b : World F) inputs) ovens ∧
        StutterEq ovens (lifecycle.visited o events)) ∧
      ∃ heeded, heeded.Sublist inputs ∧ List.Forall₂ Stems heeded events := by
  obtain ⟨o, hinit, hstatus, -⟩ := boot_cases (F := F) b
  obtain ⟨events, h⟩ := exists_refined cfg hstatus inputs
  exact ⟨o, events, hinit, h.admitted, h.visited, h.stem⟩

/-- Telemetry tells the life of the oven: with repetitions left out, the messages of the
channel are the states, faults and profiles that the oven went through, in order. Every publish
is taken to get the channel in time. -/
theorem telemetry_tells_lifecycle (cfg : CoreConfig) (b : Boot) (inputs : List LoopInput) :
    ∃ told ovens, List.Forall₂ Shows (channelInit ::
        ((controllerThread cfg).run (bootController b : World F) inputs).frames.reverse) told ∧
      List.Forall₂ (fun w o => Status w.ctx o)
        ((controllerThread cfg).visited (bootController b : World F) inputs) ovens ∧
      StutterEq told (.switchedOn :: ovens) := by
  obtain ⟨o, -, hstatus, us, hus, hboot⟩ := boot_cases (F := F) b
  obtain ⟨events, h⟩ := exists_refined cfg hstatus inputs
  obtain ⟨ovens, hovens, hvisited⟩ := h.visited
  obtain ⟨new, us', hnew, hus', hshown⟩ := h.recorded
  refine ⟨.switchedOn :: (us ++ us'), ovens, .cons ⟨rfl, rfl, rfl⟩ ?_, hovens, ?_⟩
  · rw [hnew]
    exact List.rel_append hus hus'
  · have hjoin := (hboot.append (.refl us')).trans (hshown.cons .switchedOn)
    exact hjoin.trans (hvisited.symm.cons .switchedOn)

end ReflowOven.OvenLifecycle
