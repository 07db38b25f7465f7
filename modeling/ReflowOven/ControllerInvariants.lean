import ReflowOven.ControllerThread

/-!
# Invariants of the control thread

`Coherent` holds between any two phases of an iteration and between commands. It is kept
by the three ways the thread publishes a change (`publish`, `enterFault`, `stopRun`) and
from there by every phase and every command, with no assumption on the environment.
-/

namespace ReflowOven

variable {F : Type}

/-- What ties the state, the fault, the reading, the request and the record together. -/
structure Coherent (w : World F) : Prop where
  pin_recorded : w.heater.pin = w.heater.outputOn
  fault_latched : w.ctx.fault ≠ .none ↔ w.ctx.state = .fault
  profile_selected : ∃ prof, w.ctx.prof = some prof ∧
    reflowProfileGet w.ctx.profileIdx = some prof
  idle_off : w.ctx.state ≠ .running →
    w.ctx.duty = 0 ∧ w.heater.reqPermille = 0 ∧ w.heater.outputOn = false
  reading_last : w.ctx.tempValid = true → w.ready = true ∧
    w.reads.head? = some ⟨w.lastSample, some (w.ctx.tempMc, w.ctx.tempRawMc)⟩
  running_valid : w.ctx.state = .running → w.ctx.tempValid = true
  frames_running : ∀ f ∈ w.frames, f.dutyPermille ≠ 0 → f.state = ReflowState.running.toU8

theorem telemetryOf_duty {ctx : Ctx F} (h : ctx.state ≠ .running → ctx.duty = 0) (time : ℤ)
    (hd : (telemetryOf time ctx).dutyPermille ≠ 0) :
    (telemetryOf time ctx).state = ReflowState.running.toU8 := by
  have hrun : ctx.state = .running := by
    by_contra hne
    exact hd (by simp [telemetryOf, h hne])
  simp [telemetryOf, hrun]

theorem Coherent.publish {w : World F} (h : Coherent w) (time : ℤ) :
    Coherent (publish time w) where
  pin_recorded := h.pin_recorded
  fault_latched := h.fault_latched
  profile_selected := h.profile_selected
  idle_off := h.idle_off
  reading_last := h.reading_last
  running_valid := h.running_valid
  frames_running := List.forall_mem_cons.mpr
    ⟨telemetryOf_duty (fun hne => (h.idle_off hne).1) time, h.frames_running⟩

theorem Coherent.enterFault {w : World F} (h : Coherent w) (time : ℤ) {fault : ReflowFault}
    (hf : fault ≠ .none) : Coherent (enterFault time fault w) := by
  refine Coherent.publish (w := { w with
    heater := reflowHeaterOff true time w.heater
    ctx := { w.ctx with duty := 0, state := .fault, fault := fault } }) ?_ time
  exact
    { pin_recorded := by simp [reflowHeaterOff_pin h.pin_recorded]
      fault_latched := iff_of_true hf rfl
      profile_selected := h.profile_selected
      idle_off := by simp
      reading_last := h.reading_last
      running_valid := nofun
      frames_running := h.frames_running }

/-- A run is stopped into a state that is neither running nor a fault. -/
theorem Coherent.stopRun {w : World F} (h : Coherent w) (time : ℤ) {next : ReflowState}
    (hrun : w.ctx.state = .running) (hnr : next ≠ .running) (hnf : next ≠ .fault) :
    Coherent (stopRun time next w) := by
  refine Coherent.publish (w := { w with
    heater := reflowHeaterOff true time w.heater
    ctx := { w.ctx with duty := 0, state := next } }) ?_ time
  exact
    { pin_recorded := by simp [reflowHeaterOff_pin h.pin_recorded]
      fault_latched := by
        have hnone : ¬w.ctx.fault ≠ .none := by simp [h.fault_latched, hrun]
        exact iff_of_false hnone hnf
      profile_selected := h.profile_selected
      idle_off := by simp
      reading_last := h.reading_last
      running_valid := fun hr => absurd hr hnr
      frames_running := h.frames_running }

/-- A change of the runner, of the PID, of the setpoint, of the clocks and of the
request of a running thread keeps coherence. -/
theorem Coherent.running {w : World F} (h : Coherent w) (hrun : w.ctx.state = .running)
    (run : ReflowRun) (pid : PidState F) (setpointMc : ℤ) (duty : ℕ) {heater : Heater}
    (hp : heater.pin = heater.outputOn) :
    Coherent { w with
      ctx := { w.ctx with run := run, pid := pid, setpointMc := setpointMc, duty := duty }
      heater := heater } where
  pin_recorded := hp
  fault_latched := h.fault_latched
  profile_selected := h.profile_selected
  idle_off hne := absurd hrun hne
  reading_last := h.reading_last
  running_valid := h.running_valid
  frames_running := h.frames_running

theorem Coherent.advanceClock {w : World F} (h : Coherent w) (it : Iteration) :
    Coherent (advanceClock it w) := { h with }

theorem Coherent.retryFrontEnd {w : World F} (h : Coherent w) (cfg : CoreConfig)
    (it : Iteration) : Coherent (retryFrontEnd cfg it w) := by
  simp only [ReflowOven.retryFrontEnd]
  split
  · next hretry =>
    simp only [Bool.and_eq_true, Bool.not_eq_true', decide_eq_true_eq] at hretry
    have hoff := h.idle_off hretry.1.2
    rcases reflowHeaterInit_cases it.heaterReady it.heaterConfigured it.reinitTime w.heater
      with hi | hi
    · simp only [hi, Bool.false_and, Bool.false_eq_true, if_false]
      exact { h with }
    · simp only [hi, Bool.true_and]
      have hreset : Coherent { w with
          lastRetry := it.now, heater := ⟨0, 0, it.reinitTime, false, false⟩ } :=
        { h with
          pin_recorded := rfl
          idle_off := fun _ => ⟨hoff.1, rfl, rfl⟩ }
      split
      · exact { hreset with
          reading_last := fun hv => ⟨rfl, (h.reading_last hv).2⟩ }
      · exact hreset
  · exact h

theorem Coherent.sampleSensor {w : World F} (h : Coherent w) (cfg : CoreConfig)
    (it : Iteration) : Coherent (sampleSensor cfg it w).1 := by
  simp only [ReflowOven.sampleSensor]
  split
  · next hdue =>
    simp only [Bool.and_eq_true] at hdue
    cases hread : it.read with
    | some pair =>
      exact { h with
        reading_last := fun _ => ⟨hdue.1, rfl⟩
        running_valid := fun _ => rfl }
    | none =>
      -- the reading is lost before the state says so, so coherence is rebuilt from the parts
      dsimp only
      split_ifs with hr hv
      · refine Coherent.publish ?_ it.sampleTime
        exact
          { pin_recorded := by simp [reflowHeaterOff_pin h.pin_recorded]
            fault_latched := by simp
            profile_selected := h.profile_selected
            idle_off := by simp
            reading_last := nofun
            running_valid := nofun
            frames_running := h.frames_running }
      · refine Coherent.publish ?_ it.sampleTime
        exact { h with
          reading_last := nofun
          running_valid := fun hrun => absurd hrun hr }
      · exact { h with
          reading_last := nofun
          running_valid := fun hrun => absurd hrun hr }
  · exact h

/-- The cut-out trips on a valid reading outside a fault, and otherwise does nothing. -/
theorem absoluteCutOut_cases (cfg : CoreConfig) (it : Iteration) (w : World F) :
    (w.ctx.state ≠ .fault ∧ absoluteCutOut cfg it w = enterFault it.cutTime .overtemp w) ∨
      ((w.ctx.tempValid = true → w.ctx.state ≠ .fault →
          reflowOvertempTripped w.ctx.tempMc w.ctx.tempRawMc cfg.absMaxMc = false) ∧
        absoluteCutOut cfg it w = w) := by
  simp only [absoluteCutOut]
  split
  · next htrip =>
    simp only [Bool.and_eq_true, decide_eq_true_eq] at htrip
    exact .inl ⟨htrip.1.2, rfl⟩
  · next hcool => exact .inr ⟨fun hvalid hstate => by simpa [hvalid, hstate] using hcool, rfl⟩

theorem Coherent.absoluteCutOut {w : World F} (h : Coherent w) (cfg : CoreConfig)
    (it : Iteration) : Coherent (absoluteCutOut cfg it w) := by
  rcases absoluteCutOut_cases cfg it w with ⟨-, he⟩ | ⟨-, he⟩
  · rw [he]
    exact h.enterFault it.cutTime nofun
  · rwa [he]

theorem Coherent.tickHeater {w : World F} (h : Coherent w) (cfg : CoreConfig)
    (it : Iteration) (dtMs : ℕ) : Coherent (tickHeater cfg it dtMs w) :=
  { h with
    pin_recorded := reflowHeaterTick_pin h.pin_recorded
    idle_off := by
      intro hne
      obtain ⟨hduty, hreq, -⟩ := h.idle_off hne
      refine ⟨hduty, ?_, ?_⟩
      · rcases reflowHeaterTick_reqPermille cfg true it.tickTime dtMs w.heater with he | he
        · exact he.trans hreq
        · exact he
      · by_contra hon
        exact (reflowHeaterTick_on (Bool.eq_true_of_not_eq_false hon)).2 hreq }

theorem publishPeriodic_cases (cfg : CoreConfig) (it : Iteration) (w : World F) :
    publishPeriodic cfg it w = publish it.publishTime { w with lastPublish := it.now } ∨
      publishPeriodic cfg it w = w := by
  simp only [publishPeriodic]
  split
  · exact .inl rfl
  · exact .inr rfl

theorem Coherent.publishPeriodic {w : World F} (h : Coherent w) (cfg : CoreConfig)
    (it : Iteration) : Coherent (publishPeriodic cfg it w) := by
  rcases publishPeriodic_cases cfg it w with he | he
  · rw [he]
    apply Coherent.publish
    exact { h with }
  · rwa [he]

variable [CFloat F]

/-- Everything a command can do, with the guard it passed. -/
theorem handleCmd_cases (time : ℤ) (cmd : ReflowCmd) (w : World F) :
    handleCmd time cmd w = w ∨
    (ReflowCmdId.ofU8? cmd.id = some .start ∧ w.ctx.state ≠ .fault ∧ w.ctx.state ≠ .running ∧
      w.ctx.tempValid = true ∧ ∃ prof, w.ctx.prof = some prof ∧
      handleCmd time cmd w = publish time { w with ctx := { w.ctx with
        run := reflowRunStart prof w.ctx.tempMc, pid := pidReset,
        setpointMc := (reflowRunStart prof w.ctx.tempMc).setpointMc, state := .running } }) ∨
    (ReflowCmdId.ofU8? cmd.id = some .stop ∧ w.ctx.state = .running ∧
      handleCmd time cmd w = stopRun time .idle w) ∨
    (ReflowCmdId.ofU8? cmd.id = some .selectProfile ∧ w.ctx.state ≠ .running ∧
      ∃ prof, reflowProfileGet (u8OfInt cmd.arg) = some prof ∧
      handleCmd time cmd w = publish time { w with ctx := { w.ctx with
        profileIdx := u8OfInt cmd.arg, prof := some prof } }) ∨
    (ReflowCmdId.ofU8? cmd.id = some .clearFault ∧ w.ctx.state = .fault ∧
      handleCmd time cmd w = publish time { w with ctx := { w.ctx with
        fault := .none, state := .idle } }) := by
  simp only [handleCmd]
  split
  · next hid =>
    split_ifs with hf hv hr
    · exact .inl rfl
    · exact .inl rfl
    · exact .inl rfl
    · split
      · exact .inl rfl
      · next prof hp => exact .inr (.inl ⟨hid, hf, hr, by simpa using hv, prof, hp, rfl⟩)
  · next hid =>
    split_ifs with hr
    · exact .inr (.inr (.inl ⟨hid, hr, rfl⟩))
    · exact .inl rfl
  · next hid =>
    split_ifs with hr
    · exact .inl rfl
    · split
      · exact .inl rfl
      · next prof hget => exact .inr (.inr (.inr (.inl ⟨hid, hr, prof, hget, rfl⟩)))
  · next hid =>
    split_ifs with hf
    · exact .inr (.inr (.inr (.inr ⟨hid, hf, rfl⟩)))
    · exact .inl rfl
  · exact .inl rfl

theorem Coherent.handleCmd {w : World F} (h : Coherent w) (time : ℤ) (cmd : ReflowCmd) :
    Coherent (handleCmd time cmd w) := by
  obtain he | ⟨-, hf, -, hv, prof, hp, he⟩ | ⟨-, hr, he⟩ | ⟨-, -, prof, hget, he⟩ | ⟨-, hf, he⟩ :=
    handleCmd_cases time cmd w
  · rw [he]
    exact h
  · rw [he]
    refine Coherent.publish ?_ time
    exact
      { pin_recorded := h.pin_recorded
        fault_latched := by
          have hnone : ¬w.ctx.fault ≠ .none := by simpa [h.fault_latched] using hf
          exact iff_of_false hnone nofun
        profile_selected := h.profile_selected
        idle_off := fun hne => absurd rfl hne
        reading_last := h.reading_last
        running_valid := fun _ => hv
        frames_running := h.frames_running }
  · exact he ▸ h.stopRun time hr nofun nofun
  · rw [he]
    refine Coherent.publish ?_ time
    exact { h with profile_selected := ⟨prof, rfl, hget⟩ }
  · rw [he]
    have hoff := h.idle_off (by simp [hf])
    refine Coherent.publish ?_ time
    exact
      { h with
        fault_latched := by simp
        idle_off := fun _ => hoff
        running_valid := nofun }

theorem Coherent.runStep {w : World F} (h : Coherent w) (hrun : w.ctx.state = .running)
    (cfg : CoreConfig) (time : ℤ) (dtMs : ℕ) (newSample : Bool) (sampleDtMs : ℕ) :
    Coherent (runStep cfg time dtMs newSample sampleDtMs w) := by
  obtain ⟨prof, hp, -⟩ := h.profile_selected
  have ht : Coherent (tickRun prof dtMs w) := h.running hrun _ _ _ _ h.pin_recorded
  have hreq : ∀ {w : World F} (duty : ℕ), Coherent w → w.ctx.state = .running →
      Coherent (requestDuty cfg time duty w) :=
    fun duty h hrun => h.running hrun _ _ _ duty h.pin_recorded
  simp only [ReflowOven.runStep, hp]
  cases (tickRun prof dtMs w).ctx.run.result with
  | done => exact ht.stopRun time hrun nofun nofun
  | errOvertemp => exact ht.enterFault time nofun
  | errTimeout => exact ht.enterFault time nofun
  | active =>
    dsimp only
    split_ifs
    · exact hreq 0 ht hrun
    · exact hreq _ (ht.running hrun _ _ _ _ ht.pin_recorded) hrun
    · exact hreq _ ht hrun

theorem Coherent.driveElement {w : World F} (h : Coherent w) (cfg : CoreConfig)
    (it : Iteration) (dtMs : ℕ) (newSample : Bool) (sampleDt : ℕ) :
    Coherent (driveElement cfg it dtMs newSample sampleDt w) := by
  simp only [ReflowOven.driveElement]
  split
  · next hrun => exact h.runStep hrun _ _ _ _ _
  · exact { h with
      pin_recorded := by simp [reflowHeaterOff_pin h.pin_recorded]
      idle_off := by simp }

theorem Coherent.iterate {w : World F} (h : Coherent w) (cfg : CoreConfig) (it : Iteration) :
    Coherent (iterate cfg it w) := by
  have hsampled := ((h.advanceClock it).retryFrontEnd cfg it).sampleSensor cfg it
  exact (((hsampled.absoluteCutOut cfg it).driveElement cfg it _ _ _).tickHeater
    cfg it _).publishPeriodic cfg it

theorem coherent_boot (b : Boot) : Coherent (bootController b : World F) := by
  have henter : ∀ (heater : Heater) (ready : Bool), heater.pin = heater.outputOn →
      heater.reqPermille = 0 → heater.outputOn = false →
      Coherent (enterLoop b heater ready : World F) := by
    intro heater ready hpin hreq hon
    exact
      { pin_recorded := hpin
        fault_latched := by simp [enterLoop, Ctx.zero]
        profile_selected := ⟨builtin.get ⟨0, by decide⟩, rfl, rfl⟩
        idle_off := fun _ => ⟨rfl, hreq, hon⟩
        reading_last := nofun
        running_valid := nofun
        frames_running := nofun }
  have hheater : ∀ ready : Bool, Coherent (enterLoop b
      (reflowHeaterInit b.heaterReady b.heaterConfigured b.initTime .zero).2 ready : World F) := by
    intro ready
    rcases reflowHeaterInit_cases b.heaterReady b.heaterConfigured b.initTime .zero with hi | hi
      <;> rw [hi] <;> exact henter _ ready rfl rfl rfl
  simp only [bootController]
  split
  · exact (hheater _).enterFault _ nofun
  · exact hheater _

theorem coherent_of_reachable {cfg : CoreConfig} {w : World F}
    (h : (controllerThread cfg).Reachable w) : Coherent w := by
  apply h.invariant
  · rintro w ⟨b, rfl⟩
    exact coherent_boot b
  · intro w input _ hw _
    cases input with
    | iterate it => exact hw.iterate cfg it
    | command time cmd => exact hw.handleCmd time cmd

end ReflowOven
