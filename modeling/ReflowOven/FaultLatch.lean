import ReflowOven.ControllerInvariants

/-!
# The fault latch

Faults are raised in four places of the thread, and only a clear command takes one back.
No phase of an iteration leaves a fault, replaces its cause, or starts a run; that is one
reflexive and transitive relation, so it passes from the phases to the iteration. What a
fault means for the element is then a part of coherence.
-/

namespace ReflowOven.FaultLatch

variable {F : Type}

/-- `w'` neither starts a run nor leaves or replaces a fault of `w`. -/
structure Quiet (w w' : World F) : Prop where
  no_start : w.ctx.state ≠ .running → w'.ctx.state ≠ .running
  latched : w.ctx.state = .fault → w'.ctx.state = .fault ∧ w'.ctx.fault = w.ctx.fault

theorem Quiet.trans {w₁ w₂ w₃ : World F} (h : Quiet w₁ w₂) (h' : Quiet w₂ w₃) : Quiet w₁ w₃ where
  no_start hne := h'.no_start (h.no_start hne)
  latched hf := by
    obtain ⟨hs, hc⟩ := h.latched hf
    obtain ⟨hs', hc'⟩ := h'.latched hs
    exact ⟨hs', hc'.trans hc⟩

theorem Quiet.of_eq {w w' : World F} (hs : w'.ctx.state = w.ctx.state)
    (hc : w'.ctx.fault = w.ctx.fault) : Quiet w w' :=
  ⟨fun hne => hs ▸ hne, fun hf => ⟨hs.trans hf, hc⟩⟩

/-- A fault is raised over a state that has none. -/
theorem Quiet.enterFault {w : World F} (hne : w.ctx.state ≠ .fault) (time : ℤ)
    (fault : ReflowFault) (w' : World F) : Quiet w (enterFault time fault w') :=
  ⟨nofun, fun hf => absurd hf hne⟩

theorem retryFrontEnd_quiet (cfg : CoreConfig) (it : Iteration) (w : World F) :
    Quiet w (retryFrontEnd cfg it w) := by
  simp only [retryFrontEnd]
  split_ifs <;> exact .of_eq rfl rfl

theorem sampleSensor_quiet (cfg : CoreConfig) (it : Iteration) (w : World F) :
    Quiet w (sampleSensor cfg it w).1 := by
  simp only [sampleSensor]
  split
  · cases hread : it.read with
    | some pair => exact .of_eq rfl rfl
    | none =>
      dsimp only
      split_ifs with hr hv
      · exact .enterFault (by simp [hr]) _ _ _
      · exact .of_eq rfl rfl
      · exact .of_eq rfl rfl
  · exact .of_eq rfl rfl

theorem absoluteCutOut_quiet (cfg : CoreConfig) (it : Iteration) (w : World F) :
    Quiet w (absoluteCutOut cfg it w) := by
  rcases absoluteCutOut_cases cfg it w with ⟨hstate, he⟩ | ⟨-, he⟩
  · rw [he]
    exact .enterFault hstate _ _ _
  · rw [he]
    exact .of_eq rfl rfl

theorem publishPeriodic_quiet (cfg : CoreConfig) (it : Iteration) (w : World F) :
    Quiet w (publishPeriodic cfg it w) := by
  rcases publishPeriodic_cases cfg it w with he | he
  · rw [he]
    exact .of_eq rfl rfl
  · rw [he]
    exact .of_eq rfl rfl

/-- The oven holds `fault` with the element off. -/
structure Latched (fault : ReflowFault) (w : World F) : Prop where
  state : w.ctx.state = .fault
  cause : w.ctx.fault = fault
  duty : w.ctx.duty = 0
  request : w.heater.reqPermille = 0
  output : w.heater.outputOn = false
  pin : w.heater.pin = false

theorem latched_of_coherent {w : World F} (h : Coherent w) {fault : ReflowFault}
    (hf : w.ctx.state = .fault ∧ w.ctx.fault = fault) : Latched fault w := by
  obtain ⟨hduty, hreq, hoff⟩ := h.idle_off (by simp [hf.1])
  exact ⟨hf.1, hf.2, hduty, hreq, hoff, h.pin_recorded.trans hoff⟩

variable [CFloat F]

theorem driveElement_quiet (cfg : CoreConfig) (it : Iteration) (dtMs : ℕ) (newSample : Bool)
    (sampleDt : ℕ) (w : World F) : Quiet w (driveElement cfg it dtMs newSample sampleDt w) := by
  simp only [driveElement]
  split
  · next hrun =>
    exact ⟨fun hne => absurd hrun hne, fun hf => absurd (hrun.symm.trans hf) (by simp)⟩
  · exact .of_eq rfl rfl

theorem iterate_quiet (cfg : CoreConfig) (it : Iteration) (w : World F) :
    Quiet w (iterate cfg it w) := by
  have hadvanced : Quiet w (advanceClock it w) := .of_eq rfl rfl
  have hsampled := (hadvanced.trans (retryFrontEnd_quiet cfg it _)).trans
    (sampleSensor_quiet cfg it _)
  have hcut := hsampled.trans (absoluteCutOut_quiet cfg it _)
  have hticked : ∀ {w' : World F} (dtMs : ℕ), Quiet w' (tickHeater cfg it dtMs w') :=
    fun _ => .of_eq rfl rfl
  exact ((hcut.trans (driveElement_quiet cfg it _ _ _ _)).trans (hticked _)).trans
    (publishPeriodic_quiet cfg it _)

/-- Every command but a start and a clear is quiet. -/
theorem handleCmd_quiet {cmd : ReflowCmd} (w : World F) (time : ℤ)
    (hstart : ReflowCmdId.ofU8? cmd.id = some .start → w.ctx.state = .fault)
    (hclear : ReflowCmdId.ofU8? cmd.id ≠ some .clearFault) : Quiet w (handleCmd time cmd w) := by
  obtain he | ⟨hid, hf, -⟩ | ⟨-, hr, he⟩ | ⟨-, -, _, -, he⟩ | ⟨hid, -⟩ := handleCmd_cases time cmd w
  · rw [he]
    exact .of_eq rfl rfl
  · exact absurd (hstart hid) hf
  · rw [he]
    exact ⟨nofun, fun hf => absurd (hr.symm.trans hf) nofun⟩
  · rw [he]
    exact .of_eq rfl rfl
  · exact absurd hid hclear

def IsStart : LoopInput → Prop
  | .iterate _ => False
  | .command _ cmd => cmd.id = ReflowCmdId.start.toU8

def IsClear : LoopInput → Prop
  | .iterate _ => False
  | .command _ cmd => cmd.id = ReflowCmdId.clearFault.toU8

/-- A step that is not a clear keeps a latched fault. -/
theorem step_latched (cfg : CoreConfig) {w : World F} {input : LoopInput}
    (hclear : ¬IsClear input) (hf : w.ctx.state = .fault) :
    ((controllerThread cfg).step w input).ctx.state = .fault ∧
      ((controllerThread cfg).step w input).ctx.fault = w.ctx.fault := by
  cases input with
  | iterate it => exact (iterate_quiet cfg it w).latched hf
  | command time cmd =>
    exact (handleCmd_quiet w time (fun _ => hf)
      fun hid => hclear (ReflowCmdId.toU8_of_ofU8? hid).symm).latched hf

/-- A step into a run is a start that found a valid reading and no fault. -/
theorem step_into_running {cfg : CoreConfig} {w : World F} {input : LoopInput}
    (hne : w.ctx.state ≠ .running)
    (hrun : ((controllerThread cfg).step w input).ctx.state = .running) :
    IsStart input ∧ w.ctx.state ≠ .fault ∧ w.ctx.tempValid = true := by
  cases input with
  | iterate it => exact absurd hrun ((iterate_quiet cfg it w).no_start hne)
  | command time cmd =>
    change (handleCmd time cmd w).ctx.state = .running at hrun
    obtain he | ⟨hid, hf, -, hv, -⟩ | ⟨-, hr, -⟩ | ⟨-, -, _, -, he⟩ | ⟨-, -, he⟩ :=
      handleCmd_cases time cmd w
    · exact absurd (he ▸ hrun) hne
    · exact ⟨(ReflowCmdId.toU8_of_ofU8? hid).symm, hf, hv⟩
    · exact absurd hr hne
    · rw [he] at hrun
      exact absurd hrun hne
    · rw [he] at hrun
      exact absurd hrun nofun

/-- A run without a clear command keeps a latched fault throughout. -/
theorem run_latched {cfg : CoreConfig} {w : World F} {fault : ReflowFault}
    (hf : w.ctx.state = .fault ∧ w.ctx.fault = fault) {inputs : List LoopInput}
    (hclear : ∀ input ∈ inputs, ¬IsClear input) :
    ((controllerThread cfg).run w inputs).ctx.state = .fault ∧
      ((controllerThread cfg).run w inputs).ctx.fault = fault := by
  induction inputs generalizing w with
  | nil => exact hf
  | cons input inputs ih =>
    obtain ⟨hhead, htail⟩ := List.forall_mem_cons.mp hclear
    obtain ⟨hs, hc⟩ := step_latched cfg hhead hf.1
    exact ih ⟨hs, hc.trans hf.2⟩ htail

/-- The latch, in every reachable state and for every continuation. -/
theorem fault_latch (cfg : CoreConfig) {w : World F} (h : (controllerThread cfg).Reachable w) :
    (w.ctx.fault ≠ .none ↔ w.ctx.state = .fault) ∧
    (w.ctx.state = .fault → ∀ inputs : List LoopInput, (∀ input ∈ inputs, ¬IsClear input) →
      Latched w.ctx.fault ((controllerThread cfg).run w inputs)) ∧
    (∀ input, w.ctx.state ≠ .running →
      ((controllerThread cfg).step w input).ctx.state = .running →
      IsStart input ∧ w.ctx.state ≠ .fault ∧ w.ctx.tempValid = true) ∧
    ∀ f ∈ w.frames, f.dutyPermille ≠ 0 → f.state = ReflowState.running.toU8 := by
  have hcoh := coherent_of_reachable h
  refine ⟨hcoh.fault_latched, ?_, fun _ => step_into_running, hcoh.frames_running⟩
  intro hf inputs hclear
  have hafter : (controllerThread cfg).Reachable ((controllerThread cfg).run w inputs) :=
    h.run (Machine.admitted_of_forall (fun _ _ => trivial) _ _)
  exact latched_of_coherent (coherent_of_reachable hafter) (run_latched ⟨hf, rfl⟩ hclear)

/-- An oven that boots without its front-end refuses to start. -/
theorem fault_latch_boot : Latched .sensor ((controllerThread {}).run
    (bootController ⟨true, true, false, 0, 0, 0, 0⟩ : World ℚ)
    [.command 10 ⟨ReflowCmdId.start.toU8, 0⟩]) := by
  have hboot : (controllerThread {}).Reachable
      (bootController ⟨true, true, false, 0, 0, 0, 0⟩ : World ℚ) := .start ⟨_, rfl⟩
  refine (fault_latch {} hboot).2.1 rfl _ fun input hi => ?_
  obtain rfl := List.mem_singleton.mp hi
  exact (by decide : ¬ReflowCmdId.start.toU8 = ReflowCmdId.clearFault.toU8)

end ReflowOven.FaultLatch
