import ReflowOven.ControllerInvariants

/-!
# Element safety

The output is on only during a live run that is entitled to heat, on a fresh reading
below both cut-outs. An iteration establishes this from coherence alone: the cut-out and
the stage machine are consulted between the last sample and the duty request, and the
window only ever forwards a request. Commands keep it because the only one that acts on
a running thread stops it.
-/

namespace ReflowOven.ElementSafety

variable {F : Type}

/-- What the context owes the element while a request is stored. -/
structure Heating (cfg : CoreConfig) (ctx : Ctx F) : Prop where
  running : ctx.state = .running
  active : ctx.run.result = .active
  stage : ∃ prof, ctx.prof = some prof ∧ ctx.run.stage < prof.nStages ∧
    (prof.stage ctx.run.stage).kind ≠ .cool ∧ ctx.tempMc < prof.abortMc ∧
    ctx.tempRawMc < prof.abortMc
  below_limit : ctx.tempMc < cfg.absMaxMc ∧ ctx.tempRawMc < cfg.absMaxMc

/-- A stored request or a lit output is entitled. -/
def Entitled (cfg : CoreConfig) (w : World F) : Prop :=
  w.heater.reqPermille ≠ 0 ∨ w.heater.outputOn = true → Heating cfg w.ctx

theorem Entitled.of_off {cfg : CoreConfig} {w : World F} (hreq : w.heater.reqPermille = 0)
    (hoff : w.heater.outputOn = false) : Entitled cfg w := by
  rintro (h | h)
  · exact absurd hreq h
  · exact absurd h (by simp [hoff])

/-- The sampling clock between iterations. -/
def Fresh (cfg : CoreConfig) (w : World F) : Prop :=
  w.ready = true → w.sinceSample < cfg.samplePeriodMs ∧
    (w.sinceSample : ℤ) = w.lastTick - w.lastSample

theorem Fresh.advanceClock {cfg : CoreConfig} {w : World F} (h : Fresh cfg w) {it : Iteration}
    (hpos : 0 ≤ it.now - w.lastTick) (hlt : it.now - w.lastTick < 2 ^ 31) :
    (advanceClock it w).ready = true → ((advanceClock it w).sinceSample : ℤ) =
      (advanceClock it w).lastTick - (advanceClock it w).lastSample := by
  intro hready
  obtain ⟨hsince, heq⟩ := h hready
  have hrange := cfg.samplePeriod_range
  have helapsed : (u32OfInt (it.now - w.lastTick) : ℤ) = it.now - w.lastTick :=
    u32OfInt_eq hpos (by omega)
  have hsum : u32 (w.sinceSample + u32OfInt (it.now - w.lastTick)) =
      w.sinceSample + u32OfInt (it.now - w.lastTick) := u32_eq (by omega)
  show ((u32 (w.sinceSample + u32OfInt (it.now - w.lastTick)) : ℕ) : ℤ) = it.now - w.lastSample
  rw [hsum]
  omega

/-- A retry either leaves the sampling clock alone or asks for a sample at once. -/
theorem retryFrontEnd_clock (cfg : CoreConfig) (it : Iteration) (w : World F) :
    (retryFrontEnd cfg it w).lastTick = w.lastTick ∧
      (retryFrontEnd cfg it w).lastSample = w.lastSample ∧
      ((retryFrontEnd cfg it w).ready = w.ready ∧
          (retryFrontEnd cfg it w).sinceSample = w.sinceSample ∨
        (retryFrontEnd cfg it w).sinceSample = cfg.samplePeriodMs) := by
  simp only [retryFrontEnd]
  split_ifs <;> simp

/-- After the sampling phase a ready thread holds a sample younger than a period. -/
theorem sampleSensor_fresh {cfg : CoreConfig} {it : Iteration} {w : World F}
    (htick : w.lastTick = it.now)
    (hclock : w.ready = true → (w.sinceSample : ℤ) = w.lastTick - w.lastSample ∨
      w.sinceSample ≥ cfg.samplePeriodMs) : Fresh cfg (sampleSensor cfg it w).1 := by
  have hrange := cfg.samplePeriod_range
  simp only [sampleSensor]
  split
  · cases hread : it.read with
    | some pair =>
      intro _
      exact ⟨by dsimp only; omega, by simp [htick]⟩
    | none =>
      dsimp only
      split_ifs
      all_goals
        intro _
        exact ⟨by simp [enterFault, publish]; omega, by simp [enterFault, publish, htick]⟩
  · next hdue =>
    intro hready
    have hlt : w.sinceSample < cfg.samplePeriodMs := by
      by_contra hge
      exact hdue (by simp [show w.ready = true from hready, not_lt.mp hge])
    rcases hclock hready with heq | hge
    · exact ⟨hlt, heq⟩
    · exact absurd hlt (not_lt.mpr hge)

/-- The cut-out leaves a running thread below the hard limit. -/
theorem absoluteCutOut_below {cfg : CoreConfig} {it : Iteration} {w : World F} (h : Coherent w)
    (hrun : (absoluteCutOut cfg it w).ctx.state = .running) :
    (absoluteCutOut cfg it w).ctx.tempMc < cfg.absMaxMc ∧
      (absoluteCutOut cfg it w).ctx.tempRawMc < cfg.absMaxMc := by
  rcases absoluteCutOut_cases cfg it w with ⟨-, he⟩ | ⟨hcool, he⟩
  · rw [he] at hrun
    cases hrun
  · rw [he] at hrun ⊢
    have hbelow := hcool (h.running_valid hrun) (by simp [hrun])
    rw [reflowOvertempTripped_eq_false] at hbelow
    exact hbelow.symm

/-- The phases after sampling do not touch the sampling clock. -/
theorem absoluteCutOut_fresh {cfg : CoreConfig} {w : World F} (h : Fresh cfg w) (it : Iteration) :
    Fresh cfg (absoluteCutOut cfg it w) := by
  rcases absoluteCutOut_cases cfg it w with ⟨-, he⟩ | ⟨-, he⟩
  · rw [he]
    exact h
  · rwa [he]

theorem publishPeriodic_fresh {cfg : CoreConfig} {w : World F} (h : Fresh cfg w) (it : Iteration) :
    Fresh cfg (publishPeriodic cfg it w) := by
  rcases publishPeriodic_cases cfg it w with he | he
  · rw [he]
    exact h
  · rwa [he]

/-- The window forwards a request and never makes one. -/
theorem tickHeater_entitled {cfg : CoreConfig} {w : World F}
    (h : w.heater.reqPermille ≠ 0 → Heating cfg w.ctx) (it : Iteration) (dtMs : ℕ) :
    Entitled cfg (tickHeater cfg it dtMs w) := by
  rintro (hreq | hon)
  · refine h fun hzero => hreq ?_
    rcases reflowHeaterTick_reqPermille cfg true it.tickTime dtMs w.heater with he | he
    · exact he.trans hzero
    · exact he
  · exact h (reflowHeaterTick_on hon).2

theorem publishPeriodic_entitled {cfg : CoreConfig} {w : World F} (h : Entitled cfg w)
    (it : Iteration) : Entitled cfg (publishPeriodic cfg it w) := by
  rcases publishPeriodic_cases cfg it w with he | he
  · rw [he]
    exact h
  · rwa [he]

/-- What must hold of a state in which the element is powered. -/
structure Safe (cfg : CoreConfig) (w : World F) : Prop where
  running : w.ctx.state = .running
  no_fault : w.ctx.fault = .none
  active : w.ctx.run.result = .active
  profile : ∃ prof, w.ctx.prof = some prof ∧ reflowProfileGet w.ctx.profileIdx = some prof ∧
    w.ctx.run.stage < prof.nStages ∧ (prof.stage w.ctx.run.stage).kind ≠ .cool ∧
    ∃ time filtered raw, w.reads.head? = some ⟨time, some (filtered, raw)⟩ ∧
      0 ≤ w.lastTick - time ∧ w.lastTick - time < cfg.samplePeriodMs ∧
      filtered < cfg.absMaxMc ∧ raw < cfg.absMaxMc ∧
      filtered < prof.abortMc ∧ raw < prof.abortMc

theorem safe_of_heating {cfg : CoreConfig} {w : World F} (h : Coherent w) (hfresh : Fresh cfg w)
    (hheat : Heating cfg w.ctx) : Safe cfg w := by
  obtain ⟨prof, hp, hstage, hkind, habort, habortRaw⟩ := hheat.stage
  obtain ⟨prof', hp', hget⟩ := h.profile_selected
  obtain rfl : prof' = prof := Option.some.inj (hp'.symm.trans hp)
  obtain ⟨hready, hlast⟩ := h.reading_last (h.running_valid hheat.running)
  obtain ⟨hsince, heq⟩ := hfresh hready
  have hnofault : w.ctx.fault = .none := by
    by_contra hne
    have hfault := h.fault_latched.mp hne
    rw [hheat.running] at hfault
    exact absurd hfault nofun
  exact
    { running := hheat.running
      no_fault := hnofault
      active := hheat.active
      profile := ⟨prof', hp, hget, hstage, hkind, w.lastSample, w.ctx.tempMc, w.ctx.tempRawMc,
        hlast, by omega, by omega, hheat.below_limit.1, hheat.below_limit.2, habort, habortRaw⟩ }

variable [CFloat F]

theorem runStep_fresh {cfg : CoreConfig} {w : World F} (h : Fresh cfg w) (time : ℤ) (dtMs : ℕ)
    (newSample : Bool) (sampleDtMs : ℕ) :
    Fresh cfg (runStep cfg time dtMs newSample sampleDtMs w) := by
  unfold runStep
  split
  · exact h
  · dsimp only
    split
    · exact h
    · exact h
    · exact h
    · split_ifs <;> exact h

theorem driveElement_fresh {cfg : CoreConfig} {w : World F} (h : Fresh cfg w) (it : Iteration)
    (dtMs : ℕ) (newSample : Bool) (sampleDt : ℕ) :
    Fresh cfg (driveElement cfg it dtMs newSample sampleDt w) := by
  simp only [driveElement]
  split
  · exact runStep_fresh h _ _ _ _
  · exact h

/-- A request that a run step leaves stored is entitled: the stage machine was consulted
after the last reading, and it saw neither value at the abort level. -/
theorem runStep_heating {cfg : CoreConfig} {w : World F} (h : Coherent w)
    (hrun : w.ctx.state = .running)
    (hlimit : w.ctx.tempMc < cfg.absMaxMc ∧ w.ctx.tempRawMc < cfg.absMaxMc)
    (time : ℤ) (dtMs : ℕ) (newSample : Bool) (sampleDtMs : ℕ)
    (hreq : (runStep cfg time dtMs newSample sampleDtMs w).heater.reqPermille ≠ 0) :
    Heating cfg (runStep cfg time dtMs newSample sampleDtMs w).ctx := by
  obtain ⟨prof, hp, -⟩ := h.profile_selected
  simp only [runStep, hp] at hreq ⊢
  cases hres : (tickRun prof dtMs w).ctx.run.result with
  | done => simp [hres] at hreq
  | errOvertemp => simp [hres] at hreq
  | errTimeout => simp [hres] at hreq
  | active =>
    simp only [hres] at hreq ⊢
    cases hallow : reflowRunHeaterAllowed (tickRun prof dtMs w).ctx.run prof with
    | false => simp [hallow, requestDuty] at hreq
    | true =>
      obtain ⟨hactive, hstage, hkind⟩ := (reflowRunHeaterAllowed_iff _ _).mp hallow
      have habort := reflowRunTick_active hres
      have hheat : ∀ ctx' : Ctx F, ctx'.state = w.ctx.state → ctx'.prof = w.ctx.prof →
          ctx'.run = (tickRun prof dtMs w).ctx.run → ctx'.tempMc = w.ctx.tempMc →
          ctx'.tempRawMc = w.ctx.tempRawMc → Heating cfg ctx' := by
        intro ctx' hstate hprof hrun' htemp hraw
        exact
          { running := hstate.trans hrun
            active := by rw [hrun']; exact hactive
            stage := ⟨prof, hprof.trans hp, by rw [hrun']; exact hstage, by rw [hrun']; exact hkind,
              by rw [htemp]; exact habort.1, by rw [hraw]; exact habort.2⟩
            below_limit := by rw [htemp, hraw]; exact hlimit }
      simp only [Bool.not_true, Bool.false_eq_true, if_false]
      cases newSample <;> exact hheat _ rfl rfl rfl rfl rfl

theorem driveElement_heating {cfg : CoreConfig} {w : World F} (h : Coherent w)
    (hlimit : w.ctx.state = .running →
      w.ctx.tempMc < cfg.absMaxMc ∧ w.ctx.tempRawMc < cfg.absMaxMc)
    (it : Iteration) (dtMs : ℕ) (newSample : Bool) (sampleDt : ℕ)
    (hreq : (driveElement cfg it dtMs newSample sampleDt w).heater.reqPermille ≠ 0) :
    Heating cfg (driveElement cfg it dtMs newSample sampleDt w).ctx := by
  simp only [driveElement] at hreq ⊢
  split at hreq
  · next hrun =>
    rw [if_pos hrun]
    exact runStep_heating h hrun (hlimit hrun) _ _ _ _ hreq
  · simp at hreq

/-- One iteration leaves only an entitled request, wherever it started. -/
theorem iterate_entitled {w : World F} (h : Coherent w) (cfg : CoreConfig) (it : Iteration) :
    Entitled cfg (iterate cfg it w) := by
  have hsampled := ((h.advanceClock it).retryFrontEnd cfg it).sampleSensor cfg it
  have hcut := hsampled.absoluteCutOut cfg it
  refine publishPeriodic_entitled (tickHeater_entitled (fun hreq => ?_) it _) it
  exact driveElement_heating hcut (absoluteCutOut_below hsampled) it _ _ _ hreq

theorem iterate_fresh {cfg : CoreConfig} {w : World F} (h : Fresh cfg w) {it : Iteration}
    (hpos : 0 ≤ it.now - w.lastTick) (hlt : it.now - w.lastTick < 2 ^ 31) :
    Fresh cfg (iterate cfg it w) := by
  have hadvanced := h.advanceClock hpos hlt
  obtain ⟨htick, hsample, hsince⟩ := retryFrontEnd_clock cfg it (advanceClock it w)
  have hsampled : Fresh cfg
      (sampleSensor cfg it (retryFrontEnd cfg it (advanceClock it w))).1 := by
    apply sampleSensor_fresh htick
    intro hready
    rcases hsince with ⟨hr, hs⟩ | hs
    · left
      rw [htick, hsample, hs]
      exact hadvanced (hr.symm.trans hready)
    · exact .inr hs.ge
  have hdriven := driveElement_fresh (absoluteCutOut_fresh hsampled it) it
  exact publishPeriodic_fresh (w := tickHeater cfg it _ (driveElement cfg it _ _ _ _))
    (hdriven _ _ _) it

/-- Commands between iterations: the one that acts on a running thread stops it, the
others find the element off and leave it so. -/
theorem handleCmd_entitled {cfg : CoreConfig} {w : World F} (h : Coherent w)
    (hent : Entitled cfg w) (time : ℤ) (cmd : ReflowCmd) :
    Entitled cfg (handleCmd time cmd w) := by
  have hidle : ∀ w' : World F, w.ctx.state ≠ .running → w'.heater = w.heater →
      Entitled cfg w' := by
    intro w' hne hheater
    obtain ⟨-, hreq, hoff⟩ := h.idle_off hne
    exact .of_off (hheater ▸ hreq) (hheater ▸ hoff)
  obtain he | ⟨-, -, hr, -, prof, -, he⟩ | ⟨-, -, he⟩ | ⟨-, hr, prof, -, he⟩ | ⟨-, hf, he⟩ :=
    handleCmd_cases time cmd w
  · rw [he]
    exact hent
  · exact he ▸ hidle _ hr rfl
  · exact he ▸ .of_off (by simp) (by simp)
  · exact he ▸ hidle _ hr rfl
  · exact he ▸ hidle _ (by simp [hf]) rfl

theorem handleCmd_fresh {cfg : CoreConfig} {w : World F} (h : Fresh cfg w) (time : ℤ)
    (cmd : ReflowCmd) : Fresh cfg (handleCmd time cmd w) := by
  obtain he | ⟨-, -, -, -, _, -, he⟩ | ⟨-, -, he⟩ | ⟨-, -, _, -, he⟩ | ⟨-, -, he⟩ :=
    handleCmd_cases time cmd w
  all_goals
    rw [he]
    exact h

/-- No iteration begins before the last one did, or `2 ^ 31` ms or more after it; the first one may
begin at the instant of the boot. Commands are not restricted. -/
def Timely (w : World F) : LoopInput → Prop
  | .iterate it => 0 ≤ it.now - w.lastTick ∧ it.now - w.lastTick < 2 ^ 31
  | .command _ _ => True

/-- At the end of every iteration and after every command, a powered element is safe. -/
theorem element_on_only_while_safe (cfg : CoreConfig) {w : World F}
    (h : ((controllerThread cfg).restrict Timely).Reachable w)
    (hon : w.heater.pin = true ∨ w.heater.outputOn = true) : Safe cfg w := by
  have hinv : Coherent w ∧ Entitled cfg w ∧ Fresh cfg w := by
    refine h.invariant (I := fun w => Coherent w ∧ Entitled cfg w ∧ Fresh cfg w) ?_ ?_
    · rintro w ⟨b, rfl⟩
      have hboot : Coherent (bootController b : World F) := coherent_boot b
      refine ⟨hboot, ?_, ?_⟩
      · have hidle : (bootController b : World F).ctx.state ≠ .running := by
          simp only [bootController]
          split <;> simp [enterLoop, Ctx.zero]
        obtain ⟨-, hreq, hoff⟩ := hboot.idle_off hidle
        exact .of_off hreq hoff
      · have hrange := cfg.samplePeriod_range
        intro _
        simp only [bootController]
        split <;> simp [enterFault, publish, enterLoop] <;> omega
    · rintro w input - ⟨hcoh, hent, hfresh⟩ ⟨-, htimely⟩
      cases input with
      | iterate it =>
        exact ⟨hcoh.iterate cfg it, iterate_entitled hcoh cfg it,
          iterate_fresh hfresh htimely.1 htimely.2⟩
      | command time cmd =>
        exact ⟨hcoh.handleCmd time cmd, handleCmd_entitled hcoh hent time cmd,
          handleCmd_fresh hfresh time cmd⟩
  obtain ⟨hcoh, hent, hfresh⟩ := hinv
  have hlit : w.heater.outputOn = true := hon.elim (hcoh.pin_recorded.symm.trans ·) id
  exact safe_of_heating hcoh hfresh (hent (.inr hlit))

/-- A first pass at the instant of the boot, a sample, a start, and the iteration that powers the
element. -/
def startUp : List LoopInput :=
  [.iterate (roomIteration 0), .iterate (roomIteration 300), .command 310 ⟨ReflowCmdId.start.toU8, 0⟩,
    .iterate (roomIteration 30000)]

theorem element_on_only_while_safe_startUp : Safe {} ((controllerThread {}).run
    (bootController ⟨true, true, true, 0, 0, 0, 0⟩ : World ℚ) startUp) := by
  have hadmitted : ((controllerThread {}).restrict Timely).Admitted
      (bootController ⟨true, true, true, 0, 0, 0, 0⟩ : World ℚ) startUp :=
    ⟨⟨trivial, by decide +kernel, by decide +kernel⟩,
      ⟨trivial, by decide +kernel, by decide +kernel⟩, ⟨trivial, trivial⟩,
      ⟨trivial, by decide +kernel, by decide +kernel⟩, trivial⟩
  have hboot : ((controllerThread {}).restrict Timely).Reachable
      (bootController ⟨true, true, true, 0, 0, 0, 0⟩ : World ℚ) := .start ⟨_, rfl⟩
  exact element_on_only_while_safe {} (hboot.run hadmitted) (.inl (by decide +kernel))

end ReflowOven.ElementSafety
