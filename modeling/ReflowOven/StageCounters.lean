import ReflowOven.ControllerInvariants

/-!
# Published stage counters

A frame carries the stage of the last run beside the number of stages of the selected
profile. The two part in two ways: a run that completes its last stage leaves its stage
index one past the end, and a profile selected after a run may have fewer stages than the
run had reached. A run of the controller announces only stages that exist exactly when
neither happens.
-/

namespace ReflowOven.StageCounters

variable {F : Type}

/-- `n_stages ? stage_idx + 1U : 0U`, the way every consumer shows the stage. -/
def shownStage (f : ReflowTelemetry) : ℕ := if f.nStages ≠ 0 then f.stageIdx.toNat + 1 else 0

structure FrameCoherent (f : ReflowTelemetry) : Prop where
  stages_pos : 0 < f.nStages
  stage_lt : f.stageIdx < f.nStages
  stage_of : ∃ prof, reflowProfileGet f.profileIdx.toNat = some prof ∧
    f.stageIdx.toNat < prof.nStages
  shown_le : shownStage f ≤ f.nStages.toNat

/-- The stage of the last run is a stage of the selected profile. -/
def Counts (ctx : Ctx F) : Prop := ∃ prof, ctx.prof = some prof ∧ ctx.run.stage < prof.nStages

/-- The frame names the selection and the stage of this context. -/
structure Counters (ctx : Ctx F) (f : ReflowTelemetry) : Prop where
  profile : f.profileIdx = .ofNat ctx.profileIdx
  stage : f.stageIdx = .ofNat ctx.run.stage
  stages : ∀ prof, ctx.prof = some prof → f.nStages = .ofNat prof.nStages

theorem Counters.of_telemetry (time : ℤ) {ctx ctx' : Ctx F} (hrun : ctx'.run = ctx.run)
    (hprof : ctx'.prof = ctx.prof) (hidx : ctx'.profileIdx = ctx.profileIdx) :
    Counters ctx (telemetryOf time ctx') where
  profile := by simp [telemetryOf, hidx]
  stage := by simp [telemetryOf, hrun]
  stages prof hsel := by simp [telemetryOf, hprof, hsel]

theorem builtin_stages : ∀ prof ∈ builtin, 0 < prof.nStages ∧ prof.nStages < 2 ^ 8 := by decide

theorem reflowProfileGet_mem {idx : ℕ} {prof : ReflowProfile}
    (h : reflowProfileGet idx = some prof) : idx < reflowProfileCount ∧ prof ∈ builtin := by
  simp only [reflowProfileGet] at h
  split at h
  · cases h
  · next hidx => exact ⟨Nat.lt_of_not_le hidx, List.mem_of_getElem? h⟩

/-- A frame is coherent when and only when the context it was built from counts. -/
theorem Counters.coherent_iff {ctx : Ctx F} {f : ReflowTelemetry} (hf : Counters ctx f)
    (hsel : ∃ prof, ctx.prof = some prof ∧ reflowProfileGet ctx.profileIdx = some prof)
    (hbyte : ctx.run.stage < 2 ^ 8) : FrameCoherent f ↔ Counts ctx := by
  obtain ⟨prof, hprof, hget⟩ := hsel
  obtain ⟨hidx, hmem⟩ := reflowProfileGet_mem hget
  obtain ⟨hpos, hcount⟩ := builtin_stages prof hmem
  rw [reflowProfileCount_eq] at hidx
  have hstages := hf.stages prof hprof
  have hn : f.nStages.toNat = prof.nStages := by
    rw [hstages, UInt8.toNat_ofNat']
    exact Nat.mod_eq_of_lt hcount
  have hs : f.stageIdx.toNat = ctx.run.stage := by
    rw [hf.stage, UInt8.toNat_ofNat']
    exact Nat.mod_eq_of_lt hbyte
  have hp : f.profileIdx.toNat = ctx.profileIdx := by
    rw [hf.profile, UInt8.toNat_ofNat']
    exact Nat.mod_eq_of_lt (by omega)
  constructor
  · intro h
    refine ⟨prof, hprof, ?_⟩
    have hlt := UInt8.lt_iff_toNat_lt.mp h.stage_lt
    rwa [hs, hn] at hlt
  · rintro ⟨prof', hprof', hlt⟩
    obtain rfl : prof' = prof := Option.some.inj (hprof'.symm.trans hprof)
    exact
      { stages_pos := UInt8.lt_iff_toNat_lt.mpr (by rw [hn]; exact hpos)
        stage_lt := UInt8.lt_iff_toNat_lt.mpr (by rw [hn, hs]; exact hlt)
        stage_of := ⟨prof', hp ▸ hget, hs ▸ hlt⟩
        shown_le := by
          have hne : f.nStages ≠ 0 := by
            intro hzero
            rw [hzero] at hn
            exact absurd hn.symm hpos.ne'
          rw [shownStage, if_pos hne, hs, hn]
          exact hlt }

section Runner

variable {run : ReflowRun} {prof : ReflowProfile} {dtMs : ℕ} {tempMc rawMc : ℤ}

/-- A tick of an active run leaves the stages only by completing the last one. -/
theorem reflowRunTick_inside_iff (hcount : prof.nStages < 2 ^ 8) (act : run.result = .active)
    (inside : run.stage < prof.nStages) :
    (reflowRunTick run prof dtMs tempMc rawMc).stage < prof.nStages ↔
      ¬(reflowOvertempTripped tempMc rawMc prof.abortMc = false ∧
        run.stage + 1 = prof.nStages ∧
        stageComplete (prof.stage run.stage) prof (run.clocked dtMs) tempMc = true) := by
  have hnext : u8 (run.stage + 1) = run.stage + 1 := u8_eq (by omega)
  rw [reflowOvertempTripped_eq_false]
  have hticked := reflowRunTick_ticked run prof dtMs tempMc rawMc
  generalize reflowRunTick run prof dtMs tempMc rawMc = run' at hticked
  cases hticked with
  | latched ended => exact absurd act ended
  | past _ past => omega
  | abort _ _ hot => exact iff_of_true inside fun h => by omega
  | advance _ _ _ _ more => exact iff_of_true more fun h => by omega
  | finish _ _ cold complete last =>
    have hlast : run.stage + 1 = prof.nStages := by omega
    refine iff_of_false (fun h => ?_) fun h => h ⟨cold, hlast, complete⟩
    exact absurd h (Nat.not_lt.mpr last)
  | timeout _ _ _ open' _ => exact iff_of_true inside fun h => by simp [open'] at h
  | hold _ _ _ open' _ => exact iff_of_true inside fun h => by simp [open'] at h

theorem reflowRunTick_stage_byte (hbyte : run.stage < 2 ^ 8) :
    (reflowRunTick run prof dtMs tempMc rawMc).stage < 2 ^ 8 := by
  have hticked := reflowRunTick_ticked run prof dtMs tempMc rawMc
  generalize reflowRunTick run prof dtMs tempMc rawMc = run' at hticked
  cases hticked with
  | advance | finish => exact Nat.mod_lt _ (by decide)
  | latched | past | abort | timeout | hold => exact hbyte

theorem reflowRunTick_active_inside
    (h : (reflowRunTick run prof dtMs tempMc rawMc).result = .active) :
    (reflowRunTick run prof dtMs tempMc rawMc).stage < prof.nStages := by
  have hticked := reflowRunTick_ticked run prof dtMs tempMc rawMc
  generalize reflowRunTick run prof dtMs tempMc rawMc = run' at h hticked
  cases hticked with
  | latched ended => exact absurd h ended
  | advance _ _ _ _ more => exact more
  | hold _ inside _ _ _ => exact inside
  | past | abort | finish | timeout => cases h

end Runner

/-- From `w` to `w'` the run and the selection stand, and every frame in between names them. -/
structure Restates (w w' : World F) : Prop where
  run_kept : w'.ctx.run = w.ctx.run
  prof_kept : w'.ctx.prof = w.ctx.prof
  idx_kept : w'.ctx.profileIdx = w.ctx.profileIdx
  heard : ∃ new, w'.frames = new ++ w.frames ∧ ∀ f ∈ new, Counters w.ctx f

theorem Restates.quiet {w w' : World F} (hrun : w'.ctx.run = w.ctx.run)
    (hprof : w'.ctx.prof = w.ctx.prof) (hidx : w'.ctx.profileIdx = w.ctx.profileIdx)
    (hframes : w'.frames = w.frames) : Restates w w' :=
  ⟨hrun, hprof, hidx, [], hframes, by simp⟩

/-- One frame of a context with the same run and selection. -/
theorem Restates.one {w w' : World F} (time : ℤ) {ctx : Ctx F} (hrun : w'.ctx.run = w.ctx.run)
    (hprof : w'.ctx.prof = w.ctx.prof) (hidx : w'.ctx.profileIdx = w.ctx.profileIdx)
    (hctx : ctx = w'.ctx) (hframes : w'.frames = telemetryOf time ctx :: w.frames) :
    Restates w w' := by
  refine ⟨hrun, hprof, hidx, [telemetryOf time ctx], hframes, ?_⟩
  intro f hf
  rw [List.mem_singleton.mp hf, hctx]
  exact .of_telemetry time hrun hprof hidx

theorem Counters.congr {ctx ctx' : Ctx F} {f : ReflowTelemetry} (h : Counters ctx f)
    (hrun : ctx'.run = ctx.run) (hprof : ctx'.prof = ctx.prof)
    (hidx : ctx'.profileIdx = ctx.profileIdx) : Counters ctx' f where
  profile := by rw [hidx, h.profile]
  stage := by rw [hrun, h.stage]
  stages prof hsel := h.stages prof (hprof ▸ hsel)

theorem Counts.congr {ctx ctx' : Ctx F} (hrun : ctx'.run = ctx.run) (hprof : ctx'.prof = ctx.prof) :
    Counts ctx' ↔ Counts ctx := by
  simp only [Counts, hrun, hprof]

theorem Restates.trans {w₁ w₂ w₃ : World F} (h : Restates w₁ w₂) (h' : Restates w₂ w₃) :
    Restates w₁ w₃ := by
  obtain ⟨new, hnew, hall⟩ := h.heard
  obtain ⟨new', hnew', hall'⟩ := h'.heard
  refine ⟨h'.run_kept.trans h.run_kept, h'.prof_kept.trans h.prof_kept,
    h'.idx_kept.trans h.idx_kept, new' ++ new, by simp [hnew', hnew], ?_⟩
  intro f hf
  rcases List.mem_append.mp hf with hf | hf
  · exact (hall' f hf).congr h.run_kept.symm h.prof_kept.symm h.idx_kept.symm
  · exact hall f hf

theorem retryFrontEnd_restates (cfg : CoreConfig) (it : Iteration) (w : World F) :
    Restates w (retryFrontEnd cfg it w) := by
  simp only [retryFrontEnd]
  split_ifs <;> exact .quiet rfl rfl rfl rfl

theorem sampleSensor_restates (cfg : CoreConfig) (it : Iteration) (w : World F) :
    Restates w (sampleSensor cfg it w).1 := by
  simp only [sampleSensor]
  split
  · cases hread : it.read with
    | some pair => exact .quiet rfl rfl rfl rfl
    | none =>
      dsimp only
      split_ifs
      · exact .one it.sampleTime rfl rfl rfl rfl rfl
      · exact .one it.sampleTime rfl rfl rfl rfl rfl
      · exact .quiet rfl rfl rfl rfl
  · exact .quiet rfl rfl rfl rfl

theorem absoluteCutOut_restates (cfg : CoreConfig) (it : Iteration) (w : World F) :
    Restates w (absoluteCutOut cfg it w) := by
  rcases absoluteCutOut_cases cfg it w with ⟨-, he⟩ | ⟨-, he⟩
  · rw [he]
    exact .one it.cutTime rfl rfl rfl rfl rfl
  · rw [he]
    exact .quiet rfl rfl rfl rfl

theorem publishPeriodic_restates (cfg : CoreConfig) (it : Iteration) (w : World F) :
    Restates w (publishPeriodic cfg it w) := by
  rcases publishPeriodic_cases cfg it w with he | he
  · rw [he]
    exact .one it.publishTime rfl rfl rfl rfl rfl
  · rw [he]
    exact .quiet rfl rfl rfl rfl

/-- Everything an iteration does before the stage machine. -/
theorem sampled_restates (cfg : CoreConfig) (it : Iteration) (w : World F) :
    Restates w (absoluteCutOut cfg it
      (sampleSensor cfg it (retryFrontEnd cfg it (advanceClock it w))).1) := by
  have hadvanced : Restates w (advanceClock it w) := .quiet rfl rfl rfl rfl
  exact ((hadvanced.trans (retryFrontEnd_restates cfg it _)).trans
    (sampleSensor_restates cfg it _)).trans (absoluteCutOut_restates cfg it _)

theorem publishPeriodic_ctx (cfg : CoreConfig) (it : Iteration) (w : World F) :
    (publishPeriodic cfg it w).ctx = w.ctx := by
  rcases publishPeriodic_cases cfg it w with he | he
  · rw [he]
    rfl
  · rw [he]

/-- Everything an iteration does after it. -/
theorem ticked_restates (cfg : CoreConfig) (it : Iteration) (dtMs : ℕ) (w : World F) :
    Restates w (publishPeriodic cfg it (tickHeater cfg it dtMs w)) := by
  have hticked : Restates w (tickHeater cfg it dtMs w) := .quiet rfl rfl rfl rfl
  exact hticked.trans (publishPeriodic_restates cfg it _)

/-- The reading the stage machine of a running thread is given in an iteration: a new one
if a sample is due, the last one if not, none if the read fails. -/
def readingInForce (cfg : CoreConfig) (it : Iteration) (w : World F) : Option (ℤ × ℤ) :=
  if w.ready && decide (u32 (w.sinceSample + u32OfInt (it.now - w.lastTick)) ≥ cfg.samplePeriodMs)
  then it.read
  else some (w.ctx.tempMc, w.ctx.tempRawMc)

/-- What the stage machine finds after the sampling and the cut-out of a running thread. -/
inductive Consulted (cfg : CoreConfig) (it : Iteration) (w w' : World F) : Prop where
  | ended (trips : ∀ r ∈ readingInForce cfg it w,
        reflowOvertempTripped r.1 r.2 cfg.absMaxMc = true)
      (stopped : w'.ctx.state ≠ .running) : Consulted cfg it w w'
  | live (r : ℤ × ℤ) (inForce : r ∈ readingInForce cfg it w)
      (cool : reflowOvertempTripped r.1 r.2 cfg.absMaxMc = false)
      (running : w'.ctx.state = .running) (filtered : w'.ctx.tempMc = r.1)
      (raw : w'.ctx.tempRawMc = r.2) : Consulted cfg it w w'

theorem absoluteCutOut_consulted {cfg : CoreConfig} {it : Iteration} {w v : World F} {r : ℤ × ℤ}
    (hr : r ∈ readingInForce cfg it w) (hrun : v.ctx.state = .running)
    (hvalid : v.ctx.tempValid = true) (hmc : v.ctx.tempMc = r.1) (hraw : v.ctx.tempRawMc = r.2) :
    Consulted cfg it w (absoluteCutOut cfg it v) := by
  cases htrip : reflowOvertempTripped r.1 r.2 cfg.absMaxMc with
  | true =>
    refine .ended (fun r' hr' => ?_) ?_
    · rwa [Option.mem_unique hr' hr]
    · simp [absoluteCutOut, hrun, hvalid, hmc, hraw, htrip]
  | false =>
    have hkept : absoluteCutOut cfg it v = v := by
      simp [absoluteCutOut, hrun, hvalid, hmc, hraw, htrip]
    rw [hkept]
    exact .live r hr htrip hrun hmc hraw

/-- A reading that fails or trips the cut-out ends a run before its stage machine moves. -/
theorem sampled_consulted (cfg : CoreConfig) (it : Iteration) {w : World F}
    (hrun : w.ctx.state = .running) (hvalid : w.ctx.tempValid = true) :
    Consulted cfg it w (absoluteCutOut cfg it
      (sampleSensor cfg it (retryFrontEnd cfg it (advanceClock it w))).1) := by
  have hretry : retryFrontEnd cfg it (advanceClock it w) = advanceClock it w := by
    simp [retryFrontEnd, advanceClock, hrun]
  rw [hretry]
  simp only [sampleSensor]
  split
  · next hdue =>
    have hforce : readingInForce cfg it w = it.read := if_pos hdue
    cases hread : it.read with
    | some pair => exact absoluteCutOut_consulted (by rw [hforce, hread]; rfl) hrun rfl rfl rfl
    | none =>
      refine .ended (fun r hr => ?_) ?_
      · rw [hforce, hread] at hr
        cases hr
      · simp [absoluteCutOut, advanceClock, hrun]
  · next hdue =>
    have hforce : readingInForce cfg it w = some (w.ctx.tempMc, w.ctx.tempRawMc) := if_neg hdue
    exact absoluteCutOut_consulted (by rw [hforce]; rfl) hrun hvalid rfl rfl

/-- Outside a run no phase before the stage machine starts one. -/
theorem sampled_idle (cfg : CoreConfig) (it : Iteration) {w : World F}
    (hidle : w.ctx.state ≠ .running) : (absoluteCutOut cfg it
      (sampleSensor cfg it (retryFrontEnd cfg it (advanceClock it w))).1).ctx.state ≠ .running := by
  have hretry : (retryFrontEnd cfg it (advanceClock it w)).ctx.state ≠ .running := by
    simp only [retryFrontEnd]
    split_ifs <;> exact hidle
  have hsample : (sampleSensor cfg it
      (retryFrontEnd cfg it (advanceClock it w))).1.ctx.state ≠ .running := by
    generalize retryFrontEnd cfg it (advanceClock it w) = v at hretry
    simp only [sampleSensor]
    split
    · cases hread : it.read with
      | some pair => exact hretry
      | none =>
        dsimp only
        split_ifs
        · exact hretry
        · exact hretry
    · exact hretry
  rcases absoluteCutOut_cases cfg it (sampleSensor cfg it
    (retryFrontEnd cfg it (advanceClock it w))).1 with ⟨-, he⟩ | ⟨-, he⟩
  · rw [he]
    intro h
    cases h
  · rwa [he]

variable [CFloat F]

/-- After the tick of the stage machine a run step only announces where that left it, and
does announce it if the run ended. -/
theorem runStep_restates (cfg : CoreConfig) (time : ℤ) (dtMs : ℕ) (newSample : Bool)
    (sampleDtMs : ℕ) {w : World F} {prof : ReflowProfile} (hprof : w.ctx.prof = some prof) :
    Restates (tickRun prof dtMs w) (runStep cfg time dtMs newSample sampleDtMs w) ∧
      ((tickRun prof dtMs w).ctx.run.result ≠ .active →
        ∃ f ∈ (runStep cfg time dtMs newSample sampleDtMs w).frames,
          Counters (tickRun prof dtMs w).ctx f) ∧
      ((runStep cfg time dtMs newSample sampleDtMs w).ctx.state = .running →
        (tickRun prof dtMs w).ctx.run.result = .active) := by
  simp only [runStep, hprof]
  cases hresult : (tickRun prof dtMs w).ctx.run.result with
  | done => exact ⟨.one time rfl rfl rfl rfl rfl,
      fun _ => ⟨_, List.mem_cons_self, .of_telemetry time rfl rfl rfl⟩, fun h => by cases h⟩
  | errOvertemp => exact ⟨.one time rfl rfl rfl rfl rfl,
      fun _ => ⟨_, List.mem_cons_self, .of_telemetry time rfl rfl rfl⟩, fun h => by cases h⟩
  | errTimeout => exact ⟨.one time rfl rfl rfl rfl rfl,
      fun _ => ⟨_, List.mem_cons_self, .of_telemetry time rfl rfl rfl⟩, fun h => by cases h⟩
  | active =>
    refine ⟨?_, fun h => absurd rfl h, fun _ => rfl⟩
    dsimp only
    split_ifs <;> exact .quiet rfl rfl rfl rfl

/-- An iteration in which the stage machine moves, on the reading `r`. -/
structure Moves (w w' : World F) (prof : ReflowProfile) (dtMs : ℕ) (r : ℤ × ℤ) : Prop where
  run_ticked : w'.ctx.run = reflowRunTick w.ctx.run prof dtMs r.1 r.2
  prof_kept : w'.ctx.prof = w.ctx.prof
  idx_kept : w'.ctx.profileIdx = w.ctx.profileIdx
  heard : ∃ new, w'.frames = new ++ w.frames ∧ ∀ f ∈ new, Counters w.ctx f ∨ Counters w'.ctx f
  told : w'.ctx.run.result ≠ .active → ∃ f ∈ w'.frames, Counters w'.ctx f
  live : w'.ctx.state = .running → w'.ctx.run.result = .active

/-- From a running thread that passed the cut-out, the rest of an iteration moves. -/
theorem moves_of_live (cfg : CoreConfig) (it : Iteration) (dtMs : ℕ) (newSample : Bool)
    (sampleDt : ℕ) {w v : World F} (hv : Restates w v) {prof : ReflowProfile}
    (hprof : w.ctx.prof = some prof) (hrun : v.ctx.state = .running) {r : ℤ × ℤ}
    (hmc : v.ctx.tempMc = r.1) (hraw : v.ctx.tempRawMc = r.2) :
    Moves w (publishPeriodic cfg it (tickHeater cfg it dtMs
      (driveElement cfg it dtMs newSample sampleDt v))) prof dtMs r := by
  have hprofv : v.ctx.prof = some prof := hv.prof_kept.trans hprof
  have hdrive : driveElement cfg it dtMs newSample sampleDt v =
      runStep cfg it.stepTime dtMs newSample
        (if sampleDt ≠ 0 then sampleDt else cfg.samplePeriodMs) v := if_pos hrun
  rw [hdrive]
  obtain ⟨hstep, htold, hlive⟩ := runStep_restates cfg it.stepTime dtMs newSample
    (if sampleDt ≠ 0 then sampleDt else cfg.samplePeriodMs) hprofv
  generalize runStep cfg it.stepTime dtMs newSample
    (if sampleDt ≠ 0 then sampleDt else cfg.samplePeriodMs) v = u at hstep htold hlive
  have hrest := ticked_restates cfg it dtMs u
  have hstate : (publishPeriodic cfg it (tickHeater cfg it dtMs u)).ctx.state = u.ctx.state := by
    rw [publishPeriodic_ctx]
    rfl
  generalize publishPeriodic cfg it (tickHeater cfg it dtMs u) = w' at hrest hstate
  have hend := hstep.trans hrest
  have hticked : (tickRun prof dtMs v).ctx.run = reflowRunTick w.ctx.run prof dtMs r.1 r.2 := by
    simp only [tickRun, hv.run_kept, hmc, hraw]
  have hsame : ∀ f, Counters (tickRun prof dtMs v).ctx f → Counters w'.ctx f :=
    fun f hf => hf.congr hend.run_kept hend.prof_kept hend.idx_kept
  obtain ⟨new, hnew, hall⟩ := hv.heard
  obtain ⟨new', hnew', hall'⟩ := hend.heard
  exact
    { run_ticked := hend.run_kept.trans hticked
      prof_kept := hend.prof_kept.trans hv.prof_kept
      idx_kept := hend.idx_kept.trans hv.idx_kept
      heard := by
        have hframes : (tickRun prof dtMs v).frames = v.frames := rfl
        refine ⟨new' ++ new, by rw [hnew', hframes, hnew, List.append_assoc], ?_⟩
        intro f hf
        rcases List.mem_append.mp hf with hf | hf
        · exact .inr (hsame f (hall' f hf))
        · exact .inl (hall f hf)
      told := by
        intro hended
        rw [hend.run_kept] at hended
        obtain ⟨f, hf, hcounters⟩ := htold hended
        obtain ⟨later, hlater, -⟩ := hrest.heard
        exact ⟨f, hlater ▸ List.mem_append_right _ hf, hsame f hcounters⟩
      live := by
        intro hlives
        rw [hend.run_kept]
        exact hlive (hstate ▸ hlives) }

/-- Otherwise an iteration restates what was there, and ends outside a run. -/
theorem iterate_cases (cfg : CoreConfig) (it : Iteration) {w : World F} (hw : Coherent w) :
    (Restates w (iterate cfg it w) ∧ (iterate cfg it w).ctx.state ≠ .running ∧
      (w.ctx.state = .running → ∀ r ∈ readingInForce cfg it w,
        reflowOvertempTripped r.1 r.2 cfg.absMaxMc = true)) ∨
    ∃ prof, w.ctx.prof = some prof ∧ w.ctx.state = .running ∧ ∃ r ∈ readingInForce cfg it w,
      reflowOvertempTripped r.1 r.2 cfg.absMaxMc = false ∧
      Moves w (iterate cfg it w) prof (u32OfInt (it.now - w.lastTick)) r := by
  obtain ⟨prof, hprof, -⟩ := hw.profile_selected
  have hsampled := sampled_restates cfg it w
  -- the thread is stopped before the stage machine
  have hstopped : ∀ (dtMs : ℕ) (newSample : Bool) (sampleDt : ℕ) {v : World F}, Restates w v →
      v.ctx.state ≠ .running → Restates w (publishPeriodic cfg it (tickHeater cfg it dtMs
        (driveElement cfg it dtMs newSample sampleDt v))) ∧
      (publishPeriodic cfg it (tickHeater cfg it dtMs
        (driveElement cfg it dtMs newSample sampleDt v))).ctx.state ≠ .running := by
    intro dtMs newSample sampleDt v hv hidle
    have hdrive : Restates v (driveElement cfg it dtMs newSample sampleDt v) ∧
        (driveElement cfg it dtMs newSample sampleDt v).ctx.state = v.ctx.state := by
      simp only [driveElement, if_neg hidle]
      exact ⟨.quiet rfl rfl rfl rfl, trivial⟩
    refine ⟨(hv.trans hdrive.1).trans (ticked_restates cfg it dtMs _), ?_⟩
    rw [publishPeriodic_ctx]
    show (driveElement cfg it dtMs newSample sampleDt v).ctx.state ≠ .running
    rwa [hdrive.2]
  by_cases hrun : w.ctx.state = .running
  · have hconsulted := sampled_consulted cfg it hrun (hw.running_valid hrun)
    cases hconsulted with
    | ended trips stopped =>
      obtain ⟨hrest, hidle⟩ := hstopped _ _ _ hsampled stopped
      exact .inl ⟨hrest, hidle, fun _ => trips⟩
    | live r inForce cool running filtered raw =>
      exact .inr ⟨prof, hprof, hrun, r, inForce, cool,
        moves_of_live cfg it _ _ _ hsampled hprof running filtered raw⟩
  · obtain ⟨hrest, hidle⟩ := hstopped _ _ _ hsampled (sampled_idle cfg it hrun)
    exact .inl ⟨hrest, hidle, fun h => absurd h hrun⟩

/-- The iteration completes the last stage of a live run. -/
def CompletesRun (cfg : CoreConfig) (w : World F) (it : Iteration) : Prop :=
  w.ctx.state = .running ∧ ∃ prof ∈ w.ctx.prof, ∃ r ∈ readingInForce cfg it w,
    reflowOvertempTripped r.1 r.2 cfg.absMaxMc = false ∧
    reflowOvertempTripped r.1 r.2 prof.abortMc = false ∧
    w.ctx.run.stage + 1 = prof.nStages ∧
    stageComplete (prof.stage w.ctx.run.stage) prof
      (w.ctx.run.clocked (u32OfInt (it.now - w.lastTick))) r.1 = true

/-- The command selects a profile with no more stages than the last run had passed. -/
def SelectsShorter (w : World F) (cmd : ReflowCmd) : Prop :=
  ReflowCmdId.ofU8? cmd.id = some .selectProfile ∧ w.ctx.state ≠ .running ∧
    ∃ prof ∈ reflowProfileGet (u8OfInt cmd.arg), prof.nStages ≤ w.ctx.run.stage

/-- The input leaves the stage of the last run inside the selected profile. -/
def StageKept (cfg : CoreConfig) (w : World F) : LoopInput → Prop
  | .iterate it => ¬CompletesRun cfg w it
  | .command _ cmd => ¬SelectsShorter w cmd

/-- Holds between any two inputs: in particular the last run is outside the selection only
if a frame has told so. -/
structure Tally (w : World F) : Prop where
  coherent : Coherent w
  stage_byte : w.ctx.run.stage < 2 ^ 8
  running_active : w.ctx.state = .running → w.ctx.run.result = .active ∧ Counts w.ctx
  told : (∀ f ∈ w.frames, FrameCoherent f) → Counts w.ctx

/-- A step from a counting context, with the condition under which it keeps counting. -/
structure Announced (w w' : World F) (keeps : Prop) : Prop where
  stage_byte : w'.ctx.run.stage < 2 ^ 8
  running_active : w'.ctx.state = .running → w'.ctx.run.result = .active ∧ Counts w'.ctx
  heard : ∃ new, w'.frames = new ++ w.frames ∧ ∀ f ∈ new, Counters w.ctx f ∨ Counters w'.ctx f
  counts : Counts w.ctx → (Counts w'.ctx ↔ keeps)
  told : Counts w.ctx → ¬Counts w'.ctx → ∃ f ∈ w'.frames, Counters w'.ctx f

omit [CFloat F] in
/-- A step that restates the run and the selection keeps counting. -/
theorem Restates.announced {w w' : World F} (h : Restates w w') (hw : Tally w) {keeps : Prop}
    (hkeeps : keeps) (hrun : w'.ctx.state = .running → w.ctx.state = .running) :
    Announced w w' keeps where
  stage_byte := h.run_kept ▸ hw.stage_byte
  running_active hr := by
    rw [h.run_kept, Counts.congr h.run_kept h.prof_kept]
    exact hw.running_active (hrun hr)
  heard := by
    obtain ⟨new, hnew, hall⟩ := h.heard
    exact ⟨new, hnew, fun f hf => .inl (hall f hf)⟩
  counts hcounts := iff_of_true ((Counts.congr h.run_kept h.prof_kept).mpr hcounts) hkeeps
  told hcounts hnot := absurd ((Counts.congr h.run_kept h.prof_kept).mpr hcounts) hnot

omit [CFloat F] in
theorem counts_iff {ctx : Ctx F} {prof : ReflowProfile} (hprof : ctx.prof = some prof) :
    Counts ctx ↔ ctx.run.stage < prof.nStages := by
  simp [Counts, hprof]

omit [CFloat F] in
theorem completesRun_iff {cfg : CoreConfig} {it : Iteration} {w : World F} {prof : ReflowProfile}
    {r : ℤ × ℤ} (hrun : w.ctx.state = .running) (hprof : w.ctx.prof = some prof)
    (hr : r ∈ readingInForce cfg it w)
    (hcool : reflowOvertempTripped r.1 r.2 cfg.absMaxMc = false) :
    CompletesRun cfg w it ↔ reflowOvertempTripped r.1 r.2 prof.abortMc = false ∧
      w.ctx.run.stage + 1 = prof.nStages ∧ stageComplete (prof.stage w.ctx.run.stage) prof
        (w.ctx.run.clocked (u32OfInt (it.now - w.lastTick))) r.1 = true := by
  constructor
  · rintro ⟨-, prof', hprof', r', hr', -, h⟩
    obtain rfl : prof' = prof := Option.mem_unique hprof' hprof
    obtain rfl : r' = r := Option.mem_unique hr' hr
    exact h
  · intro h
    exact ⟨hrun, prof, hprof, r, hr, hcool, h⟩

theorem iterate_announced (cfg : CoreConfig) (it : Iteration) {w : World F} (hw : Tally w) :
    Announced w (iterate cfg it w) (¬CompletesRun cfg w it) := by
  rcases iterate_cases cfg it hw.coherent with ⟨hsame, hidle, htrips⟩ |
    ⟨prof, hprof, hrun, r, hr, hcool, hmoves⟩
  · refine hsame.announced hw ?_ fun h => absurd h hidle
    rintro ⟨hrun, prof, -, r, hr, hcool, -⟩
    rw [htrips hrun r hr] at hcool
    cases hcool
  · obtain ⟨prof', hprof', hget⟩ := hw.coherent.profile_selected
    obtain rfl : prof' = prof := Option.some.inj (hprof'.symm.trans hprof)
    obtain ⟨act, hcounts⟩ := hw.running_active hrun
    have hinside := (counts_iff hprof).mp hcounts
    have hcount := (builtin_stages prof' (reflowProfileGet_mem hget).2).2
    have hiff : (reflowRunTick w.ctx.run prof' (u32OfInt (it.now - w.lastTick))
        r.1 r.2).stage < prof'.nStages ↔ _ := reflowRunTick_inside_iff hcount act hinside
    rw [← completesRun_iff hrun hprof hr hcool] at hiff
    have hactive : (iterate cfg it w).ctx.run.result = .active →
        Counts (iterate cfg it w).ctx := by
      intro h
      rw [counts_iff (hmoves.prof_kept.trans hprof), hmoves.run_ticked]
      exact reflowRunTick_active_inside (hmoves.run_ticked ▸ h)
    exact
      { stage_byte := hmoves.run_ticked ▸ reflowRunTick_stage_byte hw.stage_byte
        running_active := fun h => ⟨hmoves.live h, hactive (hmoves.live h)⟩
        heard := hmoves.heard
        counts := fun _ => by
          rw [counts_iff (hmoves.prof_kept.trans hprof), hmoves.run_ticked]
          exact hiff
        told := fun _ hnot => hmoves.told fun h => hnot (hactive h) }

omit [CFloat F] in
/-- A selection keeps counting if the new profile has the stage of the last run. -/
theorem select_announced (time : ℤ) (idx : ℕ) (prof : ReflowProfile) {w : World F} (hw : Tally w)
    (hidle : w.ctx.state ≠ .running) : Announced w (publish time { w with ctx := { w.ctx with
      profileIdx := idx, prof := some prof } }) (w.ctx.run.stage < prof.nStages) where
  stage_byte := hw.stage_byte
  running_active hrun := absurd hrun hidle
  heard := by
    refine ⟨[_], rfl, fun f hf => .inr ?_⟩
    rw [List.mem_singleton.mp hf]
    exact .of_telemetry time rfl rfl rfl
  counts _ := counts_iff rfl
  told _ _ := ⟨_, List.mem_cons_self, .of_telemetry time rfl rfl rfl⟩

theorem start_announced (time : ℤ) (prof : ReflowProfile) {w : World F} (hw : Tally w)
    (hprof : w.ctx.prof = some prof) {keeps : Prop} (hkeeps : keeps) :
    Announced w (publish time { w with ctx := { w.ctx with
      run := reflowRunStart prof w.ctx.tempMc, pid := (pidReset : PidState F),
      setpointMc := (reflowRunStart prof w.ctx.tempMc).setpointMc, state := .running } })
      keeps := by
  obtain ⟨prof', hprof', hget⟩ := hw.coherent.profile_selected
  obtain rfl : prof' = prof := Option.some.inj (hprof'.symm.trans hprof)
  have hcounts : Counts { w.ctx with
      run := reflowRunStart prof' w.ctx.tempMc, pid := (pidReset : PidState F),
      setpointMc := (reflowRunStart prof' w.ctx.tempMc).setpointMc, state := .running } :=
    ⟨prof', hprof, (builtin_stages prof' (reflowProfileGet_mem hget).2).1⟩
  exact
    { stage_byte := Nat.two_pow_pos 8
      running_active := fun _ => ⟨rfl, hcounts⟩
      heard := by
        refine ⟨[_], rfl, fun f hf => .inr ?_⟩
        rw [List.mem_singleton.mp hf]
        exact .of_telemetry time rfl rfl rfl
      counts := fun _ => iff_of_true hcounts hkeeps
      told := fun _ hnot => absurd hcounts hnot }

theorem handleCmd_announced (time : ℤ) (cmd : ReflowCmd) {w : World F} (hw : Tally w) :
    Announced w (handleCmd time cmd w) (¬SelectsShorter w cmd) := by
  by_cases hsel : ReflowCmdId.ofU8? cmd.id = some .selectProfile ∧ w.ctx.state ≠ .running ∧
      (reflowProfileGet (u8OfInt cmd.arg)).isSome
  · obtain ⟨hid, hidle, hsome⟩ := hsel
    obtain ⟨prof, hget⟩ := Option.isSome_iff_exists.mp hsome
    have hshorter : (¬SelectsShorter w cmd) = (w.ctx.run.stage < prof.nStages) := by
      simp [SelectsShorter, hid, hidle, hget]
    have he : handleCmd time cmd w = publish time { w with ctx := { w.ctx with
        profileIdx := u8OfInt cmd.arg, prof := some prof } } := by
      simp [handleCmd, hid, hidle, hget]
    rw [he, hshorter]
    exact select_announced time _ prof hw hidle
  · have hkeeps : ¬SelectsShorter w cmd := by
      rintro ⟨hid, hidle, prof, hget, -⟩
      exact hsel ⟨hid, hidle, Option.isSome_of_mem hget⟩
    obtain he | ⟨-, -, -, -, prof, hprof, he⟩ | ⟨-, -, he⟩ | ⟨hid, hidle, prof, hget, -⟩ |
      ⟨-, -, he⟩ := handleCmd_cases time cmd w
    · rw [he]
      exact (Restates.quiet rfl rfl rfl rfl).announced hw hkeeps id
    · rw [he]
      exact start_announced time prof hw hprof hkeeps
    · rw [he]
      have hstopped : Restates w (stopRun time .idle w) := .one time rfl rfl rfl rfl rfl
      exact hstopped.announced hw hkeeps fun h => by cases h
    · exact absurd ⟨hid, hidle, Option.isSome_of_mem hget⟩ hsel
    · rw [he]
      have hcleared : Restates w (publish time { w with ctx := { w.ctx with
          fault := .none, state := .idle } }) := .one time rfl rfl rfl rfl rfl
      exact hcleared.announced hw hkeeps fun h => by cases h

omit [CFloat F] in
/-- Where the step keeps the count its frames are coherent, and where not one of them is not. -/
theorem Announced.coherent_iff {w w' : World F} {keeps : Prop} (h : Announced w w' keeps)
    (hw : Tally w) (hw' : Coherent w') (hframes : ∀ f ∈ w.frames, FrameCoherent f) :
    (∀ f ∈ w'.frames, FrameCoherent f) ↔ keeps := by
  have hcounts := hw.told hframes
  rw [← h.counts hcounts]
  constructor
  · intro hall
    by_contra hnot
    obtain ⟨f, hf, hcounters⟩ := h.told hcounts hnot
    exact hnot ((hcounters.coherent_iff hw'.profile_selected h.stage_byte).mp (hall f hf))
  · intro hcounts' f hf
    obtain ⟨new, hnew, hnews⟩ := h.heard
    rw [hnew] at hf
    rcases List.mem_append.mp hf with hf | hf
    · rcases hnews f hf with hbefore | hafter
      · exact (hbefore.coherent_iff hw.coherent.profile_selected hw.stage_byte).mpr hcounts
      · exact (hafter.coherent_iff hw'.profile_selected h.stage_byte).mpr hcounts'
    · exact hframes f hf

omit [CFloat F] in
theorem Announced.tally {w w' : World F} {keeps : Prop} (h : Announced w w' keeps) (hw : Tally w)
    (hw' : Coherent w') : Tally w' where
  coherent := hw'
  stage_byte := h.stage_byte
  running_active := h.running_active
  told hall := by
    obtain ⟨new, hnew, -⟩ := h.heard
    have hframes : ∀ f ∈ w.frames, FrameCoherent f :=
      fun f hf => hall f (hnew ▸ List.mem_append_right _ hf)
    exact (h.counts (hw.told hframes)).mpr ((h.coherent_iff hw hw' hframes).mp hall)

theorem step_announced (cfg : CoreConfig) (input : LoopInput) {w : World F} (hw : Tally w) :
    Announced w ((controllerThread cfg).step w input) (StageKept cfg w input) ∧
      Coherent ((controllerThread cfg).step w input) := by
  cases input with
  | iterate it => exact ⟨iterate_announced cfg it hw, hw.coherent.iterate cfg it⟩
  | command time cmd => exact ⟨handleCmd_announced time cmd hw, hw.coherent.handleCmd time cmd⟩

theorem boot_tally (b : Boot) : Tally (bootController b : World F) ∧
    ∀ f ∈ (bootController b : World F).frames, FrameCoherent f := by
  have hcoherent : Coherent (bootController b : World F) := coherent_boot b
  have hctx : (bootController b : World F).ctx.run = .zero ∧
      (bootController b : World F).ctx.prof = reflowProfileGet 0 ∧
      (bootController b : World F).ctx.state ≠ .running ∧
      ∀ f ∈ (bootController b : World F).frames, Counters (bootController b : World F).ctx f := by
    simp only [bootController]
    split
    · refine ⟨rfl, rfl, by simp, fun f hf => ?_⟩
      rw [List.mem_singleton.mp hf]
      exact .of_telemetry b.faultTime rfl rfl rfl
    · refine ⟨rfl, rfl, ?_, fun f hf => absurd hf List.not_mem_nil⟩
      intro h
      cases h
  obtain ⟨hrun, hprof, hidle, hnamed⟩ := hctx
  have hbyte : (bootController b : World F).ctx.run.stage < 2 ^ 8 := hrun ▸ Nat.two_pow_pos 8
  have hcounts : Counts (bootController b : World F).ctx :=
    ⟨builtin.get ⟨0, by decide⟩, hprof, by rw [hrun]; decide⟩
  refine ⟨⟨hcoherent, hbyte, fun h => absurd h hidle, fun _ => hcounts⟩, fun f hf => ?_⟩
  exact ((hnamed f hf).coherent_iff hcoherent.profile_selected hbyte).mpr hcounts

/-- A run of the controller publishes nothing but coherent frames exactly when it never
completes a last stage and never selects a profile that is too short for the last run. -/
theorem frames_coherent_iff (cfg : CoreConfig) (b : Boot) (inputs : List LoopInput) :
    (∀ w ∈ (controllerThread cfg).visited (bootController b : World F) inputs,
      ∀ f ∈ w.frames, FrameCoherent f) ↔
    ((controllerThread cfg).restrict (StageKept cfg)).Admitted (bootController b : World F)
      inputs := by
  obtain ⟨hboot, hframes⟩ := boot_tally (F := F) b
  refine Machine.forall_visited_iff (I := Tally) ?_ ?_ hboot hframes
    (Machine.admitted_of_forall (fun _ _ => trivial) _ _)
  · intro w input hw _
    obtain ⟨hstep, hcoherent⟩ := step_announced cfg input hw
    exact hstep.tally hw hcoherent
  · intro w input hw hall _
    obtain ⟨hstep, hcoherent⟩ := step_announced cfg input hw
    exact hstep.coherent_iff hw hcoherent hall

/-- A 120 degree bake from its start to its end, in as few iterations as it has stages. -/
def wholeBake : List LoopInput :=
  [.iterate (roomIteration 300), .command 310 ⟨ReflowCmdId.selectProfile.toU8, 2⟩,
    .command 320 ⟨ReflowCmdId.start.toU8, 0⟩, .iterate (iterationAt 120300 (some (120000, 120000))),
    .iterate (iterationAt 1920300 (some (120000, 120000))), .iterate (iterationAt 2220300 (some (50000, 50000)))]

/-- A completed bake shows stage 4 of 3. -/
theorem completed_bake_is_incoherent : ¬∀ (cfg : CoreConfig) (b : Boot) (inputs : List LoopInput),
    ∀ w ∈ (controllerThread cfg).visited (bootController b : World ℚ) inputs,
      ∀ f ∈ w.frames, FrameCoherent f := by
  intro h
  have hlast := h .stock ⟨true, true, true, 0, 0, 0, 0⟩ wholeBake _ (Machine.run_mem_visited _ _)
  have hshown : ∃ f ∈ ((controllerThread .stock).run
      (bootController ⟨true, true, true, 0, 0, 0, 0⟩ : World ℚ) wholeBake).frames,
      f.nStages.toNat = 3 ∧ shownStage f = 4 := by
    decide +kernel
  obtain ⟨f, hf, hn, hs⟩ := hshown
  have hle := (hlast f hf).shown_le
  omega

end ReflowOven.StageCounters
