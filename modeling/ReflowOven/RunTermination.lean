import ReflowOven.RunDurationBound
import ReflowOven.StageCounters

/-!
# Every run ends by itself

The deadlines of the stages still ahead, with one iteration of slack for each stage that can
be completed late, are a budget of time that a run of the control thread spends. Nothing
but the end of the run restores it, so an oven that nobody stops stops by itself.
-/

namespace ReflowOven.RunTermination

open ProfileRun StageCounters

section Budget

variable {prof : ReflowProfile} {run : ReflowRun} {dtMs : ℕ} {tempMc rawMc : ℤ}

structure InTime (prof : ReflowProfile) (run : ReflowRun) : Prop where
  active : run.result = .active
  inside : run.stage < prof.nStages
  inTime : run.stageMs ≤ deadlineMs prof run.stage

/-- The longest a run may still last when no tick is longer than `gapMs`. -/
def budgetMs (prof : ReflowProfile) (gapMs : ℕ) (run : ReflowRun) : ℤ :=
  deadlineSum prof prof.nStages - (deadlineSum prof run.stage + run.stageMs) +
    (prof.nStages - 1 - run.stage) * gapMs

theorem InTime.start (hpos : 0 < prof.nStages) : InTime prof (reflowRunStart prof tempMc) :=
  ⟨rfl, hpos, Nat.zero_le _⟩

theorem InTime.budgetMs_nonneg (h : InTime prof run) (gapMs : ℕ) :
    0 ≤ budgetMs prof gapMs run := by
  have hsum := deadlineSum_mono prof (Nat.succ_le_of_lt h.inside)
  rw [Nat.succ_eq_add_one, deadlineSum_succ] at hsum
  have hslack : (0 : ℤ) ≤ (prof.nStages - 1 - run.stage) * gapMs := by
    have hinside := h.inside
    exact mul_nonneg (by omega) (by omega)
  have hclock := h.inTime
  simp only [budgetMs]
  omega

theorem budgetMs_le (prof : ReflowProfile) (gapMs : ℕ) (run : ReflowRun) :
    budgetMs prof gapMs run ≤ deadlineSum prof prof.nStages + (prof.nStages - 1) * gapMs := by
  have hslack : ((prof.nStages - 1 - run.stage : ℤ)) * gapMs ≤ (prof.nStages - 1) * gapMs :=
    mul_le_mul_of_nonneg_right (by omega) (by omega)
  simp only [budgetMs]
  omega

/-- A tick that leaves the run active leaves it inside the deadline of a stage. -/
theorem reflowRunTick_inTime (h : (reflowRunTick run prof dtMs tempMc rawMc).result = .active) :
    InTime prof (reflowRunTick run prof dtMs tempMc rawMc) := by
  have hticked := reflowRunTick_ticked run prof dtMs tempMc rawMc
  generalize reflowRunTick run prof dtMs tempMc rawMc = run' at h hticked
  cases hticked with
  | latched ended => exact absurd h ended
  | past | abort | finish | timeout => cases h
  | advance _ _ _ _ more => exact ⟨h, more, Nat.zero_le _⟩
  | hold _ inside _ _ inTime => exact ⟨h, inside, inTime.trans (Nat.mod_le _ _)⟩

/-- Such a tick spends the time it took. -/
theorem budgetMs_tick (hcount : prof.nStages < 2 ^ 8) {gapMs : ℕ}
    (hfit : deadlineSum prof prof.nStages + gapMs < 2 ^ 32) (hrun : InTime prof run)
    (hdt : dtMs ≤ gapMs) (h : (reflowRunTick run prof dtMs tempMc rawMc).result = .active) :
    dtMs + budgetMs prof gapMs (reflowRunTick run prof dtMs tempMc rawMc) ≤
      budgetMs prof gapMs run := by
  have hinside := hrun.inside
  have hclock := hrun.inTime
  have hsum := deadlineSum_mono prof (Nat.succ_le_of_lt hinside)
  have hticked := reflowRunTick_ticked run prof dtMs tempMc rawMc
  generalize reflowRunTick run prof dtMs tempMc rawMc = run' at h hticked
  cases hticked with
  | latched ended => exact absurd h ended
  | past | abort | finish | timeout => cases h
  | advance _ _ _ _ more =>
    -- a late completion costs at most the tick it came with
    have hnext : u8 (run.stage + 1) = run.stage + 1 := u8_eq (by omega)
    simp only [budgetMs, ReflowRun.entering, ReflowRun.clocked, hnext, deadlineSum_succ]
    push_cast
    linarith
  | hold _ _ _ _ _ =>
    rw [Nat.succ_eq_add_one, deadlineSum_succ] at hsum
    have hstage : u32 (run.stageMs + dtMs) = run.stageMs + dtMs := u32_eq (by omega)
    simp only [budgetMs, ReflowRun.clocked, hstage]
    push_cast
    linarith

end Budget

variable {F : Type}

/-- The run of a running thread is one of the selected profile, and in time. -/
structure Timely (w : World F) : Prop where
  coherent : Coherent w
  inTime : w.ctx.state = .running → ∀ prof ∈ w.ctx.prof, InTime prof w.ctx.run

theorem Timely.of_idle {w : World F} (h : Coherent w) (hidle : w.ctx.state ≠ .running) :
    Timely w :=
  ⟨h, fun hrun => absurd hrun hidle⟩

variable [CFloat F]

theorem iterate_lastTick (cfg : CoreConfig) (it : Iteration) (w : World F) :
    (iterate cfg it w).lastTick = it.now := by
  have hretry : ∀ v : World F, (retryFrontEnd cfg it v).lastTick = v.lastTick := by
    intro v
    simp only [retryFrontEnd]
    split_ifs <;> rfl
  have hsample : ∀ v : World F, (sampleSensor cfg it v).1.lastTick = v.lastTick := by
    intro v
    simp only [sampleSensor]
    split
    · cases it.read with
      | some pair => rfl
      | none =>
        dsimp only
        split_ifs <;> rfl
    · rfl
  have hcut : ∀ v : World F, (absoluteCutOut cfg it v).lastTick = v.lastTick := by
    intro v
    rcases absoluteCutOut_cases cfg it v with ⟨-, he⟩ | ⟨-, he⟩
    · rw [he]
      rfl
    · rw [he]
  have hdrive : ∀ (v : World F) (dtMs : ℕ) (newSample : Bool) (sampleDt : ℕ),
      (driveElement cfg it dtMs newSample sampleDt v).lastTick = v.lastTick := by
    intro v dtMs newSample sampleDt
    simp only [driveElement, runStep]
    split
    · cases v.ctx.prof with
      | none => rfl
      | some prof =>
        dsimp only
        cases (tickRun prof dtMs v).ctx.run.result with
        | done | errOvertemp | errTimeout => rfl
        | active =>
          dsimp only
          split_ifs <;> rfl
    · rfl
  have hpublish : ∀ v : World F, (publishPeriodic cfg it v).lastTick = v.lastTick := by
    intro v
    rcases publishPeriodic_cases cfg it v with he | he
    · rw [he]
      rfl
    · rw [he]
  have hadvance : (advanceClock it w).lastTick = it.now := rfl
  simp only [iterate, hpublish, tickHeater, hdrive, hcut, hsample, hretry, hadvance]

/-- An iteration that leaves the thread running ticked the run of the selected profile. -/
theorem iterate_running {cfg : CoreConfig} {it : Iteration} {w : World F} (hw : Coherent w)
    (hrun : (iterate cfg it w).ctx.state = .running) :
    w.ctx.state = .running ∧ (iterate cfg it w).ctx.prof = w.ctx.prof ∧
      ∃ prof ∈ w.ctx.prof, ∃ tempMc rawMc, (iterate cfg it w).ctx.run =
        reflowRunTick w.ctx.run prof (u32OfInt (it.now - w.lastTick)) tempMc rawMc ∧
        (iterate cfg it w).ctx.run.result = .active := by
  obtain ⟨-, hidle, -⟩ | ⟨prof, hprof, hbefore, r, -, -, hmoves⟩ := iterate_cases cfg it hw
  · exact absurd hrun hidle
  · exact ⟨hbefore, hmoves.prof_kept, prof, hprof, r.1, r.2, hmoves.run_ticked, hmoves.live hrun⟩

/-- A command leaves the thread running only by changing nothing or by starting a run. -/
theorem handleCmd_running {time : ℤ} {cmd : ReflowCmd} {w : World F}
    (hrun : (handleCmd time cmd w).ctx.state = .running) :
    handleCmd time cmd w = w ∨ w.ctx.state ≠ .running ∧ ∃ prof ∈ w.ctx.prof,
      (handleCmd time cmd w).ctx.prof = w.ctx.prof ∧
        (handleCmd time cmd w).ctx.run = reflowRunStart prof w.ctx.tempMc := by
  obtain he | ⟨-, -, hidle, -, prof, hprof, he⟩ | ⟨-, -, he⟩ | ⟨-, hidle, _, -, he⟩ |
    ⟨-, -, he⟩ := handleCmd_cases time cmd w
  · exact .inl he
  · rw [he]
    exact .inr ⟨hidle, prof, hprof, rfl, rfl⟩
  · rw [he] at hrun
    cases hrun
  · rw [he] at hrun
    exact absurd hrun hidle
  · rw [he] at hrun
    cases hrun

theorem builtin_deadlines : ∀ prof ∈ builtin, deadlineSum prof prof.nStages < 2 ^ 31 := by
  decide

theorem Timely.step {w : World F} (h : Timely w) (cfg : CoreConfig) (input : LoopInput) :
    Timely ((controllerThread cfg).step w input) := by
  cases input with
  | iterate it =>
    refine ⟨h.coherent.iterate cfg it, fun hrun prof hprof => ?_⟩
    obtain ⟨-, hkept, prof', hprof', tempMc, rawMc, hticked, act⟩ :=
      iterate_running h.coherent hrun
    obtain rfl : prof = prof' := Option.mem_unique (hkept ▸ hprof) hprof'
    show InTime prof (iterate cfg it w).ctx.run
    rw [hticked] at act ⊢
    exact reflowRunTick_inTime act
  | command time cmd =>
    refine ⟨h.coherent.handleCmd time cmd, fun hrun prof hprof => ?_⟩
    show InTime prof (handleCmd time cmd w).ctx.run
    obtain he | ⟨-, prof', hprof', hkept, hstart⟩ := handleCmd_running hrun
    · simp only [controllerThread, he] at hrun hprof ⊢
      exact h.inTime hrun prof hprof
    · obtain rfl : prof = prof' := Option.mem_unique (hkept ▸ hprof) hprof'
      obtain ⟨prof', hsel, hget⟩ := h.coherent.profile_selected
      obtain rfl : prof' = prof := Option.mem_unique hsel hprof'
      rw [hstart]
      exact .start (builtin_stages prof' (reflowProfileGet_mem hget).2).1

theorem timely_of_reachable {cfg : CoreConfig} {w : World F}
    (h : (controllerThread cfg).Reachable w) : Timely w := by
  apply h.invariant
  · rintro w ⟨b, rfl⟩
    refine .of_idle (coherent_boot b) ?_
    simp only [bootController]
    split <;> simp [enterLoop, Ctx.zero]
  · exact fun w input _ hw _ => hw.step cfg input

/-- The clock does not run back, and the loop comes round within `gapMs`. -/
def ComesRound (gapMs : ℕ) (w : World F) : LoopInput → Prop
  | .iterate it => w.lastTick ≤ it.now ∧ it.now ≤ w.lastTick + gapMs
  | .command _ _ => True

instance (gapMs : ℕ) (w : World F) : (input : LoopInput) → Decidable (ComesRound gapMs w input)
  | .iterate it =>
    inferInstanceAs (Decidable (w.lastTick ≤ it.now ∧ it.now ≤ w.lastTick + gapMs))
  | .command _ _ => inferInstanceAs (Decidable True)

instance (cfg : CoreConfig) (w : World F) (input : LoopInput) :
    Decidable ((controllerThread cfg).admits w input) := inferInstanceAs (Decidable True)

/-- The instant by which the run is over. -/
def latestEnd (prof : ReflowProfile) (gapMs : ℕ) (w : World F) : ℤ :=
  w.lastTick + budgetMs prof gapMs w.ctx.run

/-- Between two running states the latest end does not recede. -/
theorem latestEnd_step {cfg : CoreConfig} {w : World F} (h : Timely w) {prof : ReflowProfile}
    (hprof : w.ctx.prof = some prof) (hcount : prof.nStages < 2 ^ 8) {gapMs : ℕ}
    (hfit : deadlineSum prof prof.nStages + gapMs < 2 ^ 32) {input : LoopInput}
    (hround : ComesRound gapMs w input) (hbefore : w.ctx.state = .running)
    (hrun : ((controllerThread cfg).step w input).ctx.state = .running) :
    ((controllerThread cfg).step w input).ctx.prof = some prof ∧
      latestEnd prof gapMs ((controllerThread cfg).step w input) ≤ latestEnd prof gapMs w := by
  cases input with
  | iterate it =>
    obtain ⟨hlow, hhigh⟩ := hround
    obtain ⟨-, hkept, prof', hprof', tempMc, rawMc, hticked, act⟩ :=
      iterate_running h.coherent hrun
    obtain rfl : prof = prof' := Option.mem_unique hprof hprof'
    refine ⟨hkept.trans hprof, ?_⟩
    have hdt : (u32OfInt (it.now - w.lastTick) : ℤ) = it.now - w.lastTick :=
      u32OfInt_eq (by omega) (by omega)
    rw [hticked] at act
    have hspent := budgetMs_tick hcount hfit (h.inTime hbefore prof hprof) (by omega) act
    show (iterate cfg it w).lastTick + budgetMs prof gapMs (iterate cfg it w).ctx.run ≤ _
    rw [iterate_lastTick, hticked, latestEnd]
    omega
  | command time cmd =>
    obtain he | ⟨hidle, -⟩ := handleCmd_running hrun
    · simp only [controllerThread, he]
      exact ⟨hprof, le_rfl⟩
    · exact absurd hbefore hidle

/-- Every run ends by itself: when the clock has passed the deadlines of all stages and one
iteration of slack for each stage after the first, the oven has left its run on the way,
with the element off, whatever was measured and whatever was asked of it. -/
theorem run_ends_by_itself (cfg : CoreConfig) {w : World F}
    (h : (controllerThread cfg).Reachable w) {prof : ReflowProfile}
    (hprof : w.ctx.prof = some prof) {gapMs : ℕ} (hgap : gapMs < 2 ^ 31)
    {inputs : List LoopInput}
    (hround : ((controllerThread cfg).restrict (ComesRound gapMs)).Admitted w inputs)
    (hlate : w.lastTick + reflowProfileMaxMs prof + (prof.nStages - 1) * gapMs <
      ((controllerThread cfg).run w inputs).lastTick) :
    ∃ t ∈ (controllerThread cfg).visited w inputs,
      t.ctx.state ≠ .running ∧ t.heater.pin = false := by
  have htimely := timely_of_reachable h
  obtain ⟨prof', hsel, hget⟩ := htimely.coherent.profile_selected
  obtain rfl : prof' = prof := Option.some.inj (hsel.symm.trans hprof)
  have hmem := (reflowProfileGet_mem hget).2
  have hcount := (builtin_stages prof' hmem).2
  have hdeadlines := builtin_deadlines prof' hmem
  rw [reflowProfileMaxMs_eq (by omega)] at hlate
  by_contra hnone
  push Not at hnone
  have hvisited : ∀ t ∈ (controllerThread cfg).visited w inputs, Timely t :=
    Machine.visited_invariant (fun t input ht _ => ht.step cfg input) htimely
      (Machine.admitted_of_forall (fun _ _ => trivial) w inputs)
  have hrunning : ∀ t ∈ (controllerThread cfg).visited w inputs, t.ctx.state = .running := by
    intro t ht
    by_contra hidle
    have hcoherent := (hvisited t ht).coherent
    exact hnone t ht hidle (hcoherent.pin_recorded.trans (hcoherent.idle_off hidle).2.2)
  obtain ⟨hlast, hkept, hle⟩ := Machine.run_invariant_inside
    (M := (controllerThread cfg).restrict (ComesRound gapMs))
    (I := fun t => Timely t ∧ t.ctx.prof = some prof' ∧
      latestEnd prof' gapMs t ≤ latestEnd prof' gapMs w)
    (P := fun t => t.ctx.state = .running)
    (fun t input ht hbefore hadmits hafter => by
      obtain ⟨htimely, hprof, hle⟩ := ht
      obtain ⟨hprof', hend⟩ :=
        latestEnd_step htimely hprof hcount (by omega) hadmits.2 hbefore hafter
      exact ⟨htimely.step cfg input, hprof', hend.trans hle⟩)
    ⟨htimely, hsel, le_rfl⟩ hround (by rwa [Machine.visited_restrict])
  have hactive := hrunning _ (Machine.run_mem_visited w inputs)
  have hleft := (hlast.inTime hactive prof' hkept).budgetMs_nonneg gapMs
  have hbudget := budgetMs_le prof' gapMs w.ctx.run
  simp only [latestEnd] at hle
  have hsame : ((controllerThread cfg).restrict (ComesRound gapMs)).run w inputs =
    (controllerThread cfg).run w inputs := rfl
  rw [hsame] at hle hleft
  omega

/-- A run of the first profile, just started. -/
def justStarted : World ℚ :=
  (controllerThread .stock).run (bootController ⟨true, true, true, 0, 0, 0, 0⟩)
    [.iterate (roomIteration 300), .command 310 ⟨ReflowCmdId.start.toU8, 0⟩]

/-- Seven rounds of a thread that is held up for a quarter of an hour each time. -/
def slowRounds : List LoopInput :=
  (List.range 7).map fun k => .iterate (roomIteration (900300 + 900000 * k))

theorem run_ends_by_itself_held_up : justStarted.ctx.state = .running ∧
    ∃ t ∈ (controllerThread .stock).visited justStarted slowRounds,
      t.ctx.state ≠ .running ∧ t.heater.pin = false := by
  refine ⟨by decide +kernel, ?_⟩
  have hboot : (controllerThread .stock).Reachable
      (bootController ⟨true, true, true, 0, 0, 0, 0⟩ : World ℚ) := .start ⟨_, rfl⟩
  have hreach : (controllerThread .stock).Reachable justStarted :=
    hboot.run (Machine.admitted_of_forall (fun _ _ => trivial) _ _)
  have hround : ((controllerThread .stock).restrict (ComesRound 900000)).Admitted justStarted
      slowRounds := by
    decide +kernel
  have hprof : justStarted.ctx.prof = some (builtin.get ⟨0, by decide⟩) := by decide +kernel
  exact run_ends_by_itself .stock hreach hprof (by decide) hround (by decide +kernel)

end ReflowOven.RunTermination
