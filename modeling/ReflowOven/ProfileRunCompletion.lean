import ReflowOven.GuardedMachines
import ReflowOven.ReflowProfiles

/-!
# What a completed run has done

The runner of one profile is a machine whose inputs are ticks. `RunStep` states in exact
arithmetic what a tick may do; the 32-bit runner refines it for a profile whose sums fit
and ticks that do not wrap the clocks. Everything known about whole runs, and about a
run that reached `DONE` in particular, is derived from that relation.
-/

namespace ReflowOven
namespace ProfileRun

structure RunTick where
  dtMs : ℕ
  tempMc : ℤ
  rawMc : ℤ

/-- One start of a profile, then ticks that leave the two clocks inside 32 bits. -/
def runner (prof : ReflowProfile) (tempMc : ℤ) : Machine ReflowRun RunTick where
  init r := r = reflowRunStart prof tempMc
  admits r t := r.result = .active →
    r.stageMs + t.dtMs < 2 ^ 32 ∧ r.totalMs + t.dtMs < 2 ^ 32
  step r t := reflowRunTick r prof t.dtMs t.tempMc t.rawMc

@[simp] theorem runner_step (prof : ReflowProfile) (tempMc : ℤ) (r : ReflowRun) (t : RunTick) :
    (runner prof tempMc).step r t = reflowRunTick r prof t.dtMs t.tempMc t.rawMc := rfl

instance (prof : ReflowProfile) (tempMc : ℤ) (r : ReflowRun) (t : RunTick) :
    Decidable ((runner prof tempMc).admits r t) := inferInstanceAs (Decidable (_ → _))

def nominalSum (prof : ReflowProfile) (k : ℕ) : ℕ :=
  ((List.range k).map fun i => (prof.stage i).nominalMs).sum

/-- The longest a stage may last before it is a timeout. -/
def deadlineMs (prof : ReflowProfile) (i : ℕ) : ℕ :=
  (prof.stage i).nominalMs + stageGraceMs (prof.stage i) prof

/-- One to eight stages, with 32-bit sums and goal temperatures that do not overflow. -/
structure Fits (prof : ReflowProfile) : Prop where
  stages_pos : 1 ≤ prof.nStages
  stages_le : prof.nStages ≤ reflowMaxStages
  deadline_fits : ∀ i < prof.nStages, deadlineMs prof i < 2 ^ 32
  nominal_fits : nominalSum prof prof.nStages < 2 ^ 32
  goal_fits : ∀ i < prof.nStages, -2 ^ 31 ≤ (prof.stage i).targetMc - prof.tolMc ∧
    (prof.stage i).targetMc - prof.tolMc < 2 ^ 31

/-- The thermal goal of a stage, in exact arithmetic. -/
def GoalMet (prof : ReflowProfile) (i : ℕ) (tempMc : ℤ) : Prop :=
  if (prof.stage i).kind = .cool then tempMc ≤ (prof.stage i).targetMc
  else (prof.stage i).targetMc - prof.tolMc ≤ tempMc

def RunTick.Hot (prof : ReflowProfile) (t : RunTick) : Prop :=
  prof.abortMc ≤ t.rawMc ∨ prof.abortMc ≤ t.tempMc

instance (prof : ReflowProfile) (t : RunTick) : Decidable (t.Hot prof) :=
  inferInstanceAs (Decidable (_ ∨ _))

theorem not_hot_iff {prof : ReflowProfile} {t : RunTick} :
    ¬t.Hot prof ↔ t.rawMc < prof.abortMc ∧ t.tempMc < prof.abortMc := by
  simp [RunTick.Hot]

/-- A tick whose readings are 32-bit values. -/
def RunTick.Readable (t : RunTick) : Prop :=
  (-2 ^ 31 ≤ t.tempMc ∧ t.tempMc < 2 ^ 31) ∧ (-2 ^ 31 ≤ t.rawMc ∧ t.rawMc < 2 ^ 31)

instance (t : RunTick) : Decidable t.Readable :=
  inferInstanceAs (Decidable ((_ ∧ _) ∧ (_ ∧ _)))

/-- A stage may end: its nominal time has passed and its goal is met. -/
def Ripe (prof : ReflowProfile) (r : ReflowRun) (t : RunTick) : Prop :=
  (prof.stage r.stage).nominalMs ≤ r.stageMs + t.dtMs ∧ GoalMet prof r.stage t.tempMc

/-- The run with both clocks advanced. -/
def advanced (r : ReflowRun) (t : RunTick) : ReflowRun :=
  { r with stageMs := r.stageMs + t.dtMs, totalMs := r.totalMs + t.dtMs }

/-- The run as it enters the stage after `r.stage`. -/
def entered (prof : ReflowProfile) (r : ReflowRun) (t : RunTick) : ReflowRun :=
  let r' : ReflowRun := { advanced r t with
    stage := r.stage + 1, stageMs := 0, stageStartMc := t.tempMc }
  { r' with setpointMc := stageSetpoint r' (prof.stage (r.stage + 1)) }

/-- Everything one tick can do. -/
inductive RunStep (prof : ReflowProfile) (r : ReflowRun) (t : RunTick) : ReflowRun → Prop where
  | latched (ended : r.result ≠ .active) : RunStep prof r t r
  | abort (act : r.result = .active) (hot : t.Hot prof) :
      RunStep prof r t { r with result := .errOvertemp }
  | advance (act : r.result = .active) (cold : ¬t.Hot prof) (ripe : Ripe prof r t)
      (more : r.stage + 1 < prof.nStages) : RunStep prof r t (entered prof r t)
  | finish (act : r.result = .active) (cold : ¬t.Hot prof) (ripe : Ripe prof r t)
      (last : r.stage + 1 = prof.nStages) :
      RunStep prof r t { advanced r t with
        stage := r.stage + 1, result := .done, setpointMc := t.tempMc }
  | timeout (act : r.result = .active) (cold : ¬t.Hot prof) (unripe : ¬Ripe prof r t)
      (late : deadlineMs prof r.stage < r.stageMs + t.dtMs) :
      RunStep prof r t { advanced r t with result := .errTimeout }
  | hold (act : r.result = .active) (cold : ¬t.Hot prof) (unripe : ¬Ripe prof r t)
      (inTime : r.stageMs + t.dtMs ≤ deadlineMs prof r.stage) :
      RunStep prof r t { advanced r t with
        setpointMc := stageSetpoint (advanced r t) (prof.stage r.stage) }

/-- While a run is active its stage exists and is inside its deadline. -/
def ActiveInTime (prof : ReflowProfile) (r : ReflowRun) : Prop :=
  r.result = .active → r.stage < prof.nStages ∧ r.stageMs ≤ deadlineMs prof r.stage

/-- The computations of a tick of an active run give their integer values. -/
structure ExactTick (prof : ReflowProfile) (r : ReflowRun) (t : RunTick) : Prop where
  stage_clock : u32 (r.stageMs + t.dtMs) = r.stageMs + t.dtMs
  total_clock : u32 (r.totalMs + t.dtMs) = r.totalMs + t.dtMs
  goal : (prof.stage r.stage).nominalMs ≤ r.stageMs + t.dtMs → (prof.stage r.stage).kind ≠ .cool →
    i32 ((prof.stage r.stage).targetMc - prof.tolMc) = (prof.stage r.stage).targetMc - prof.tolMc
  deadline : stageComplete (prof.stage r.stage) prof (r.clocked t.dtMs) t.tempMc = false →
    u32 ((prof.stage r.stage).nominalMs + stageGraceMs (prof.stage r.stage) prof) =
      deadlineMs prof r.stage

theorem ExactTick.clocked_eq {prof : ReflowProfile} {r : ReflowRun} {t : RunTick}
    (h : ExactTick prof r t) : r.clocked t.dtMs = advanced r t := by
  simp only [ReflowRun.clocked, advanced, h.stage_clock, h.total_clock]

theorem ExactTick.stageComplete_iff {prof : ReflowProfile} {r : ReflowRun} {t : RunTick}
    (h : ExactTick prof r t) :
    stageComplete (prof.stage r.stage) prof (r.clocked t.dtMs) t.tempMc = true ↔
      Ripe prof r t := by
  rw [stageComplete_eq_true_iff, h.clocked_eq]
  apply and_congr_right
  intro hnominal
  simp only [goalReached, GoalMet]
  split
  · next hkind => exact decide_eq_true_iff
  · next hkind =>
    rw [h.goal hnominal hkind]
    exact decide_eq_true_iff

/-- Where the computations are exact, the code does what the exact relation says. -/
theorem ExactTick.runStep {prof : ReflowProfile} {r : ReflowRun} {t : RunTick}
    (hcount : prof.nStages < 2 ^ 8) (hs : r.result = .active → r.stage < prof.nStages)
    (h : r.result = .active → ¬t.Hot prof → ExactTick prof r t) :
    RunStep prof r t (reflowRunTick r prof t.dtMs t.tempMc t.rawMc) := by
  generalize hr' : reflowRunTick r prof t.dtMs t.tempMc t.rawMc = r'
  have hticked := hr' ▸ reflowRunTick_ticked r prof t.dtMs t.tempMc t.rawMc
  cases hticked with
  | latched ended => exact .latched ended
  | past act past => exact absurd (hs act) (not_lt.mpr past)
  | abort act inside hot => exact .abort act hot
  | advance act inside cold complete more =>
    have hexact := h act (not_hot_iff.mpr cold)
    have hu8 : u8 (r.stage + 1) = r.stage + 1 := u8_eq (by omega)
    have hentered : (r.clocked t.dtMs).entering prof t.tempMc = entered prof r t := by
      simp only [hexact.clocked_eq, ReflowRun.entering, entered, advanced, hu8]
    rw [hentered]
    exact .advance act (not_hot_iff.mpr cold) (hexact.stageComplete_iff.mp complete) (hu8 ▸ more)
  | finish act inside cold complete last =>
    have hexact := h act (not_hot_iff.mpr cold)
    have hu8 : u8 (r.stage + 1) = r.stage + 1 := u8_eq (by omega)
    rw [hexact.clocked_eq, hu8]
    exact .finish act (not_hot_iff.mpr cold) (hexact.stageComplete_iff.mp complete) (by omega)
  | timeout act inside cold open' late =>
    have hexact := h act (not_hot_iff.mpr cold)
    have hunripe := mt hexact.stageComplete_iff.mpr (Bool.eq_false_iff.mp open')
    rw [hexact.deadline open', hexact.clocked_eq] at late
    rw [hexact.clocked_eq]
    exact .timeout act (not_hot_iff.mpr cold) hunripe late
  | hold act inside cold open' inTime =>
    have hexact := h act (not_hot_iff.mpr cold)
    have hunripe := mt hexact.stageComplete_iff.mpr (Bool.eq_false_iff.mp open')
    rw [hexact.deadline open', hexact.clocked_eq] at inTime
    rw [hexact.clocked_eq]
    exact .hold act (not_hot_iff.mpr cold) hunripe inTime

theorem reflowRunTick_refines {prof : ReflowProfile} (hf : Fits prof) {tempMc : ℤ}
    {r : ReflowRun} {t : RunTick} (hr : ActiveInTime prof r)
    (ht : (runner prof tempMc).admits r t) :
    RunStep prof r t ((runner prof tempMc).step r t) := by
  have hle : prof.nStages ≤ 8 := hf.stages_le
  refine ExactTick.runStep (by omega) (fun act => (hr act).1) fun act _ => ?_
  have hs := (hr act).1
  obtain ⟨hstage, htotal⟩ := ht act
  obtain ⟨hlow, hhigh⟩ := hf.goal_fits _ hs
  exact ⟨u32_eq hstage, u32_eq htotal, fun _ _ => i32_eq hlow hhigh,
    fun _ => u32_eq (hf.deadline_fits _ hs)⟩

theorem RunStep.stage_bounds {prof : ReflowProfile} {r r' : ReflowRun} {t : RunTick}
    (h : RunStep prof r t r') : r.stage ≤ r'.stage ∧ r'.stage ≤ r.stage + 1 := by
  cases h <;> simp [advanced, entered]

/-- The stage index rises only on a tick that completes the stage. -/
theorem RunStep.ripe_of_stage_lt {prof : ReflowProfile} {r r' : ReflowRun} {t : RunTick}
    (h : RunStep prof r t r') (hlt : r.stage < r'.stage) :
    r.result = .active ∧ Ripe prof r t ∧ r'.stage = r.stage + 1 := by
  cases h with
  | latched => exact absurd hlt (lt_irrefl _)
  | abort => exact absurd hlt (lt_irrefl _)
  | advance act cold ripe more => exact ⟨act, ripe, rfl⟩
  | finish act cold ripe last => exact ⟨act, ripe, rfl⟩
  | timeout => exact absurd hlt (lt_irrefl _)
  | hold => exact absurd hlt (lt_irrefl _)

theorem RunStep.late_of_timeout {prof : ReflowProfile} {r r' : ReflowRun} {t : RunTick}
    (h : RunStep prof r t r') (act : r.result = .active) (hlate : r'.result = .errTimeout) :
    deadlineMs prof r.stage < r.stageMs + t.dtMs := by
  cases h with
  | latched ended => exact absurd act ended
  | abort | finish => exact absurd hlate nofun
  | advance | hold => exact absurd (act.symm.trans hlate) nofun
  | timeout _ _ _ late => exact late

theorem RunStep.activeInTime {prof : ReflowProfile} {r r' : ReflowRun} {t : RunTick}
    (h : RunStep prof r t r') (hr : ActiveInTime prof r) : ActiveInTime prof r' := by
  cases h with
  | latched => exact hr
  | abort => exact nofun
  | advance act cold ripe more => exact fun _ => ⟨more, Nat.zero_le _⟩
  | finish => exact nofun
  | timeout => exact nofun
  | hold act cold unripe inTime => exact fun _ => ⟨(hr act).1, inTime⟩

/-- A tick of an active run that ends other than hot was itself not hot. -/
theorem RunStep.cold_of_ne {prof : ReflowProfile} {r r' : ReflowRun} {t : RunTick}
    (h : RunStep prof r t r') (act : r.result = .active) (hne : r'.result ≠ .errOvertemp) :
    ¬t.Hot prof := by
  cases h with
  | latched ended => exact absurd act ended
  | abort => exact absurd rfl hne
  | advance _ cold | finish _ cold | timeout _ cold | hold _ cold => exact cold

/-- `DONE` leaves the index one past the last stage. -/
def DonePastEnd (prof : ReflowProfile) (r : ReflowRun) : Prop :=
  r.result = .done → r.stage = prof.nStages

theorem RunStep.donePastEnd {prof : ReflowProfile} {r r' : ReflowRun} {t : RunTick}
    (h : RunStep prof r t r') (hr : DonePastEnd prof r) : DonePastEnd prof r' := by
  cases h with
  | latched => exact hr
  | abort | timeout => exact nofun
  | advance act | hold act => exact fun hd => absurd (act.symm.trans hd) nofun
  | finish act cold ripe last => exact fun _ => last

/-- The total clock covers the nominal times of the stages left behind, and while the
run is active the time spent in the present stage as well. -/
def Accounted (prof : ReflowProfile) (r : ReflowRun) : Prop :=
  nominalSum prof r.stage + (if r.result = .active then r.stageMs else 0) ≤ r.totalMs

theorem nominalSum_succ (prof : ReflowProfile) (k : ℕ) :
    nominalSum prof (k + 1) = nominalSum prof k + (prof.stage k).nominalMs := by
  simp [nominalSum, List.range_succ]

theorem RunStep.accounted {prof : ReflowProfile} {r r' : ReflowRun} {t : RunTick}
    (h : RunStep prof r t r') (hr : Accounted prof r) : Accounted prof r' := by
  cases h with
  | latched => exact hr
  | abort act =>
    have hr' := hr
    simp only [Accounted, act, if_true] at hr' ⊢
    simp
    omega
  | advance act cold ripe more =>
    simp only [Accounted, act, if_true, entered, advanced, nominalSum_succ] at hr ⊢
    have := ripe.1
    omega
  | finish act cold ripe last =>
    simp only [Accounted, act, if_true, advanced, nominalSum_succ] at hr ⊢
    have := ripe.1
    simp
    omega
  | timeout act =>
    simp only [Accounted, act, if_true, advanced] at hr ⊢
    simp
    omega
  | hold act =>
    simp only [Accounted, act, if_true, advanced] at hr ⊢
    omega

/-- The 32-bit sum of the nominal times is the exact one. -/
theorem reflowProfileNominalMs_eq {prof : ReflowProfile}
    (hfit : nominalSum prof prof.nStages < 2 ^ 32) :
    reflowProfileNominalMs prof = nominalSum prof prof.nStages := by
  have hsum := foldl_u32_add (fun i => (prof.stage i).nominalMs) 0 (k := prof.nStages)
    (by simpa [nominalSum] using hfit)
  simpa [reflowProfileNominalMs, nominalSum] using hsum

/-- A stage left behind, with its clock and the filtered reading of that moment. -/
structure StageCompletion where
  stage : ℕ
  stageMs : ℕ
  tempMc : ℤ

def StageCompletion.Earned (prof : ReflowProfile) (c : StageCompletion) : Prop :=
  (prof.stage c.stage).nominalMs ≤ c.stageMs ∧ GoalMet prof c.stage c.tempMc

section History

variable (prof : ReflowProfile)

/-- The stages completed along a list of ticks, oldest first. -/
def completions : ReflowRun → List RunTick → List StageCompletion
  | _, [] => []
  | r, t :: ts =>
    let r' := reflowRunTick r prof t.dtMs t.tempMc t.rawMc
    if r.stage < r'.stage then ⟨r.stage, r.stageMs + t.dtMs, t.tempMc⟩ :: completions r' ts
    else completions r' ts

/-- The ticks of the list that were taken while the run was active. -/
def activeTicks : ReflowRun → List RunTick → List RunTick
  | _, [] => []
  | r, t :: ts =>
    let rest := activeTicks (reflowRunTick r prof t.dtMs t.tempMc t.rawMc) ts
    if r.result = .active then t :: rest else rest

end History

variable {prof : ReflowProfile} {tempMc : ℤ}

/-- What the exact step relation preserves, every admitted run preserves. -/
theorem run_preserves (hf : Fits prof) {I : ReflowRun → Prop}
    (hstep : ∀ {r r' : ReflowRun} {t : RunTick}, RunStep prof r t r' → I r → I r')
    {r : ReflowRun} (hr : ActiveInTime prof r) (hI : I r) {ts : List RunTick}
    (hts : (runner prof tempMc).Admitted r ts) :
    ActiveInTime prof ((runner prof tempMc).run r ts) ∧ I ((runner prof tempMc).run r ts) := by
  refine Machine.run_invariant (M := runner prof tempMc)
    (I := fun r => ActiveInTime prof r ∧ I r) ?_ ⟨hr, hI⟩ hts
  intro r t h ha
  have hs := reflowRunTick_refines hf h.1 ha
  exact ⟨hs.activeInTime h.1, hstep hs h.2⟩

/-- Stages are completed one after another, none skipped and none repeated. -/
theorem completions_in_order (hf : Fits prof) {r : ReflowRun} (hr : ActiveInTime prof r)
    {ts : List RunTick} (hts : (runner prof tempMc).Admitted r ts) :
    ∃ n, ((runner prof tempMc).run r ts).stage = r.stage + n ∧
      (completions prof r ts).map StageCompletion.stage = List.range' r.stage n := by
  induction ts generalizing r with
  | nil => exact ⟨0, rfl, rfl⟩
  | cons t ts ih =>
    have hs := reflowRunTick_refines hf hr hts.1
    obtain ⟨n, hn, hmap⟩ := ih (hs.activeInTime hr) hts.2
    have hb := hs.stage_bounds
    simp only [runner_step] at hb hn hmap hs
    rw [completions, Machine.run_cons, runner_step]
    by_cases hlt : r.stage < (reflowRunTick r prof t.dtMs t.tempMc t.rawMc).stage
    · obtain ⟨-, -, heq⟩ := hs.ripe_of_stage_lt hlt
      refine ⟨n + 1, by omega, ?_⟩
      rw [if_pos hlt, List.map_cons, hmap, heq, List.range'_succ]
    · have heq : (reflowRunTick r prof t.dtMs t.tempMc t.rawMc).stage = r.stage := by omega
      refine ⟨n, by omega, ?_⟩
      rw [if_neg hlt, hmap, heq]

theorem completions_earned (hf : Fits prof) {r : ReflowRun} (hr : ActiveInTime prof r)
    {ts : List RunTick} (hts : (runner prof tempMc).Admitted r ts) :
    ∀ c ∈ completions prof r ts, c.Earned prof := by
  induction ts generalizing r with
  | nil => exact fun c hc => absurd hc List.not_mem_nil
  | cons t ts ih =>
    have hs := reflowRunTick_refines hf hr hts.1
    have htail := ih (hs.activeInTime hr) hts.2
    simp only [runner_step] at hs htail
    rw [completions]
    split
    · next hlt =>
      intro c hc
      rcases List.mem_cons.mp hc with rfl | hc
      · exact (hs.ripe_of_stage_lt hlt).2.1
      · exact htail c hc
    · exact htail

theorem run_latched {r : ReflowRun} (hr : r.result ≠ .active) (ts : List RunTick) :
    (runner prof tempMc).run r ts = r := by
  induction ts with
  | nil => rfl
  | cons t ts ih =>
    rw [Machine.run_cons, runner_step, reflowRunTick, if_pos hr, ih]

/-- No tick of a run that did not end hot had a reading at or above the abort level. -/
theorem activeTicks_cold (hf : Fits prof) {r : ReflowRun} (hr : ActiveInTime prof r)
    {ts : List RunTick} (hts : (runner prof tempMc).Admitted r ts)
    (hne : ((runner prof tempMc).run r ts).result ≠ .errOvertemp) :
    ∀ t ∈ activeTicks prof r ts, ¬t.Hot prof := by
  induction ts generalizing r with
  | nil => exact fun t ht => absurd ht List.not_mem_nil
  | cons t ts ih =>
    have hs := reflowRunTick_refines hf hr hts.1
    rw [Machine.run_cons] at hne
    have htail := ih (hs.activeInTime hr) hts.2 hne
    rw [activeTicks]
    by_cases act : r.result = .active
    · -- a hot tick would latch the over-temperature result for the rest of the run
      have hcold : ¬t.Hot prof := by
        apply hs.cold_of_ne act
        intro hover
        apply hne
        rw [run_latched (by rw [hover]; exact nofun)]
        exact hover
      rw [if_pos act]
      intro u hu
      rcases List.mem_cons.mp hu with rfl | hu
      · exact hcold
      · exact htail u hu
    · rw [if_neg act]
      exact htail

theorem start_activeInTime (hf : Fits prof) :
    ActiveInTime prof (reflowRunStart prof tempMc) :=
  fun _ => ⟨hf.stages_pos, Nat.zero_le _⟩

theorem start_accounted : Accounted prof (reflowRunStart prof tempMc) := by
  simp [Accounted, reflowRunStart, nominalSum]

/-- A hot tick of an active run only latches the over-temperature result. -/
theorem reflowRunTick_hot {r : ReflowRun} {t : RunTick} (act : r.result = .active)
    (hs : r.stage < prof.nStages) (hot : t.Hot prof) :
    reflowRunTick r prof t.dtMs t.tempMc t.rawMc = { r with result := .errOvertemp } := by
  rw [reflowRunTick, if_neg (not_not.mpr act), if_neg (by omega),
    if_pos (by simpa [RunTick.Hot] using hot)]

/-- Every run of a fitting profile, at every tick: an active run is inside the deadline of
an existing stage; the index moves by single steps, each on a ripe tick; a hot tick stops
the run where it stands; `DONE` means that all stages were completed in order, each
earned, in no less than the nominal time and without a hot tick; and a result other than
`ACTIVE` latches. -/
theorem run_really_executed (hf : Fits prof) (tempMc : ℤ) (ts : List RunTick)
    (hts : (runner prof tempMc).Admitted (reflowRunStart prof tempMc) ts) :
    let start := reflowRunStart prof tempMc
    let r := (runner prof tempMc).run start ts
    (r.result = .active → r.stage < prof.nStages ∧
      r.stageMs ≤ (prof.stage r.stage).nominalMs + stageGraceMs (prof.stage r.stage) prof) ∧
    (∀ t, (runner prof tempMc).admits r t →
      let r' := reflowRunTick r prof t.dtMs t.tempMc t.rawMc
      r.stage ≤ r'.stage ∧ r'.stage ≤ r.stage + 1 ∧
      (r.stage < r'.stage → r.result = .active ∧
        (prof.stage r.stage).nominalMs ≤ r.stageMs + t.dtMs ∧ GoalMet prof r.stage t.tempMc)) ∧
    (∀ t : RunTick, r.result = .active → prof.abortMc ≤ t.rawMc ∨ prof.abortMc ≤ t.tempMc →
      reflowRunTick r prof t.dtMs t.tempMc t.rawMc = { r with result := .errOvertemp }) ∧
    (r.result = .done →
      (completions prof start ts).map StageCompletion.stage = List.range prof.nStages ∧
      (∀ c ∈ completions prof start ts,
        (prof.stage c.stage).nominalMs ≤ c.stageMs ∧ GoalMet prof c.stage c.tempMc) ∧
      reflowProfileNominalMs prof ≤ r.totalMs ∧
      ∀ t ∈ activeTicks prof start ts, t.rawMc < prof.abortMc ∧ t.tempMc < prof.abortMc) ∧
    (r.result ≠ .active → ∀ t : RunTick,
      reflowRunTick r prof t.dtMs t.tempMc t.rawMc = r) := by
  intro start r
  have hstart : ActiveInTime prof start := start_activeInTime hf
  obtain ⟨hr, hdone, hacc⟩ := run_preserves hf
    (I := fun r => DonePastEnd prof r ∧ Accounted prof r)
    (fun hs h => ⟨hs.donePastEnd h.1, hs.accounted h.2⟩)
    hstart ⟨nofun, start_accounted⟩ hts
  refine ⟨hr, ?_, ?_, ?_, ?_⟩
  · intro t ht
    have hs := reflowRunTick_refines hf hr ht
    refine ⟨hs.stage_bounds.1, hs.stage_bounds.2, fun hlt => ?_⟩
    obtain ⟨act, ripe, -⟩ := hs.ripe_of_stage_lt hlt
    exact ⟨act, ripe⟩
  · intro t act hot
    exact reflowRunTick_hot act (hr act).1 hot
  · intro hd
    obtain ⟨n, hn, hmap⟩ := completions_in_order hf hstart hts
    have hall : n = prof.nStages := by
      have := hdone hd
      have hzero : start.stage = 0 := rfl
      omega
    refine ⟨?_, completions_earned hf hstart hts, ?_, ?_⟩
    · rw [hmap, hall, List.range_eq_range']
      rfl
    · have htotal := hacc
      simp only [Accounted, hdone hd] at htotal
      rw [reflowProfileNominalMs_eq hf.nominal_fits]
      exact (Nat.le_add_right _ _).trans htotal
    · intro t ht
      have hne : ((runner prof tempMc).run start ts).result ≠ .errOvertemp := by
        rw [show ((runner prof tempMc).run start ts).result = .done from hd]
        exact nofun
      simpa [RunTick.Hot] using activeTicks_cold hf hstart hts hne t ht
  · intro hne t
    rw [reflowRunTick, if_pos hne]

/-- A bake whose three ticks each land on the end of a stage. -/
def bakeTicks : List RunTick :=
  [⟨120000, 120000, 120000⟩, ⟨1800000, 119000, 121000⟩, ⟨300000, 50000, 50000⟩]

/-- The completed bake, and what its completion is known to mean. -/
theorem run_really_executed_bake : ∃ prof, reflowProfileGet 2 = some prof ∧
    ((runner prof 25000).run (reflowRunStart prof 25000) bakeTicks).result = .done ∧
    (completions prof (reflowRunStart prof 25000) bakeTicks).map StageCompletion.stage =
      List.range 3 ∧
    reflowProfileNominalMs prof ≤
      ((runner prof 25000).run (reflowRunStart prof 25000) bakeTicks).totalMs := by
  refine ⟨_, rfl, by decide, ?_⟩
  have hf : Fits (builtin.get ⟨2, by decide⟩) :=
    ⟨by decide, by decide, by decide, by decide, by decide⟩
  have h := run_really_executed hf 25000 bakeTicks (by decide)
  obtain ⟨hmap, -, htotal, -⟩ := h.2.2.2.1 (by decide)
  exact ⟨hmap, htotal⟩

end ProfileRun
end ReflowOven
