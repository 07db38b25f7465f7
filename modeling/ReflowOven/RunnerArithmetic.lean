import ReflowOven.ProfileValidation
import ReflowOven.RunDurationBound
import ReflowOven.SpikeFilter

/-!
# When the arithmetic of the runner is exact

Validation bounds neither the stage times nor the tolerance from above, so an accepted
profile can still make a 32-bit sum of the runner wrap. The profiles for which no run over
plausible readings does so are characterised by their own fields: the sums have to fit, with
the longest stay of every stage that a run can reach, and so have the goal temperatures.
-/

namespace ReflowOven
namespace ProfileRun

/-- Readings that the temperature path lets through, and a tick of at most a second. -/
structure RunTick.InWindow (t : RunTick) : Prop where
  temp : SpikeFilter.Plausible t.tempMc
  raw : SpikeFilter.Plausible t.rawMc
  dt_le : t.dtMs ≤ 1000

/-- Every run of the profile over plausible readings. -/
def windowRunner (prof : ReflowProfile) : Machine ReflowRun RunTick where
  init r := ∃ tempMc, SpikeFilter.Plausible tempMc ∧ r = reflowRunStart prof tempMc
  admits _ t := t.InWindow
  step r t := reflowRunTick r prof t.dtMs t.tempMc t.rawMc

@[simp] theorem windowRunner_step (prof : ReflowProfile) (r : ReflowRun) (t : RunTick) :
    (windowRunner prof).step r t = reflowRunTick r prof t.dtMs t.tempMc t.rawMc := rfl

instance (prof : ReflowProfile) (i : ℕ) (tempMc : ℤ) : Decidable (GoalMet prof i tempMc) := by
  unfold GoalMet
  infer_instance

section Condition

variable (prof : ReflowProfile)

/-- The hottest plausible reading below the abort level. -/
def hottestCold : ℤ := min 400000 (prof.abortMc - 1)

/-- The cold reading that meets the goal of a stage if any does. -/
def easiestReading (i : ℕ) : ℤ :=
  if (prof.stage i).kind = .cool then -20000 else hottestCold prof

/-- The cold reading that misses the goal of a stage if any does. -/
def hardestReading (i : ℕ) : ℤ :=
  if (prof.stage i).kind = .cool then hottestCold prof else -20000

def Attainable (i : ℕ) : Prop := GoalMet prof i (easiestReading prof i)

def Missable (i : ℕ) : Prop := ¬GoalMet prof i (hardestReading prof i)

instance (i : ℕ) : Decidable (Missable prof i) := inferInstanceAs (Decidable (¬_))

instance (i : ℕ) : Decidable (Attainable prof i) := inferInstanceAs (Decidable (GoalMet _ _ _))

/-- Some run gets to the stage and takes a tick there. -/
def StageReached (k : ℕ) : Prop :=
  -20000 ≤ hottestCold prof ∧ ∀ i < k, Attainable prof i

/-- The longest a stage clock stands while its stage is held. -/
def lingerMs (i : ℕ) : ℕ :=
  if Missable prof i then deadlineMs prof i else (prof.stage i).nominalMs - 1

/-- The longest a run can take to leave the first `k` stages behind. -/
def longestMs (k : ℕ) : ℕ := ((List.range k).map fun i => lingerMs prof i + 1000).sum

/-- The profiles whose runs compute exactly. -/
structure Bounded : Prop where
  sums_fit : deadlineSum prof prof.nStages < 2 ^ 32
  clocks_fit : ∀ k < prof.nStages, StageReached prof k → longestMs prof (k + 1) < 2 ^ 32
  goals_fit : ∀ k < prof.nStages, StageReached prof k → (prof.stage k).kind ≠ .cool →
    -2 ^ 31 ≤ (prof.stage k).targetMc - prof.tolMc

end Condition

/-- Every computation of the runner on a profile gives the integer value, over all its runs,
so that a timeout and a completion mean what they say. -/
structure ExactArithmetic (prof : ReflowProfile) : Prop where
  nominal_sum : reflowProfileNominalMs prof = nominalSum prof prof.nStages
  max_sum : reflowProfileMaxMs prof = deadlineSum prof prof.nStages
  ticks : ∀ (r : ReflowRun) (t : RunTick), (windowRunner prof).Reachable r → t.InWindow →
    r.result = .active → r.stage < prof.nStages → ¬t.Hot prof → ExactTick prof r t
  timeouts : ∀ (r : ReflowRun) (t : RunTick), (windowRunner prof).Reachable r → t.InWindow →
    r.result = .active →
    (reflowRunTick r prof t.dtMs t.tempMc t.rawMc).result = .errTimeout →
    (prof.stage r.stage).nominalMs + stageGraceMs (prof.stage r.stage) prof < r.stageMs + t.dtMs
  completions : ∀ (r : ReflowRun) (t : RunTick), (windowRunner prof).Reachable r → t.InWindow →
    r.stage < (reflowRunTick r prof t.dtMs t.tempMc t.rawMc).stage →
    (prof.stage r.stage).nominalMs ≤ r.stageMs + t.dtMs ∧ GoalMet prof r.stage t.tempMc

variable {prof : ReflowProfile}

theorem longestMs_succ (prof : ReflowProfile) (k : ℕ) :
    longestMs prof (k + 1) = longestMs prof k + (lingerMs prof k + 1000) := by
  simp [longestMs, List.range_succ]

theorem RunTick.InWindow.cold_bounds {t : RunTick} (hwin : t.InWindow) (hcold : ¬t.Hot prof) :
    -20000 ≤ t.tempMc ∧ t.tempMc ≤ hottestCold prof := by
  have hcold' := not_hot_iff.mp hcold
  have htemp := hwin.temp
  simp only [SpikeFilter.Plausible] at htemp
  simp only [hottestCold]
  omega

theorem GoalMet.attainable {i : ℕ} {tempMc : ℤ} (h : GoalMet prof i tempMc)
    (hcold : -20000 ≤ tempMc ∧ tempMc ≤ hottestCold prof) : Attainable prof i := by
  by_cases hkind : (prof.stage i).kind = .cool
  · simp only [Attainable, GoalMet, easiestReading, hkind, if_true] at h ⊢
    exact hcold.1.trans h
  · simp only [Attainable, GoalMet, easiestReading, hkind, if_false] at h ⊢
    exact h.trans hcold.2

theorem missable_of_not_goalMet {i : ℕ} {tempMc : ℤ} (h : ¬GoalMet prof i tempMc)
    (hcold : -20000 ≤ tempMc ∧ tempMc ≤ hottestCold prof) : Missable prof i := by
  by_cases hkind : (prof.stage i).kind = .cool
  · simp only [Missable, GoalMet, hardestReading, hkind, if_true] at h ⊢
    exact fun hall => h (hcold.2.trans hall)
  · simp only [Missable, GoalMet, hardestReading, hkind, if_false] at h ⊢
    exact fun hall => h (hall.trans hcold.1)

theorem nominalMs_le_deadlineMs (prof : ReflowProfile) (i : ℕ) :
    (prof.stage i).nominalMs ≤ deadlineMs prof i := Nat.le_add_right _ _

theorem lingerMs_of_missable {i : ℕ} (h : Missable prof i) :
    lingerMs prof i = deadlineMs prof i := if_pos h

theorem le_lingerMs {i m : ℕ} (h : m < (prof.stage i).nominalMs) : m ≤ lingerMs prof i := by
  have := nominalMs_le_deadlineMs prof i
  simp only [lingerMs]
  split <;> omega

theorem lingerMs_le_deadlineMs (prof : ReflowProfile) (i : ℕ) :
    lingerMs prof i ≤ deadlineMs prof i := by
  have := nominalMs_le_deadlineMs prof i
  simp only [lingerMs]
  split <;> omega

theorem nominalMs_le_lingerMs (prof : ReflowProfile) (i : ℕ) :
    (prof.stage i).nominalMs ≤ lingerMs prof i + 1 := by
  have := nominalMs_le_deadlineMs prof i
  simp only [lingerMs]
  split <;> omega

/-- A run of a bounded profile: its stage was reached, and its clocks stand no higher than
the longest stays allow. -/
structure InBounds (prof : ReflowProfile) (r : ReflowRun) : Prop where
  inside : r.result = .active → r.stage < prof.nStages
  earlier : r.result = .active → ∀ i < r.stage, Attainable prof i
  stage_le : r.result = .active → r.stageMs ≤ lingerMs prof r.stage
  total_le : r.result = .active → r.totalMs ≤ longestMs prof r.stage + r.stageMs

theorem InBounds.start (hpos : 1 ≤ prof.nStages) (tempMc : ℤ) :
    InBounds prof (reflowRunStart prof tempMc) where
  inside _ := hpos
  earlier _ i hi := absurd hi (Nat.not_lt_zero i)
  stage_le _ := Nat.zero_le _
  total_le _ := Nat.zero_le _

theorem InBounds.reached {r : ReflowRun} {t : RunTick} (h : InBounds prof r)
    (hwin : t.InWindow) (act : r.result = .active) (hcold : ¬t.Hot prof) :
    StageReached prof r.stage :=
  ⟨(hwin.cold_bounds hcold).1.trans (hwin.cold_bounds hcold).2, h.earlier act⟩

/-- A tick inside the bounds is exact. -/
theorem InBounds.exact {r : ReflowRun} {t : RunTick} (hb : Bounded prof)
    (hrep : prof.Representable) (hvalid : prof.Valid) (h : InBounds prof r)
    (hwin : t.InWindow) (act : r.result = .active) (hcold : ¬t.Hot prof) :
    ExactTick prof r t := by
  have hinside := h.inside act
  have hreached := h.reached hwin act hcold
  have hsum := hb.clocks_fit _ hinside hreached
  have hstage := h.stage_le act
  have htotal := h.total_le act
  have hdt := hwin.dt_le
  rw [longestMs_succ] at hsum
  refine ⟨u32_eq (by omega), u32_eq (by omega), fun _ hkind => ?_, fun _ => ?_⟩
  · have hhigh := (hrep.stage r.stage).target_lt
    have htol := hvalid.tol_pos
    exact i32_eq (hb.goals_fit _ hinside hreached hkind) (by omega)
  · exact u32_eq ((deadlineMs_le_sum hinside).trans_lt hb.sums_fit)

theorem InBounds.runStep {r r' : ReflowRun} {t : RunTick} (h : InBounds prof r)
    (hwin : t.InWindow) (hstep : RunStep prof r t r') :
    InBounds prof r' := by
  cases hstep with
  | latched => exact h
  | abort | finish | timeout => exact ⟨nofun, nofun, nofun, nofun⟩
  | advance act cold ripe more =>
    have hattain := ripe.2.attainable (hwin.cold_bounds cold)
    have htotal := h.total_le act
    have hstage := h.stage_le act
    have hdt := hwin.dt_le
    refine ⟨fun _ => more, fun _ i hi => ?_, fun _ => Nat.zero_le _, fun _ => ?_⟩
    · rcases Nat.lt_succ_iff_lt_or_eq.mp hi with hlt | rfl
      · exact h.earlier act i hlt
      · exact hattain
    · simp only [entered, advanced, longestMs_succ]
      omega
  | hold act cold unripe inTime =>
    have htotal := h.total_le act
    refine ⟨fun _ => h.inside act, fun _ => h.earlier act, fun _ => ?_, fun _ => ?_⟩
    · -- past the nominal time only a missed goal holds a stage
      by_cases hnominal : (prof.stage r.stage).nominalMs ≤ r.stageMs + t.dtMs
      · have hmiss := missable_of_not_goalMet (fun hgoal => unripe ⟨hnominal, hgoal⟩)
          (hwin.cold_bounds cold)
        exact inTime.trans_eq (lingerMs_of_missable hmiss).symm
      · exact le_lingerMs (not_le.mp hnominal)
    · simp only [advanced]
      omega

/-- A bounded profile is exact: the bounds hold of every reachable state. -/
theorem Bounded.exact (hb : Bounded prof) (hrep : prof.Representable) (hvalid : prof.Valid) :
    ExactArithmetic prof := by
  have hcount := hrep.count_lt
  have hstep : ∀ (r : ReflowRun) (t : RunTick), InBounds prof r → t.InWindow →
      RunStep prof r t (reflowRunTick r prof t.dtMs t.tempMc t.rawMc) := fun r t h hwin =>
    ExactTick.runStep hcount h.inside (h.exact hb hrep hvalid hwin)
  have hinv : ∀ r, (windowRunner prof).Reachable r → InBounds prof r := by
    intro r hr
    refine hr.invariant ?_ (fun r t _ h hwin => h.runStep hwin (hstep r t h hwin))
    rintro _ ⟨tempMc, -, rfl⟩
    exact .start hvalid.stages_pos tempMc
  constructor
  · exact reflowProfileNominalMs_eq ((nominalSum_le_deadlineSum prof _).trans_lt hb.sums_fit)
  · exact reflowProfileMaxMs_eq hb.sums_fit
  · exact fun r t hr hwin act _ hcold => (hinv r hr).exact hb hrep hvalid hwin act hcold
  · exact fun r t hr hwin act hlate => (hstep r t (hinv r hr) hwin).late_of_timeout act hlate
  · exact fun r t hr hwin hlt => ((hstep r t (hinv r hr) hwin).ripe_of_stage_lt hlt).2.1

/-- A reachable run standing in stage `k` with the given clocks. -/
structure Standing (prof : ReflowProfile) (k stageMs totalMs : ℕ) (r : ReflowRun) : Prop where
  reachable : (windowRunner prof).Reachable r
  act : r.result = .active
  stage : r.stage = k
  stageMs : r.stageMs = stageMs
  totalMs : r.totalMs = totalMs

/-- A tick that gets past the abort check. -/
structure ColdTick (prof : ReflowProfile) (t : RunTick) : Prop where
  inWindow : t.InWindow
  cold : ¬t.Hot prof

theorem exists_coldTick {tempMc : ℤ} (hlow : -20000 ≤ tempMc)
    (hhigh : tempMc ≤ hottestCold prof) {dtMs : ℕ} (hdt : dtMs ≤ 1000) :
    ∃ t, ColdTick prof t ∧ t.dtMs = dtMs ∧ t.tempMc = tempMc := by
  have hwindow : SpikeFilter.Plausible tempMc := ⟨hlow, hhigh.trans (min_le_left _ _)⟩
  have hbelow : tempMc < prof.abortMc := by
    simp only [hottestCold] at hhigh
    omega
  exact ⟨⟨dtMs, tempMc, tempMc⟩,
    ⟨⟨hwindow, hwindow, hdt⟩, not_hot_iff.mpr ⟨hbelow, hbelow⟩⟩, rfl, rfl⟩

theorem readings_cold (hcold : -20000 ≤ hottestCold prof) (i : ℕ) :
    (-20000 ≤ easiestReading prof i ∧ easiestReading prof i ≤ hottestCold prof) ∧
      (-20000 ≤ hardestReading prof i ∧ hardestReading prof i ≤ hottestCold prof) := by
  simp only [easiestReading, hardestReading]
  split <;> omega

namespace ExactArithmetic

/-- Under exact arithmetic a cold tick of a standing run obeys the exact relation. -/
theorem standing_runStep (hx : ExactArithmetic prof) (hrep : prof.Representable)
    {k m total : ℕ} {r : ReflowRun} (h : Standing prof k m total r) (hk : k < prof.nStages)
    {t : RunTick} (ht : ColdTick prof t) :
    RunStep prof r t (reflowRunTick r prof t.dtMs t.tempMc t.rawMc) :=
  ExactTick.runStep hrep.count_lt (fun _ => h.stage ▸ hk)
    fun act hcold => hx.ticks r t h.reachable ht.inWindow act (h.stage ▸ hk) hcold

/-- A stage can be held for one millisecond more, up to its longest stay. -/
theorem linger_step (hx : ExactArithmetic prof) (hrep : prof.Representable)
    (hcold : -20000 ≤ hottestCold prof) {k m total : ℕ} {r : ReflowRun}
    (h : Standing prof k m total r) (hk : k < prof.nStages) (hm : m + 1 ≤ lingerMs prof k) :
    ∃ r', Standing prof k (m + 1) (total + 1) r' := by
  have hreading := (readings_cold hcold k).2
  obtain ⟨t, ht, hdt, htemp⟩ := exists_coldTick hreading.1 hreading.2 (by decide : 1 ≤ 1000)
  have hstep := hx.standing_runStep hrep h hk ht
  have hnext := h.reachable.next ht.inWindow
  obtain ⟨-, hact, hstage, hstageMs, htotalMs⟩ := h
  rw [windowRunner_step] at hnext
  generalize reflowRunTick r prof t.dtMs t.tempMc t.rawMc = r' at hstep hnext
  -- the goal is missed if it can be, and otherwise the nominal time has not passed
  have hunripe : ¬Ripe prof r t := by
    rintro ⟨hnominal, hgoal⟩
    rw [hstage, htemp] at hgoal
    have hlinger : lingerMs prof k = (prof.stage k).nominalMs - 1 :=
      if_neg (not_not.mpr hgoal)
    rw [hstage] at hnominal
    omega
  cases hstep with
  | latched ended => exact absurd hact ended
  | abort _ hot => exact absurd hot ht.cold
  | advance _ _ ripe | finish _ _ ripe => exact absurd ripe hunripe
  | timeout _ _ _ late =>
    have := lingerMs_le_deadlineMs prof k
    rw [hstage] at late
    omega
  | hold =>
    refine ⟨_, hnext, hact, hstage, ?_, ?_⟩
    · simp only [advanced, hstageMs, hdt]
    · simp only [advanced, htotalMs, hdt]

theorem linger (hx : ExactArithmetic prof) (hrep : prof.Representable)
    (hcold : -20000 ≤ hottestCold prof) {k total : ℕ} {r : ReflowRun}
    (h : Standing prof k 0 total r) (hk : k < prof.nStages) {m : ℕ}
    (hm : m ≤ lingerMs prof k) : ∃ r', Standing prof k m (total + m) r' := by
  induction m with
  | zero => exact ⟨r, h⟩
  | succ m ih =>
    obtain ⟨r', h'⟩ := ih (by omega)
    exact hx.linger_step hrep hcold h' hk hm

/-- After its longest stay a stage whose goal can be met is completed by one more tick. -/
theorem complete_step (hx : ExactArithmetic prof) (hrep : prof.Representable)
    (hcold : -20000 ≤ hottestCold prof) {k total : ℕ} {r : ReflowRun}
    (h : Standing prof k (lingerMs prof k) total r) (hk : k + 1 < prof.nStages)
    (hattain : Attainable prof k) : ∃ r', Standing prof (k + 1) 0 (total + 1000) r' := by
  have hreading := (readings_cold hcold k).1
  obtain ⟨t, ht, hdt, htemp⟩ := exists_coldTick hreading.1 hreading.2 (le_refl 1000)
  have hstep := hx.standing_runStep hrep h (by omega) ht
  have hnext := h.reachable.next ht.inWindow
  obtain ⟨-, hact, hstage, hstageMs, htotalMs⟩ := h
  rw [windowRunner_step] at hnext
  generalize reflowRunTick r prof t.dtMs t.tempMc t.rawMc = r' at hstep hnext
  have hripe : Ripe prof r t := by
    refine ⟨?_, ?_⟩
    · have := nominalMs_le_lingerMs prof k
      rw [hstage, hstageMs, hdt]
      omega
    · rw [hstage, htemp]
      exact hattain
  cases hstep with
  | latched ended => exact absurd hact ended
  | abort _ hot => exact absurd hot ht.cold
  | finish _ _ _ last => omega
  | timeout _ _ unripe | hold _ _ unripe => exact absurd hripe unripe
  | advance =>
    refine ⟨_, hnext, hact, ?_, rfl, ?_⟩
    · simp only [entered, hstage]
    · simp only [entered, advanced, htotalMs, hdt]

/-- Every stage that can be reached is reached by a run that took as long as it could. -/
theorem longest_run (hx : ExactArithmetic prof) (hrep : prof.Representable) {k : ℕ}
    (hk : k < prof.nStages) (hreached : StageReached prof k) :
    ∃ r, Standing prof k 0 (longestMs prof k) r := by
  induction k with
  | zero =>
    have hinit : (windowRunner prof).init (reflowRunStart prof 0) :=
      ⟨0, ⟨by decide, by decide⟩, rfl⟩
    exact ⟨_, .start hinit, rfl, rfl, rfl, rfl⟩
  | succ k ih =>
    obtain ⟨r, h⟩ := ih (by omega) ⟨hreached.1, fun i hi => hreached.2 i (by omega)⟩
    obtain ⟨r', h'⟩ := hx.linger hrep hreached.1 h (by omega) le_rfl
    rw [longestMs_succ, ← Nat.add_assoc]
    exact hx.complete_step hrep hreached.1 h' hk (hreached.2 k (Nat.lt_succ_self k))

/-- The tick after the longest stay in a stage that a run reaches. -/
theorem longest_tick (hx : ExactArithmetic prof) (hrep : prof.Representable) {k : ℕ}
    (hk : k < prof.nStages) (hreached : StageReached prof k) :
    longestMs prof (k + 1) < 2 ^ 32 ∧ ((prof.stage k).kind ≠ .cool →
      -2 ^ 31 ≤ (prof.stage k).targetMc - prof.tolMc) := by
  obtain ⟨r₀, h₀⟩ := hx.longest_run hrep hk hreached
  obtain ⟨r, h⟩ := hx.linger hrep hreached.1 h₀ hk le_rfl
  obtain ⟨t, ht, hdt, -⟩ := exists_coldTick hreached.1 le_rfl (le_refl 1000)
  have hexact := hx.ticks r t h.reachable ht.inWindow h.act (h.stage ▸ hk) ht.cold
  obtain ⟨-, hact, rfl, hstageMs, htotalMs⟩ := h
  constructor
  · have htotal := hexact.total_clock
    have hlt := u32_lt (r.totalMs + t.dtMs)
    rw [longestMs_succ]
    omega
  · intro hkind
    have := nominalMs_le_lingerMs prof r.stage
    rw [← hexact.goal (by omega) hkind]
    exact le_i32 _

end ExactArithmetic

/-- Validation accepted the profile; its runs over plausible readings compute exactly if and
only if the profile is bounded. -/
theorem exactArithmetic_iff_bounded (prof : ReflowProfile) (hrep : prof.Representable)
    (absMaxMc : ℤ) (hv : reflowProfileValidate (some prof) absMaxMc = .ok) :
    ExactArithmetic prof ↔ Bounded prof := by
  obtain ⟨hvalid, -⟩ := (reflowProfileValidate_ok_iff prof absMaxMc).mp hv
  refine ⟨fun hx => ⟨?_, ?_, ?_⟩, fun hb => hb.exact hrep hvalid⟩
  · exact hx.max_sum ▸ reflowProfileMaxMs_lt hvalid.stages_pos
  · exact fun k hk hreached => (hx.longest_tick hrep hk hreached).1
  · exact fun k hk hreached => (hx.longest_tick hrep hk hreached).2

/-- Every built-in profile is bounded. -/
theorem builtin_bounded : ∀ prof ∈ builtin, Bounded prof := by
  have hfits : ∀ prof ∈ builtin, deadlineSum prof prof.nStages < 2 ^ 32 ∧
      ∀ k < prof.nStages, longestMs prof (k + 1) < 2 ^ 32 ∧
        -2 ^ 31 ≤ (prof.stage k).targetMc - prof.tolMc := by
    decide
  intro prof hprof
  obtain ⟨hsums, hstages⟩ := hfits prof hprof
  exact ⟨hsums, fun k hk _ => (hstages k hk).1, fun k hk _ _ => (hstages k hk).2⟩

theorem exactArithmetic_sac305 : ∃ prof, reflowProfileGet 0 = some prof ∧
    ExactArithmetic prof := by
  refine ⟨_, rfl, ?_⟩
  exact (exactArithmetic_iff_bounded (builtin.get ⟨0, by decide⟩) (by decide) 270000
    (by decide)).mpr (builtin_bounded _ (by decide))

/-- A stage of the longest possible nominal time, with a grace of one millisecond. -/
def wrappedDeadline : ReflowProfile where
  name := charArray reflowProfileNameLen "dry for 49 days"
  nStages := 1
  stages := [⟨charArray reflowStageNameLen "hold", 60000, 4294967295, .soak⟩]
  abortMc := 100000
  tolMc := 3000
  graceMs := 1

/-- Its deadline wraps to zero, and the first tick is declared a timeout. -/
theorem wrapped_deadline_times_out : wrappedDeadline.Representable ∧
    reflowProfileValidate (some wrappedDeadline) 270000 = .ok ∧
    reflowProfileMaxMs wrappedDeadline = 0 ∧
    let r := reflowRunTick (reflowRunStart wrappedDeadline 25000) wrappedDeadline 1000 25000 25000
    r.result = .errTimeout ∧ r.stageMs = 1000 ∧ deadlineMs wrappedDeadline 0 = 4294967296 := by
  decide

end ProfileRun
end ReflowOven
