import ReflowOven.ProfileRunCompletion

/-!
# How long a run can last

`reflow_profile_max_ms` adds up the deadlines of the stages. A tick tests completion
before it tests the deadline, so a stage may still be completed after its deadline has
passed; runs without such a tick stay inside the bound, and a profile whose first stage
can be completed at all has a run that does not.
-/

namespace ReflowOven
namespace ProfileRun

/-- The deadlines of the first `k` stages together. -/
def deadlineSum (prof : ReflowProfile) (k : ℕ) : ℕ :=
  ((List.range k).map (deadlineMs prof)).sum

variable {prof : ReflowProfile} {tempMc : ℤ}

@[simp] theorem deadlineSum_zero : deadlineSum prof 0 = 0 := rfl

theorem deadlineSum_succ (prof : ReflowProfile) (k : ℕ) :
    deadlineSum prof (k + 1) = deadlineSum prof k + deadlineMs prof k := by
  simp [deadlineSum, List.range_succ]

theorem deadlineSum_mono (prof : ReflowProfile) {k n : ℕ} (h : k ≤ n) :
    deadlineSum prof k ≤ deadlineSum prof n := by
  induction n, h using Nat.le_induction with
  | base => exact le_rfl
  | succ n _ ih => exact ih.trans (by rw [deadlineSum_succ]; exact Nat.le_add_right _ _)

theorem deadlineMs_le_sum {k n : ℕ} (h : k < n) : deadlineMs prof k ≤ deadlineSum prof n := by
  have hsum := deadlineSum_mono prof (Nat.succ_le_of_lt h)
  rw [Nat.succ_eq_add_one, deadlineSum_succ] at hsum
  omega

theorem deadlineSum_eq (prof : ReflowProfile) (k : ℕ) : deadlineSum prof k =
    nominalSum prof k + ((List.range k).map fun i => stageGraceMs (prof.stage i) prof).sum := by
  induction k with
  | zero => rfl
  | succ k ih =>
    rw [deadlineSum_succ, nominalSum_succ, ih]
    simp only [List.range_succ, List.map_append, List.map_singleton, List.sum_append,
      List.sum_singleton, deadlineMs]
    omega

theorem nominalSum_le_deadlineSum (prof : ReflowProfile) (k : ℕ) :
    nominalSum prof k ≤ deadlineSum prof k := by
  rw [deadlineSum_eq]
  exact Nat.le_add_right _ _

/-- The bound is the sum of the deadlines when that sum fits. -/
theorem reflowProfileMaxMs_eq (hfit : deadlineSum prof prof.nStages < 2 ^ 32) :
    reflowProfileMaxMs prof = deadlineSum prof prof.nStages := by
  rw [reflowProfileMaxMs,
    reflowProfileNominalMs_eq ((nominalSum_le_deadlineSum prof _).trans_lt hfit)]
  rw [deadlineSum_eq] at hfit ⊢
  exact foldl_u32_add _ _ hfit

theorem reflowProfileMaxMs_lt (hpos : 1 ≤ prof.nStages) : reflowProfileMaxMs prof < 2 ^ 32 := by
  obtain ⟨k, hk⟩ := Nat.exists_eq_add_of_le' hpos
  rw [reflowProfileMaxMs, hk, List.range_succ, List.foldl_append]
  exact u32_lt _

/-- A tick that completes a stage before the last one does so while the total clock is
still inside the deadlines of the stages completed so far. -/
def Punctual (prof : ReflowProfile) (r : ReflowRun) (t : RunTick) : Prop :=
  r.result = .active → r.stage + 1 < prof.nStages → ¬t.Hot prof →
    stageComplete (prof.stage r.stage) prof (r.clocked t.dtMs) t.tempMc = true →
    r.totalMs + t.dtMs ≤ deadlineSum prof (r.stage + 1)

instance (prof : ReflowProfile) (r : ReflowRun) (t : RunTick) : Decidable (Punctual prof r t) :=
  inferInstanceAs (Decidable (_ → _ → _ → _ → _))

/-- While a run is active, its total clock is inside the deadlines of the stages left
behind and the time spent in the present one, which is inside its own. -/
def OnTime (prof : ReflowProfile) (r : ReflowRun) : Prop :=
  r.result = .active → r.stage < prof.nStages ∧ r.stageMs ≤ deadlineMs prof r.stage ∧
    r.totalMs ≤ deadlineSum prof r.stage + r.stageMs

theorem OnTime.le_max {r : ReflowRun} (h : OnTime prof r)
    (hfit : deadlineSum prof prof.nStages < 2 ^ 32) (act : r.result = .active) :
    r.totalMs ≤ reflowProfileMaxMs prof := by
  obtain ⟨hstage, hdead, htotal⟩ := h act
  have hsum := deadlineSum_mono prof (Nat.succ_le_of_lt hstage)
  rw [Nat.succ_eq_add_one, deadlineSum_succ] at hsum
  rw [reflowProfileMaxMs_eq hfit]
  omega

theorem OnTime.start (hpos : 1 ≤ prof.nStages) : OnTime prof (reflowRunStart prof tempMc) :=
  fun _ => ⟨hpos, Nat.zero_le _, Nat.zero_le _⟩

/-- A punctual tick keeps the run on time. -/
theorem OnTime.step (hfit : deadlineSum prof prof.nStages < 2 ^ 32)
    (hcount : prof.nStages ≤ reflowMaxStages) {r : ReflowRun} {t : RunTick} (h : OnTime prof r)
    (ht : (runner prof tempMc).admits r t) (hp : Punctual prof r t) :
    OnTime prof ((runner prof tempMc).step r t) := by
  simp only [runner_step]
  have hle : prof.nStages ≤ 8 := hcount
  generalize hr' : reflowRunTick r prof t.dtMs t.tempMc t.rawMc = r'
  have hticked := hr' ▸ reflowRunTick_ticked r prof t.dtMs t.tempMc t.rawMc
  cases hticked with
  | latched ended => exact fun act => absurd act ended
  | past | abort | finish | timeout => exact nofun
  | advance act inside cold complete more =>
    have hu8 : u8 (r.stage + 1) = r.stage + 1 := u8_eq (by omega)
    obtain ⟨-, htotal⟩ := ht act
    rw [hu8] at more
    have hsum := hp act more (not_hot_iff.mpr cold) complete
    intro _
    simp only [ReflowRun.entering, ReflowRun.clocked, hu8, u32_eq htotal]
    exact ⟨more, Nat.zero_le _, by omega⟩
  | hold act inside cold open' inTime =>
    obtain ⟨hstage, htotal⟩ := ht act
    obtain ⟨-, -, hsum⟩ := h act
    have hdead : u32 ((prof.stage r.stage).nominalMs + stageGraceMs (prof.stage r.stage) prof) =
        deadlineMs prof r.stage := u32_eq ((deadlineMs_le_sum inside).trans_lt hfit)
    simp only [ReflowRun.clocked, u32_eq hstage, hdead] at inTime
    intro _
    simp only [ReflowRun.clocked, u32_eq hstage, u32_eq htotal]
    exact ⟨inside, inTime, by omega⟩

/-- The bound, at every state of one run. -/
def BoundsRun (prof : ReflowProfile) (tempMc : ℤ) (ts : List RunTick) : Prop :=
  ∀ r ∈ (runner prof tempMc).visited (reflowRunStart prof tempMc) ts,
    r.result = .active → r.totalMs ≤ reflowProfileMaxMs prof

theorem boundsRun_of_punctual (hpos : 1 ≤ prof.nStages) (hcount : prof.nStages ≤ reflowMaxStages)
    (hfit : deadlineSum prof prof.nStages < 2 ^ 32) {ts : List RunTick}
    (hts : ((runner prof tempMc).restrict (Punctual prof)).Admitted
      (reflowRunStart prof tempMc) ts) : BoundsRun prof tempMc ts := by
  have honTime := Machine.visited_invariant_restrict (I := OnTime prof)
    (fun r t h ha hpunctual => h.step hfit hcount ha hpunctual) (OnTime.start hpos) hts
  exact fun r hr => (honTime r hr).le_max hfit

/-- A reading below the abort level never completes the first stage. -/
def FirstStageStuck (prof : ReflowProfile) : Prop :=
  ∀ t : RunTick, t.Readable → goalReached (prof.stage 0) prof t.tempMc = true → t.Hot prof

/-- A run that cannot complete its first stage stays in it, and on time. -/
theorem FirstStageStuck.step (hstuck : FirstStageStuck prof) (tempMc : ℤ) {r : ReflowRun}
    {t : RunTick} (hread : t.Readable) (h : r.result = .active → r.stage = 0) :
    Punctual prof r t ∧ (((runner prof tempMc).step r t).result = .active →
      ((runner prof tempMc).step r t).stage = 0) := by
  have hopen : r.result = .active → ¬t.Hot prof →
      stageComplete (prof.stage r.stage) prof (r.clocked t.dtMs) t.tempMc = false := by
    intro act hcold
    rw [h act, ← Bool.not_eq_true, stageComplete_eq_true_iff]
    exact fun hc => hcold (hstuck t hread hc.2)
  constructor
  · intro act _ hcold complete
    exact absurd complete (by simp [hopen act hcold])
  simp only [runner_step]
  generalize hr' : reflowRunTick r prof t.dtMs t.tempMc t.rawMc = r'
  have hticked := hr' ▸ reflowRunTick_ticked r prof t.dtMs t.tempMc t.rawMc
  cases hticked with
  | latched => exact h
  | past | abort | finish | timeout => exact nofun
  | advance act inside cold complete more =>
    exact absurd complete (by simp [hopen act (not_hot_iff.mpr cold)])
  | hold act => exact fun _ => h act

/-- Where no tick breaks the condition, every admitted run meets it. -/
theorem FirstStageStuck.admitted (hstuck : FirstStageStuck prof) {r : ReflowRun}
    (h : r.result = .active → r.stage = 0) {ts : List RunTick} (hread : ∀ t ∈ ts, t.Readable)
    (hts : (runner prof tempMc).Admitted r ts) :
    ((runner prof tempMc).restrict (Punctual prof)).Admitted r ts := by
  induction ts generalizing r with
  | nil => trivial
  | cons t ts ih =>
    rw [List.forall_mem_cons] at hread
    obtain ⟨hpunctual, hnext⟩ := hstuck.step tempMc hread.1 h
    exact ⟨⟨hts.1, hpunctual⟩, ih hnext hread.2 hts.2⟩

theorem runner_totalMs_lt (r : ReflowRun) (t : RunTick) (h : r.totalMs < 2 ^ 32) :
    ((runner prof tempMc).step r t).totalMs < 2 ^ 32 := by
  simp only [runner_step]
  generalize hr' : reflowRunTick r prof t.dtMs t.tempMc t.rawMc = r'
  have hticked := hr' ▸ reflowRunTick_ticked r prof t.dtMs t.tempMc t.rawMc
  cases hticked with
  | latched | past | abort => exact h
  | advance | finish | timeout | hold => exact u32_lt _

/-- A first tick one millisecond longer than the whole bound, whose reading completes the
first stage, leaves the run active past the bound. -/
theorem late_tick_breaks (tempMc : ℤ) (htwo : 1 < prof.nStages)
    (hfit : deadlineSum prof prof.nStages + 1 < 2 ^ 32) (t : RunTick)
    (hdt : t.dtMs = deadlineSum prof prof.nStages + 1)
    (hgoal : goalReached (prof.stage 0) prof t.tempMc = true) (hcold : ¬t.Hot prof) :
    (runner prof tempMc).Admitted (reflowRunStart prof tempMc) [t] ∧
      ¬BoundsRun prof tempMc [t] := by
  have hclock : u32 (0 + t.dtMs) = t.dtMs := by
    rw [Nat.zero_add]
    exact u32_eq (hdt ▸ hfit)
  have hcomplete : stageComplete (prof.stage 0) prof
      ((reflowRunStart prof tempMc).clocked t.dtMs) t.tempMc = true := by
    rw [stageComplete_eq_true_iff]
    have hnominal : deadlineMs prof 0 ≤ deadlineSum prof prof.nStages :=
      deadlineMs_le_sum (by omega)
    simp only [deadlineMs] at hnominal
    simp only [ReflowRun.clocked, reflowRunStart, hclock]
    exact ⟨by omega, hgoal⟩
  refine ⟨⟨fun _ => ?_, trivial⟩, fun hbound => ?_⟩
  · simp only [reflowRunStart]
    omega
  have hlast := hbound _ (List.mem_cons_of_mem _ (Machine.mem_visited_self _ _))
  rw [reflowProfileMaxMs_eq (by omega), runner_step] at hlast
  generalize hr' : reflowRunTick (reflowRunStart prof tempMc) prof t.dtMs t.tempMc t.rawMc = r'
    at hlast
  have hticked := hr' ▸ reflowRunTick_ticked (reflowRunStart prof tempMc) prof t.dtMs t.tempMc
    t.rawMc
  cases hticked with
  | latched ended => exact ended rfl
  | past act past => exact absurd htwo (not_lt.mpr (past.trans (Nat.zero_le 1)))
  | abort act inside hot => exact hcold hot
  | advance =>
    have htotal := hlast rfl
    simp only [ReflowRun.entering, ReflowRun.clocked, reflowRunStart, hclock] at htotal
    omega
  | finish act inside cold complete last => exact absurd htwo (not_lt.mpr last)
  | timeout act inside cold open' | hold act inside cold open' =>
    cases hcomplete.symm.trans open'

/-- A run without a late completion keeps to the bound at every state; and the bound holds
of all runs exactly when no completion can be late: the profile has one stage, the bound is
the largest value of the clock, or the first stage cannot be completed below the abort level. -/
theorem max_ms_bounds_run_iff (prof : ReflowProfile) (hpos : 1 ≤ prof.nStages)
    (hcount : prof.nStages ≤ reflowMaxStages) (hfit : deadlineSum prof prof.nStages < 2 ^ 32) :
    (∀ tempMc ts, ((runner prof tempMc).restrict (Punctual prof)).Admitted
        (reflowRunStart prof tempMc) ts →
      ∀ r ∈ (runner prof tempMc).visited (reflowRunStart prof tempMc) ts,
        r.result = .active → r.totalMs ≤ reflowProfileMaxMs prof) ∧
    ((∀ tempMc ts, (∀ t ∈ ts, t.Readable) →
        (runner prof tempMc).Admitted (reflowRunStart prof tempMc) ts →
      ∀ r ∈ (runner prof tempMc).visited (reflowRunStart prof tempMc) ts,
        r.result = .active → r.totalMs ≤ reflowProfileMaxMs prof) ↔
      prof.nStages = 1 ∨ reflowProfileMaxMs prof = 2 ^ 32 - 1 ∨ FirstStageStuck prof) := by
  refine ⟨fun tempMc ts hts => boundsRun_of_punctual hpos hcount hfit hts, ?_, ?_⟩
  · intro hall
    by_contra hnot
    push Not at hnot
    obtain ⟨hmany, hmax, hfree⟩ := hnot
    rw [reflowProfileMaxMs_eq hfit] at hmax
    simp only [FirstStageStuck] at hfree
    push Not at hfree
    obtain ⟨t, hread, hgoal, hcold⟩ := hfree
    have hlate := late_tick_breaks 0 (by omega) (by omega)
      { t with dtMs := deadlineSum prof prof.nStages + 1 } rfl hgoal hcold
    refine hlate.2 (hall 0 _ ?_ hlate.1)
    simpa [RunTick.Readable] using hread
  · rintro (hone | hmax | hstuck) tempMc ts hread hts
    · refine boundsRun_of_punctual hpos hcount hfit
        (Machine.admitted_restrict (I := fun _ => True) (fun _ _ _ _ => trivial) ?_ trivial hts)
      intro r t _ _ _ hmore
      omega
    · have htotal := Machine.visited_invariant (I := fun r => r.totalMs < 2 ^ 32)
        (fun r t h _ => runner_totalMs_lt r t h)
        (show (reflowRunStart prof tempMc).totalMs < 2 ^ 32 by simp [reflowRunStart]) hts
      intro r hr _
      have := htotal r hr
      omega
    · exact boundsRun_of_punctual hpos hcount hfit (hstuck.admitted (fun _ => rfl) hread hts)

/-- A preheat that ends on its nominal second and a soak that has just begun. -/
def onTimeTicks : List RunTick := [⟨90000, 149000, 149500⟩, ⟨45000, 165000, 165000⟩]

theorem max_ms_bounds_run_iff_sac305 : ∃ prof, reflowProfileGet 0 = some prof ∧
    (∀ r ∈ (runner prof 25000).visited (reflowRunStart prof 25000) onTimeTicks,
      r.result = .active → r.totalMs ≤ reflowProfileMaxMs prof) ∧
    (prof.nStages = 1 ∨ reflowProfileMaxMs prof = 2 ^ 32 - 1 ∨ FirstStageStuck prof ↔
      ∀ tempMc ts, (∀ t ∈ ts, t.Readable) →
        (runner prof tempMc).Admitted (reflowRunStart prof tempMc) ts →
      ∀ r ∈ (runner prof tempMc).visited (reflowRunStart prof tempMc) ts,
        r.result = .active → r.totalMs ≤ reflowProfileMaxMs prof) := by
  refine ⟨_, rfl, ?_⟩
  have h := max_ms_bounds_run_iff (builtin.get ⟨0, by decide⟩) (by decide) (by decide)
    (by decide)
  exact ⟨h.1 25000 onTimeTicks (by decide), h.2.symm⟩

/-- Fifty minutes at the preheat target: the stage is completed, and the run goes on past
the whole bound. -/
theorem sac305_outlives_max_ms : ∃ prof, reflowProfileGet 0 = some prof ∧
    1 ≤ prof.nStages ∧ prof.nStages ≤ reflowMaxStages ∧
    deadlineSum prof prof.nStages < 2 ^ 32 ∧
    (runner prof 25000).Admitted (reflowRunStart prof 25000) [⟨3000000, 150000, 150000⟩] ∧
    let r := (runner prof 25000).run (reflowRunStart prof 25000) [⟨3000000, 150000, 150000⟩]
    r.result = .active ∧ r.totalMs = 3000000 ∧ reflowProfileMaxMs prof = 2490000 :=
  ⟨_, rfl, by decide⟩

end ProfileRun
end ReflowOven
