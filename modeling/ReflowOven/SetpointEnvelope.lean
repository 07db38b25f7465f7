import Mathlib.Algebra.Order.Ring.Abs
import ReflowOven.LinearInterpolation
import ReflowOven.ProfileRunCompletion
import ReflowOven.ProfileValidation

/-!
# The setpoint stays inside its stage

`stage_setpoint` interpolates in 64 bits. A span has 33 bits and a stage time 32, so their
product can leave 64 bits when both are near their largest values; every run without such
a product has the setpoint of the exact interpolation.
-/

namespace ReflowOven
namespace ProfileRun

/-- The time a ramp has used of its nominal time. -/
def rampElapsed (run : ReflowRun) (st : ReflowStage) : ℕ := min run.stageMs st.nominalMs

/-- The product of `stage_setpoint` is inside 64 bits. -/
def ProductFits (run : ReflowRun) (st : ReflowStage) : Prop :=
  -2 ^ 63 ≤ (st.targetMc - run.stageStartMc) * rampElapsed run st ∧
    (st.targetMc - run.stageStartMc) * rampElapsed run st < 2 ^ 63

instance (run : ReflowRun) (st : ReflowStage) : Decidable (ProductFits run st) :=
  inferInstanceAs (Decidable (_ ∧ _))

theorem stageSetpoint_ramp {run : ReflowRun} {st : ReflowStage} (hkind : st.kind = .ramp)
    (hnominal : 0 < st.nominalMs) : stageSetpoint run st =
      i32 (run.stageStartMc + (i64 ((st.targetMc - run.stageStartMc) * rampElapsed run st)).tdiv
        st.nominalMs) := by
  have helapsed : (if run.stageMs > st.nominalMs then (st.nominalMs : ℤ) else run.stageMs) =
      rampElapsed run st := by
    simp only [rampElapsed]
    split <;> omega
  simp only [stageSetpoint, hkind, helapsed, Nat.ne_of_gt hnominal, if_false]

theorem stageSetpoint_not_ramp {run : ReflowRun} {st : ReflowStage} (hkind : st.kind ≠ .ramp) :
    stageSetpoint run st = st.targetMc := by
  simp only [stageSetpoint]
  cases h : st.kind with
  | ramp => exact absurd h hkind
  | soak => rfl
  | cool => rfl

/-- Where the product fits, every conversion of a ramp is exact. -/
theorem stageSetpoint_eq_interpolate {run : ReflowRun} {st : ReflowStage}
    (hkind : st.kind = .ramp) (hnominal : 0 < st.nominalMs) (hst : st.Representable)
    (hstart : -2 ^ 31 ≤ run.stageStartMc ∧ run.stageStartMc < 2 ^ 31)
    (hfits : ProductFits run st) : stageSetpoint run st =
      interpolate run.stageStartMc st.targetMc (rampElapsed run st) st.nominalMs := by
  have hmem := interpolate_mem (a := run.stageStartMc) (b := st.targetMc)
    (k := rampElapsed run st) (n := st.nominalMs) (by omega) (by omega)
    (by simp only [rampElapsed]; omega)
  have hlow := hst.target_ge
  have hhigh := hst.target_lt
  rw [stageSetpoint_ramp hkind hnominal, i64_eq hfits.1 hfits.2]
  exact i32_eq (le_trans (le_min hstart.1 hlow) hmem.1)
    (lt_of_le_of_lt hmem.2 (max_lt hstart.2 hhigh))

/-- The envelope of the stage a run is in, and no conversion that loses bits. -/
structure InEnvelope (run : ReflowRun) (st : ReflowStage) : Prop where
  between : st.kind = .ramp → min run.stageStartMc st.targetMc ≤ run.setpointMc ∧
    run.setpointMc ≤ max run.stageStartMc st.targetMc
  at_start : st.kind = .ramp → run.stageMs = 0 → run.setpointMc = run.stageStartMc
  at_target : st.kind = .ramp → st.nominalMs ≤ run.stageMs → run.setpointMc = st.targetMc
  lossless : st.kind = .ramp → ProductFits run st ∧
    run.setpointMc = interpolate run.stageStartMc st.targetMc (rampElapsed run st) st.nominalMs
  held : st.kind ≠ .ramp → run.setpointMc = st.targetMc

theorem inEnvelope_iff {run : ReflowRun} {st : ReflowStage} (hnominal : 0 < st.nominalMs)
    (hst : st.Representable)
    (hstart : -2 ^ 31 ≤ run.stageStartMc ∧ run.stageStartMc < 2 ^ 31)
    (hset : run.setpointMc = stageSetpoint run st) :
    InEnvelope run st ↔ (st.kind = .ramp → ProductFits run st) := by
  constructor
  · exact fun h hkind => (h.lossless hkind).1
  · intro hfits
    have hexact : st.kind = .ramp → run.setpointMc =
        interpolate run.stageStartMc st.targetMc (rampElapsed run st) st.nominalMs :=
      fun hkind => hset.trans
        (stageSetpoint_eq_interpolate hkind hnominal hst hstart (hfits hkind))
    constructor
    · intro hkind
      rw [hexact hkind]
      exact interpolate_mem (by omega) (by omega) (by simp only [rampElapsed]; omega)
    · intro hkind hzero
      rw [hexact hkind, show rampElapsed run st = 0 by simp [rampElapsed, hzero]]
      exact interpolate_zero _ _ _
    · intro hkind hpast
      rw [hexact hkind, show rampElapsed run st = st.nominalMs from Nat.min_eq_right hpast]
      exact interpolate_self _ _ (by omega)
    · exact fun hkind => ⟨hfits hkind, hexact hkind⟩
    · exact fun hkind => hset.trans (stageSetpoint_not_ramp hkind)

/-- The runner over 32-bit readings, as long as the stage clock does not wrap. -/
def stageClockRunner (prof : ReflowProfile) (tempMc : ℤ) : Machine ReflowRun RunTick where
  init r := r = reflowRunStart prof tempMc
  admits r t := t.Readable ∧ (r.result = .active → r.stageMs + t.dtMs < 2 ^ 32)
  step r t := reflowRunTick r prof t.dtMs t.tempMc t.rawMc

@[simp] theorem stageClockRunner_step (prof : ReflowProfile) (tempMc : ℤ) (r : ReflowRun)
    (t : RunTick) :
    (stageClockRunner prof tempMc).step r t = reflowRunTick r prof t.dtMs t.tempMc t.rawMc := rfl

instance (prof : ReflowProfile) (tempMc : ℤ) (r : ReflowRun) (t : RunTick) :
    Decidable ((stageClockRunner prof tempMc).admits r t) :=
  inferInstanceAs (Decidable (_ ∧ (_ → _)))

/-- The tick leaves the run active in the stage it is in. -/
structure KeepsStage (prof : ReflowProfile) (r : ReflowRun) (t : RunTick) : Prop where
  act : r.result = .active
  inside : r.stage < prof.nStages
  cold : ¬t.Hot prof
  open' : stageComplete (prof.stage r.stage) prof (r.clocked t.dtMs) t.tempMc = false
  inTime : (r.clocked t.dtMs).stageMs ≤
    u32 ((prof.stage r.stage).nominalMs + stageGraceMs (prof.stage r.stage) prof)

theorem keepsStage_iff {prof : ReflowProfile} {r : ReflowRun} {t : RunTick} :
    KeepsStage prof r t ↔ r.result = .active ∧ r.stage < prof.nStages ∧ ¬t.Hot prof ∧
      stageComplete (prof.stage r.stage) prof (r.clocked t.dtMs) t.tempMc = false ∧
      (r.clocked t.dtMs).stageMs ≤
        u32 ((prof.stage r.stage).nominalMs + stageGraceMs (prof.stage r.stage) prof) :=
  ⟨fun h => ⟨h.act, h.inside, h.cold, h.open', h.inTime⟩,
    fun ⟨act, inside, cold, open', inTime⟩ => ⟨act, inside, cold, open', inTime⟩⟩

instance (prof : ReflowProfile) (r : ReflowRun) (t : RunTick) :
    Decidable (KeepsStage prof r t) := decidable_of_iff' _ keepsStage_iff

/-- A tick that keeps the run in a ramp leaves span times elapsed time inside 64 bits. -/
def Narrow (prof : ReflowProfile) (r : ReflowRun) (t : RunTick) : Prop :=
  KeepsStage prof r t → (prof.stage r.stage).kind = .ramp →
    ProductFits (r.clocked t.dtMs) (prof.stage r.stage)

instance (prof : ReflowProfile) (r : ReflowRun) (t : RunTick) : Decidable (Narrow prof r t) :=
  inferInstanceAs (Decidable (_ → _ → _))

structure Entered (prof : ReflowProfile) (r : ReflowRun) : Prop where
  start_ge : -2 ^ 31 ≤ r.stageStartMc
  start_lt : r.stageStartMc < 2 ^ 31
  setpoint : r.result = .active → r.stage < prof.nStages →
    r.setpointMc = stageSetpoint r (prof.stage r.stage)
  below : r.result = .active → 1 ≤ r.stage →
    r.stage < prof.nStages ∧ r.stageStartMc < prof.abortMc

/-- The envelope of whatever stage an active run is in. -/
def Enveloped (prof : ReflowProfile) (r : ReflowRun) : Prop :=
  r.result = .active → r.stage < prof.nStages → InEnvelope r (prof.stage r.stage)

/-- From tick to tick of one ramp the setpoint moves towards the target only. -/
def Moves (prof : ReflowProfile) (r r' : ReflowRun) : Prop :=
  r.result = .active → r'.result = .active → r'.stage = r.stage → r.stage < prof.nStages →
    (prof.stage r.stage).kind = .ramp → r'.stageStartMc = r.stageStartMc ∧
      (r.stageStartMc ≤ (prof.stage r.stage).targetMc → r.setpointMc ≤ r'.setpointMc) ∧
      ((prof.stage r.stage).targetMc ≤ r.stageStartMc → r'.setpointMc ≤ r.setpointMc)

variable {prof : ReflowProfile} {tempMc : ℤ}

theorem Entered.start (prof : ReflowProfile) (hlow : -2 ^ 31 ≤ tempMc) (hhigh : tempMc < 2 ^ 31) :
    Entered prof (reflowRunStart prof tempMc) where
  start_ge := hlow
  start_lt := hhigh
  setpoint _ hs := if_pos hs
  below _ hs := absurd hs (by simp [reflowRunStart])

/-- A tick keeps what is known of the entry, and on entering a ramp the product is zero. -/
theorem Entered.step {r : ReflowRun} {t : RunTick} (h : Entered prof r)
    (ht : (stageClockRunner prof tempMc).admits r t) :
    Entered prof ((stageClockRunner prof tempMc).step r t) := by
  rw [stageClockRunner_step]
  generalize hr' : reflowRunTick r prof t.dtMs t.tempMc t.rawMc = r'
  have hticked := hr' ▸ reflowRunTick_ticked r prof t.dtMs t.tempMc t.rawMc
  cases hticked with
  | latched => exact h
  | past | abort | finish | timeout => exact ⟨h.start_ge, h.start_lt, nofun, nofun⟩
  | advance act inside cold complete more =>
    exact ⟨ht.1.1.1, ht.1.1.2, fun _ _ => rfl, fun _ _ => ⟨more, cold.2⟩⟩
  | hold act inside =>
    exact ⟨h.start_ge, h.start_lt, fun _ _ => rfl, fun _ hs => ⟨inside, (h.below act hs).2⟩⟩

/-- A stage of at most 2^31 ms (24 days) cannot overflow, whatever its end points. -/
theorem Entered.narrow (hrep : prof.Representable)
    (hshort : ∀ i < prof.nStages, (prof.stage i).nominalMs ≤ 2 ^ 31) {r : ReflowRun}
    (h : Entered prof r) (t : RunTick) : Narrow prof r t := by
  intro hk _
  have hspan : |(prof.stage r.stage).targetMc - r.stageStartMc| ≤ 2 ^ 32 - 1 := by
    have := (hrep.stage r.stage).target_ge
    have := (hrep.stage r.stage).target_lt
    have := h.start_ge
    have := h.start_lt
    rw [abs_le]
    omega
  have helapsed : |(rampElapsed (r.clocked t.dtMs) (prof.stage r.stage) : ℤ)| ≤ 2 ^ 31 := by
    have := hshort _ hk.inside
    rw [abs_le, rampElapsed]
    omega
  have hproduct := mul_le_mul hspan helapsed (abs_nonneg _) (by decide)
  rw [← abs_mul, abs_le] at hproduct
  simp only [ProductFits]
  constructor
  · exact le_trans (by decide) hproduct.1
  · exact hproduct.2.trans_lt (by decide)

theorem enveloped_step_iff (hrep : prof.Representable)
    (hnominal : ∀ i < prof.nStages, 0 < (prof.stage i).nominalMs) {r : ReflowRun} {t : RunTick}
    (h : Entered prof r) (hP : Enveloped prof r)
    (ht : (stageClockRunner prof tempMc).admits r t) :
    Enveloped prof ((stageClockRunner prof tempMc).step r t) ↔ Narrow prof r t := by
  have hnext := h.step ht
  rw [stageClockRunner_step] at hnext ⊢
  generalize hr' : reflowRunTick r prof t.dtMs t.tempMc t.rawMc = r' at hnext ⊢
  have hticked := hr' ▸ reflowRunTick_ticked r prof t.dtMs t.tempMc t.rawMc
  cases hticked with
  | latched ended => exact iff_of_true hP fun hk => absurd hk.act ended
  | past act past => exact iff_of_true nofun fun hk => absurd hk.inside (not_lt.mpr past)
  | abort act inside hot => exact iff_of_true nofun fun hk => absurd hot hk.cold
  | finish act inside cold complete =>
    exact iff_of_true nofun fun hk => absurd (complete.symm.trans hk.open') nofun
  | timeout act inside cold open' late =>
    exact iff_of_true nofun fun hk => absurd hk.inTime (not_le.mpr late)
  | advance act inside cold complete more =>
    refine iff_of_true (fun _ _ => ?_) fun hk => absurd (complete.symm.trans hk.open') nofun
    refine (inEnvelope_iff (hnominal _ more) (hrep.stage _) ⟨hnext.start_ge, hnext.start_lt⟩
      rfl).mpr fun _ => ?_
    simp [ProductFits, rampElapsed, ReflowRun.entering]
  | hold act inside cold open' inTime =>
    have hiff := inEnvelope_iff (hnominal _ inside) (hrep.stage r.stage)
      ⟨hnext.start_ge, hnext.start_lt⟩ (hnext.setpoint act inside)
    constructor
    · exact fun henv _ hkind => hiff.mp (henv act inside) hkind
    · exact fun hnarrow _ _ => hiff.mpr
        (hnarrow ⟨act, inside, not_hot_iff.mpr cold, open', inTime⟩)

/-- Two states of one ramp, both in the envelope, are in the order of their clocks. -/
theorem moves_of_clock_le {r r' : ReflowRun} {st : ReflowStage} (hnominal : 0 < st.nominalMs)
    (hkind : st.kind = .ramp) (h : InEnvelope r st) (h' : InEnvelope r' st)
    (hstart : r'.stageStartMc = r.stageStartMc) (hclock : r.stageMs ≤ r'.stageMs) :
    (r.stageStartMc ≤ st.targetMc → r.setpointMc ≤ r'.setpointMc) ∧
      (st.targetMc ≤ r.stageStartMc → r'.setpointMc ≤ r.setpointMc) := by
  have helapsed : (rampElapsed r st : ℤ) ≤ rampElapsed r' st := by
    simp only [rampElapsed]
    omega
  have hpos : (0 : ℤ) < st.nominalMs := by omega
  rw [(h.lossless hkind).2, (h'.lossless hkind).2, hstart]
  exact ⟨fun hup => interpolate_mono hpos hup helapsed,
    fun hdown => interpolate_anti hpos hdown helapsed⟩

theorem moves_step (hrep : prof.Representable)
    (hnominal : ∀ i < prof.nStages, 0 < (prof.stage i).nominalMs) {r : ReflowRun} {t : RunTick}
    (hP : Enveloped prof r) (ht : (stageClockRunner prof tempMc).admits r t)
    (hP' : Enveloped prof ((stageClockRunner prof tempMc).step r t)) :
    Moves prof r ((stageClockRunner prof tempMc).step r t) := by
  rw [stageClockRunner_step] at hP' ⊢
  generalize hr' : reflowRunTick r prof t.dtMs t.tempMc t.rawMc = r' at hP' ⊢
  have hticked := hr' ▸ reflowRunTick_ticked r prof t.dtMs t.tempMc t.rawMc
  cases hticked with
  | latched ended => exact fun act => absurd act ended
  | past | abort | finish | timeout => exact fun _ hactive => absurd hactive nofun
  | advance act inside cold complete more =>
    have hcount := hrep.count_lt
    have hu8 : u8 (r.stage + 1) = r.stage + 1 := u8_eq (by omega)
    intro _ _ hsame
    exact absurd (hu8.symm.trans hsame) (Nat.succ_ne_self _)
  | hold act inside cold open' inTime =>
    intro _ _ _ _ hkind
    have hclock : r.stageMs ≤ (r.clocked t.dtMs).stageMs := by
      simp only [ReflowRun.clocked, u32_eq (ht.2 act)]
      omega
    exact ⟨rfl, moves_of_clock_le (hnominal _ inside) hkind (hP act inside) (hP' act inside)
      rfl hclock⟩

/-- A setpoint inside the envelope of a later stage is below the abort level of a profile
that validation accepted. -/
theorem setpoint_lt_abort {absMaxMc : ℤ}
    (hv : reflowProfileValidate (some prof) absMaxMc = .ok) {r : ReflowRun}
    (h : Entered prof r) (hP : Enveloped prof r) (act : r.result = .active)
    (hlater : 1 ≤ r.stage) : r.setpointMc < prof.abortMc := by
  obtain ⟨hvalid, -⟩ := (reflowProfileValidate_ok_iff prof absMaxMc).mp hv
  obtain ⟨hinside, hstart⟩ := h.below act hlater
  have htarget := hvalid.target_lt_abort _ hinside
  have henv := hP act hinside
  by_cases hkind : (prof.stage r.stage).kind = .ramp
  · exact (henv.between hkind).2.trans_lt (max_lt hstart htarget)
  · exact (henv.held hkind).trans_lt htarget

/-- The setpoints of a run: in the envelope of their stages, moving towards the target, and
from the second stage on below the abort level of a validated profile. -/
structure StaysInside (prof : ReflowProfile) (states : List ReflowRun) : Prop where
  enveloped : ∀ r ∈ states, r.result = .active → r.stage < prof.nStages →
    InEnvelope r (prof.stage r.stage)
  moves : states.IsChain (Moves prof)
  below_abort : ∀ absMaxMc, reflowProfileValidate (some prof) absMaxMc = .ok →
    ∀ r ∈ states, r.result = .active → 1 ≤ r.stage → r.setpointMc < prof.abortMc

theorem Enveloped.start (hrep : prof.Representable)
    (hnominal : ∀ i < prof.nStages, 0 < (prof.stage i).nominalMs) (hlow : -2 ^ 31 ≤ tempMc)
    (hhigh : tempMc < 2 ^ 31) : Enveloped prof (reflowRunStart prof tempMc) := by
  intro _ hs
  apply (inEnvelope_iff (hnominal _ hs) (hrep.stage _) ⟨hlow, hhigh⟩ (if_pos hs)).mpr
  simp [ProductFits, rampElapsed, reflowRunStart]

/-- Along a narrow run every state was entered properly and is in its envelope. -/
theorem staysInside_of_narrow (hrep : prof.Representable)
    (hnominal : ∀ i < prof.nStages, 0 < (prof.stage i).nominalMs) (hlow : -2 ^ 31 ≤ tempMc)
    (hhigh : tempMc < 2 ^ 31) {ts : List RunTick}
    (hts : ((stageClockRunner prof tempMc).restrict (Narrow prof)).Admitted
      (reflowRunStart prof tempMc) ts) :
    StaysInside prof
      ((stageClockRunner prof tempMc).visited (reflowRunStart prof tempMc) ts) := by
  have hstart : Entered prof (reflowRunStart prof tempMc) ∧
      Enveloped prof (reflowRunStart prof tempMc) :=
    ⟨Entered.start prof hlow hhigh, Enveloped.start hrep hnominal hlow hhigh⟩
  have hkept : ∀ r t, Entered prof r ∧ Enveloped prof r →
      ((stageClockRunner prof tempMc).restrict (Narrow prof)).admits r t →
      Entered prof ((stageClockRunner prof tempMc).step r t) ∧
        Enveloped prof ((stageClockRunner prof tempMc).step r t) :=
    fun r t h ha => ⟨h.1.step ha.1, (enveloped_step_iff hrep hnominal h.1 h.2 ha.1).mpr ha.2⟩
  have hstates := Machine.visited_invariant hkept hstart hts
  have hchain := Machine.visited_isChain (R := Moves prof) hkept
    (fun r t h ha => moves_step hrep hnominal h.2 ha.1 (hkept r t h ha).2) hstart hts
  rw [Machine.visited_restrict] at hstates hchain
  exact ⟨fun r hr => (hstates r hr).2, hchain,
    fun _ hv r hr => setpoint_lt_abort hv (hstates r hr).1 (hstates r hr).2⟩

/-- The setpoints of a run stay inside exactly when no tick overflows the product. -/
theorem setpoints_stay_inside_iff (prof : ReflowProfile) (hrep : prof.Representable)
    (hnominal : ∀ i < prof.nStages, 0 < (prof.stage i).nominalMs) (tempMc : ℤ)
    (hlow : -2 ^ 31 ≤ tempMc) (hhigh : tempMc < 2 ^ 31) (ts : List RunTick)
    (hts : (stageClockRunner prof tempMc).Admitted (reflowRunStart prof tempMc) ts) :
    StaysInside prof ((stageClockRunner prof tempMc).visited (reflowRunStart prof tempMc) ts) ↔
      ((stageClockRunner prof tempMc).restrict (Narrow prof)).Admitted
        (reflowRunStart prof tempMc) ts := by
  have hiff := Machine.forall_visited_iff (fun _ _ h ha => h.step ha)
    (fun _ _ h hP ha => enveloped_step_iff hrep hnominal h hP ha)
    (Entered.start prof hlow hhigh) (Enveloped.start hrep hnominal hlow hhigh) hts
  constructor
  · exact fun h => hiff.mp h.enveloped
  · exact fun hnarrow => staysInside_of_narrow hrep hnominal hlow hhigh hnarrow

/-- Stages of at most 2^31 ms keep every run inside, whatever their end points. -/
theorem staysInside_of_short (hrep : prof.Representable)
    (hnominal : ∀ i < prof.nStages, 0 < (prof.stage i).nominalMs)
    (hshort : ∀ i < prof.nStages, (prof.stage i).nominalMs ≤ 2 ^ 31) (hlow : -2 ^ 31 ≤ tempMc)
    (hhigh : tempMc < 2 ^ 31) {ts : List RunTick}
    (hts : (stageClockRunner prof tempMc).Admitted (reflowRunStart prof tempMc) ts) :
    StaysInside prof
      ((stageClockRunner prof tempMc).visited (reflowRunStart prof tempMc) ts) :=
  staysInside_of_narrow hrep hnominal hlow hhigh
    (Machine.admitted_restrict (fun _ _ h ha => h.step ha)
      (fun _ t h _ => h.narrow hrep hshort t) (Entered.start prof hlow hhigh) hts)

theorem setpoints_stay_inside_sac305 : ∃ prof, reflowProfileGet 0 = some prof ∧
    StaysInside prof ((stageClockRunner prof 25000).visited (reflowRunStart prof 25000)
      [⟨45000, 90000, 91000⟩, ⟨45000, 149000, 149500⟩, ⟨500, 149100, 149200⟩]) := by
  refine ⟨_, rfl, ?_⟩
  exact (setpoints_stay_inside_iff (builtin.get ⟨0, by decide⟩) (by decide) (by decide) 25000
    (by decide) (by decide) _ (by decide)).mpr (by decide)

/-- A ramp of 37 days between two temperatures three million degrees apart. -/
def longRamp : ReflowProfile where
  name := charArray reflowProfileNameLen "long"
  nStages := 1
  stages := [⟨charArray reflowStageNameLen "ramp", 1500000000, 3221225472, .ramp⟩]
  abortMc := 1600000000
  tolMc := 1
  graceMs := 0

/-- At the end of its nominal time that ramp has a setpoint 1400000 degrees short of the
target. -/
theorem long_ramp_overflows : longRamp.Representable ∧
    reflowProfileValidate (some longRamp) (2 ^ 31 - 1) = .ok ∧
    (stageClockRunner longRamp (-1500000000)).Admitted
      (reflowRunStart longRamp (-1500000000)) [⟨3221225472, 0, 0⟩] ∧
    let r := (stageClockRunner longRamp (-1500000000)).run
      (reflowRunStart longRamp (-1500000000)) [⟨3221225472, 0, 0⟩]
    r.result = .active ∧ (longRamp.stage r.stage).kind = .ramp ∧
      (longRamp.stage r.stage).nominalMs ≤ r.stageMs ∧
      r.setpointMc = 68344235 ∧ (longRamp.stage r.stage).targetMc = 1500000000 := by
  decide

end ProfileRun
end ReflowOven
