import Mathlib.Data.List.GetD
import Mathlib.Tactic.MkIffOfInductiveProp
import ReflowOven.Configuration
import ReflowOven.ReflowProfiles

/-!
# Profile validation

`reflow_profile_validate` of `profile.c`. A profile that it accepts is a set of limits the
runner reads, so the accepted ones are characterised by what they guarantee.
-/

namespace ReflowOven

inductive ReflowProfileValid
  | ok | errNull | errName | errStages | errStageName | errStageTime | errTol
  | errAbortLow | errAbortHigh
  deriving DecidableEq, Repr

/-- `name_is_string`: not empty, and with a NUL inside its array. -/
def nameIsString (name : List UInt8) (cap : ℕ) : Bool :=
  decide (name.headD 0 ≠ 0) && (name.take cap).contains 0

/-- The loop over the stages; it carries the hottest target seen so far. -/
def validateStages (prof : ReflowProfile) : List ℕ → ℤ → Except ReflowProfileValid ℤ
  | [], hottest => .ok hottest
  | i :: is, hottest =>
    let st := prof.stage i
    if !nameIsString st.name reflowStageNameLen then .error .errStageName
    else if st.nominalMs = 0 then .error .errStageTime
    else validateStages prof is (if st.targetMc > hottest then st.targetMc else hottest)

/-- `none` is the NULL pointer. -/
def reflowProfileValidate (prof : Option ReflowProfile) (absMaxMc : ℤ) : ReflowProfileValid :=
  match prof with
  | none => .errNull
  | some prof =>
    if !nameIsString prof.name reflowProfileNameLen then .errName
    else if prof.nStages = 0 ∨ prof.nStages > reflowMaxStages then .errStages
    else if prof.tolMc ≤ 0 then .errTol
    else
      match validateStages prof (List.range prof.nStages) (prof.stage 0).targetMc with
      | .error e => e
      | .ok hottest =>
        if prof.abortMc ≤ hottest then .errAbortLow
        else if prof.abortMc > absMaxMc then .errAbortHigh
        else .ok

/-- The widths of the fields: 32-bit temperatures and times, eight bits for the count. -/
@[mk_iff]
structure ReflowStage.Representable (st : ReflowStage) : Prop where
  target_ge : -2 ^ 31 ≤ st.targetMc
  target_lt : st.targetMc < 2 ^ 31
  nominal_lt : st.nominalMs < 2 ^ 32

instance (st : ReflowStage) : Decidable st.Representable :=
  decidable_of_iff' _ (ReflowStage.representable_iff st)

@[mk_iff]
structure ReflowProfile.Representable (prof : ReflowProfile) : Prop where
  count_lt : prof.nStages < 2 ^ 8
  stages : ∀ st ∈ prof.stages, st.Representable
  abort_ge : -2 ^ 31 ≤ prof.abortMc
  abort_lt : prof.abortMc < 2 ^ 31
  tol_ge : -2 ^ 31 ≤ prof.tolMc
  tol_lt : prof.tolMc < 2 ^ 31
  grace_lt : prof.graceMs < 2 ^ 32

instance (prof : ReflowProfile) : Decidable prof.Representable :=
  decidable_of_iff' _ (ReflowProfile.representable_iff prof)

theorem ReflowProfile.Representable.stage {prof : ReflowProfile} (h : prof.Representable)
    (i : ℕ) : (prof.stage i).Representable := by
  rcases Nat.lt_or_ge i prof.stages.length with hi | hi
  · have hmem : prof.stage i ∈ prof.stages := by
      rw [ReflowProfile.stage, List.getD_eq_getElem _ _ hi]
      exact List.getElem_mem hi
    exact h.stages _ hmem
  · rw [ReflowProfile.stage, List.getD_eq_default _ _ hi]
    exact ⟨by decide, by decide, by decide⟩

/-- What a validated profile guarantees, whatever the absolute limit was. -/
structure ReflowProfile.Valid (prof : ReflowProfile) : Prop where
  named : nameIsString prof.name reflowProfileNameLen = true
  stages_pos : 1 ≤ prof.nStages
  stages_le : prof.nStages ≤ reflowMaxStages
  tol_pos : 0 < prof.tolMc
  stage_named : ∀ i < prof.nStages, nameIsString (prof.stage i).name reflowStageNameLen = true
  nominal_pos : ∀ i < prof.nStages, 0 < (prof.stage i).nominalMs
  target_lt_abort : ∀ i < prof.nStages, (prof.stage i).targetMc < prof.abortMc

/-- The loop accepts when every stage passes, and then has the maximum of the targets. -/
theorem validateStages_ok_iff (prof : ReflowProfile) (is : List ℕ) (hottest top : ℤ) :
    validateStages prof is hottest = .ok top ↔
      (∀ i ∈ is, nameIsString (prof.stage i).name reflowStageNameLen = true ∧
        0 < (prof.stage i).nominalMs) ∧
      top = (is.map fun i => (prof.stage i).targetMc).foldl max hottest := by
  induction is generalizing hottest with
  | nil =>
    simp only [validateStages, Except.ok.injEq, List.not_mem_nil, IsEmpty.forall_iff,
      implies_true, true_and, List.map_nil, List.foldl_nil]
    exact eq_comm
  | cons i is ih =>
    have hmax : (if (prof.stage i).targetMc > hottest then (prof.stage i).targetMc
        else hottest) = max hottest (prof.stage i).targetMc := by
      split <;> omega
    simp only [validateStages, hmax, List.forall_mem_cons, List.map_cons, List.foldl_cons]
    split_ifs with hname htime
    · simp_all
    · simp_all
    · have hpass : nameIsString (prof.stage i).name reflowStageNameLen = true ∧
          0 < (prof.stage i).nominalMs := ⟨by simpa using hname, by omega⟩
      rw [ih, and_iff_right hpass]

theorem foldl_max_lt_iff (ts : List ℤ) (a b : ℤ) :
    ts.foldl max a < b ↔ a < b ∧ ∀ t ∈ ts, t < b := by
  induction ts generalizing a with
  | nil => simp
  | cons t ts ih => rw [List.foldl_cons, ih, max_lt_iff, List.forall_mem_cons, and_assoc]

theorem validateStages_error_ne_ok {prof : ReflowProfile} {is : List ℕ} {hottest : ℤ}
    {e : ReflowProfileValid} (h : validateStages prof is hottest = .error e) : e ≠ .ok := by
  induction is generalizing hottest with
  | nil => exact absurd h nofun
  | cons i is ih =>
    simp only [validateStages] at h
    split_ifs at h with hname htime
    · cases h
      exact nofun
    · cases h
      exact nofun
    all_goals exact ih h

/-- Validation accepts exactly the coherent profiles that abort no higher than the firmware. -/
theorem reflowProfileValidate_ok_iff (prof : ReflowProfile) (absMaxMc : ℤ) :
    reflowProfileValidate (some prof) absMaxMc = .ok ↔
      prof.Valid ∧ prof.abortMc ≤ absMaxMc := by
  have hloop := validateStages_ok_iff prof (List.range prof.nStages) (prof.stage 0).targetMc
  constructor
  · intro h
    simp only [reflowProfileValidate] at h
    split at h
    · exact absurd h nofun
    next hname =>
    split at h
    · exact absurd h nofun
    next hcount =>
    split at h
    · exact absurd h nofun
    next htol =>
    split at h
    · next e he => exact absurd h (validateStages_error_ne_ok he)
    · next hottest hok =>
      obtain ⟨hstages, rfl⟩ := (hloop hottest).mp hok
      split_ifs at h with hlow hhigh
      have hbelow := (foldl_max_lt_iff _ _ _).mp (not_le.mp hlow)
      simp only [List.mem_range] at hstages
      refine ⟨⟨by simpa using hname, by omega, by omega, by omega, fun i hi => (hstages i hi).1,
        fun i hi => (hstages i hi).2, fun i hi => hbelow.2 _ ?_⟩, not_lt.mp hhigh⟩
      exact List.mem_map_of_mem (List.mem_range.mpr hi)
  · rintro ⟨hv, habs⟩
    have hok := (hloop _).mpr ⟨fun i hi => ⟨hv.stage_named i (List.mem_range.mp hi),
      hv.nominal_pos i (List.mem_range.mp hi)⟩, rfl⟩
    have hpos := hv.stages_pos
    have hbelow : ((List.range prof.nStages).map fun i => (prof.stage i).targetMc).foldl max
        (prof.stage 0).targetMc < prof.abortMc := by
      refine (foldl_max_lt_iff _ _ _).mpr ⟨hv.target_lt_abort 0 hpos, ?_⟩
      intro t ht
      obtain ⟨i, hi, rfl⟩ := List.mem_map.mp ht
      exact hv.target_lt_abort i (List.mem_range.mp hi)
    have hcount : ¬(prof.nStages = 0 ∨ prof.nStages > reflowMaxStages) := by
      have := hv.stages_le
      omega
    simp only [reflowProfileValidate, hv.named, hok]
    rw [if_neg (by decide), if_neg hcount, if_neg (not_le.mpr hv.tol_pos),
      if_neg (not_le.mpr hbelow), if_neg (not_lt.mpr habs)]

/-- Every profile of the built-in table passes its own check, under the default limit. -/
theorem builtin_valid : ∀ prof ∈ builtin, prof.Representable ∧
    reflowProfileValidate (some prof) ({} : CoreConfig).absMaxMc = .ok := by
  decide

end ReflowOven
