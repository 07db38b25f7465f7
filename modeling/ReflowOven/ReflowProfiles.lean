import ReflowOven.CStringScanning
import ReflowOven.MachineArithmetic

/-!
# Reflow profiles and the profile runner

The built-in profile table and the stage state machine of `profile.c`, with the
over-temperature predicate of `tempguard.h` that it shares with the control thread.
Temperatures are integers in milli-degrees Celsius, times are milliseconds.
-/

namespace ReflowOven

def reflowMaxStages : ℕ := 8

def reflowProfileNameLen : ℕ := 32

def reflowStageNameLen : ℕ := 12

def reflowCoolGraceMs : ℕ := 1800000

inductive ReflowStageKind | ramp | soak | cool
  deriving DecidableEq, Repr

structure ReflowStage where
  name : List UInt8
  targetMc : ℤ
  nominalMs : ℕ
  kind : ReflowStageKind
  deriving DecidableEq

/-- A stage entry that the initializer of a profile leaves out. -/
def ReflowStage.zero : ReflowStage :=
  ⟨List.replicate reflowStageNameLen 0, 0, 0, .ramp⟩

structure ReflowProfile where
  name : List UInt8
  nStages : ℕ
  stages : List ReflowStage
  abortMc : ℤ
  tolMc : ℤ
  graceMs : ℕ
  deriving DecidableEq

/-- `prof->stages[i]`; entries the initializer leaves out are zero. -/
def ReflowProfile.stage (prof : ReflowProfile) (i : ℕ) : ReflowStage :=
  prof.stages.getD i .zero

private def stageEntry (name : String) (targetMc : ℤ) (nominalMs : ℕ)
    (kind : ReflowStageKind) : ReflowStage :=
  ⟨charArray reflowStageNameLen name, targetMc, nominalMs, kind⟩

def builtin : List ReflowProfile :=
  [ { name := charArray reflowProfileNameLen "SAC305 lead-free"
      nStages := 5
      stages :=
        [ stageEntry "preheat" 150000 90000 .ramp,
          stageEntry "soak" 180000 90000 .ramp,
          stageEntry "ramp" 245000 60000 .ramp,
          stageEntry "peak" 245000 30000 .soak,
          stageEntry "cool" 50000 180000 .cool ]
      abortMc := 260000
      tolMc := 5000
      graceMs := 60000 },
    { name := charArray reflowProfileNameLen "Sn63Pb37 leaded"
      nStages := 5
      stages :=
        [ stageEntry "preheat" 140000 90000 .ramp,
          stageEntry "soak" 160000 80000 .ramp,
          stageEntry "ramp" 215000 50000 .ramp,
          stageEntry "peak" 215000 25000 .soak,
          stageEntry "cool" 50000 180000 .cool ]
      abortMc := 235000
      tolMc := 5000
      graceMs := 60000 },
    { name := charArray reflowProfileNameLen "bake / dry 120C"
      nStages := 3
      stages :=
        [ stageEntry "ramp" 120000 120000 .ramp,
          stageEntry "hold" 120000 1800000 .soak,
          stageEntry "cool" 50000 300000 .cool ]
      abortMc := 140000
      tolMc := 3000
      graceMs := 120000 },
    { name := charArray reflowProfileNameLen "Bake / Dry 200C"
      nStages := 4
      stages :=
        [ stageEntry "preheat" 150000 200000 .ramp,
          stageEntry "ramp" 200000 400000 .ramp,
          stageEntry "hold" 200000 3000000 .soak,
          stageEntry "cool" 50000 180000 .cool ]
      abortMc := 250000
      tolMc := 3000
      graceMs := 120000 } ]

def reflowProfileCount : ℕ := u8 builtin.length

/-- `none` is the NULL returned for an index past the table. -/
def reflowProfileGet (idx : ℕ) : Option ReflowProfile :=
  if idx ≥ reflowProfileCount then none else builtin[idx]?

theorem reflowProfileCount_eq : reflowProfileCount = 4 := rfl

theorem reflowProfileGet_isSome_iff (idx : ℕ) :
    (reflowProfileGet idx).isSome ↔ idx < reflowProfileCount := by
  have hlen : builtin.length = reflowProfileCount := rfl
  simp only [reflowProfileGet]
  split
  · next h => simpa using h
  · next h => simp [hlen, Nat.lt_of_not_le h]

/-- `reflow_profile_nominal_ms`, summed in 32 bits. -/
def reflowProfileNominalMs (prof : ReflowProfile) : ℕ :=
  (List.range prof.nStages).foldl (fun total i => u32 (total + (prof.stage i).nominalMs)) 0

/-- Cooling is passive with the element off, so it has a budget of its own. -/
def stageGraceMs (st : ReflowStage) (prof : ReflowProfile) : ℕ :=
  if st.kind = .cool then reflowCoolGraceMs else prof.graceMs

def reflowProfileMaxMs (prof : ReflowProfile) : ℕ :=
  (List.range prof.nStages).foldl (fun total i => u32 (total + stageGraceMs (prof.stage i) prof))
    (reflowProfileNominalMs prof)

inductive ReflowRunResult | active | done | errTimeout | errOvertemp
  deriving DecidableEq, Repr

structure ReflowRun where
  stage : ℕ
  stageMs : ℕ
  totalMs : ℕ
  stageStartMc : ℤ
  setpointMc : ℤ
  result : ReflowRunResult
  deriving DecidableEq

/-- The runner before its first start: static storage. -/
def ReflowRun.zero : ReflowRun := ⟨0, 0, 0, 0, 0, .active⟩

/-- The absolute over-temperature backstop, fed both readings. -/
def reflowOvertempTripped (filteredMc rawMc limitMc : ℤ) : Bool :=
  decide (rawMc ≥ limitMc) || decide (filteredMc ≥ limitMc)

@[simp] theorem reflowOvertempTripped_eq_true (filteredMc rawMc limitMc : ℤ) :
    reflowOvertempTripped filteredMc rawMc limitMc = true ↔
      limitMc ≤ rawMc ∨ limitMc ≤ filteredMc := by
  simp [reflowOvertempTripped]

@[simp] theorem reflowOvertempTripped_eq_false (filteredMc rawMc limitMc : ℤ) :
    reflowOvertempTripped filteredMc rawMc limitMc = false ↔
      rawMc < limitMc ∧ filteredMc < limitMc := by
  simp [reflowOvertempTripped]

def reflowRunHeaterAllowed (run : ReflowRun) (prof : ReflowProfile) : Bool :=
  if run.result ≠ .active ∨ run.stage ≥ prof.nStages then false
  else decide ((prof.stage run.stage).kind ≠ .cool)

theorem reflowRunHeaterAllowed_iff (run : ReflowRun) (prof : ReflowProfile) :
    reflowRunHeaterAllowed run prof = true ↔ run.result = .active ∧
      run.stage < prof.nStages ∧ (prof.stage run.stage).kind ≠ .cool := by
  simp only [reflowRunHeaterAllowed]
  split
  · next h =>
    refine ⟨nofun, ?_⟩
    rintro ⟨hr, hs, -⟩
    rcases h with h | h
    · exact absurd hr h
    · omega
  · next h =>
    push Not at h
    simp [h.1, h.2]

/-- Linear interpolation in 64 bits on a ramp, the target everywhere else. -/
def stageSetpoint (run : ReflowRun) (st : ReflowStage) : ℤ :=
  match st.kind with
  | .ramp =>
    if st.nominalMs = 0 then st.targetMc
    else
      let elapsed : ℤ := if run.stageMs > st.nominalMs then st.nominalMs else run.stageMs
      let span := st.targetMc - run.stageStartMc
      let delta := (i64 (span * elapsed)).tdiv st.nominalMs
      i32 (run.stageStartMc + delta)
  | .soak | .cool => st.targetMc

def reflowRunStart (prof : ReflowProfile) (tempMc : ℤ) : ReflowRun :=
  let run : ReflowRun := ⟨0, 0, 0, tempMc, 0, .active⟩
  { run with setpointMc := if prof.nStages > 0 then stageSetpoint run (prof.stage 0) else tempMc }

def stageComplete (st : ReflowStage) (prof : ReflowProfile) (run : ReflowRun)
    (tempMc : ℤ) : Bool :=
  if run.stageMs < st.nominalMs then false
  else if st.kind = .cool then decide (tempMc ≤ st.targetMc)
  else decide (tempMc ≥ i32 (st.targetMc - prof.tolMc))

/-- The reading meets the thermal goal of the stage, as the code computes it. -/
def goalReached (st : ReflowStage) (prof : ReflowProfile) (tempMc : ℤ) : Bool :=
  if st.kind = .cool then decide (tempMc ≤ st.targetMc)
  else decide (tempMc ≥ i32 (st.targetMc - prof.tolMc))

theorem stageComplete_eq_true_iff (st : ReflowStage) (prof : ReflowProfile) (run : ReflowRun)
    (tempMc : ℤ) : stageComplete st prof run tempMc = true ↔
      st.nominalMs ≤ run.stageMs ∧ goalReached st prof tempMc = true := by
  simp only [stageComplete, goalReached]
  split
  · next h => simp [Nat.not_le.mpr h]
  · next h => simp [Nat.not_lt.mp h]

/-- The value the source returns is the field `result` of the new run. -/
def reflowRunTick (run : ReflowRun) (prof : ReflowProfile) (dtMs : ℕ) (tempMc rawMc : ℤ) :
    ReflowRun :=
  if run.result ≠ .active then run
  else if prof.nStages = 0 ∨ run.stage ≥ prof.nStages then { run with result := .done }
  else if reflowOvertempTripped tempMc rawMc prof.abortMc then
    { run with result := .errOvertemp }
  else
    let run := { run with
      stageMs := u32 (run.stageMs + dtMs), totalMs := u32 (run.totalMs + dtMs) }
    let st := prof.stage run.stage
    if stageComplete st prof run tempMc then
      let run := { run with stage := u8 (run.stage + 1) }
      if run.stage ≥ prof.nStages then { run with result := .done, setpointMc := tempMc }
      else
        let run := { run with stageMs := 0, stageStartMc := tempMc }
        { run with setpointMc := stageSetpoint run (prof.stage run.stage) }
    else if run.stageMs > u32 (st.nominalMs + stageGraceMs st prof) then
      { run with result := .errTimeout }
    else { run with setpointMc := stageSetpoint run st }

/-- A run that is still active has just seen both readings below the abort level. -/
theorem reflowRunTick_active {run : ReflowRun} {prof : ReflowProfile} {dtMs : ℕ}
    {tempMc rawMc : ℤ} (h : (reflowRunTick run prof dtMs tempMc rawMc).result = .active) :
    tempMc < prof.abortMc ∧ rawMc < prof.abortMc := by
  simp only [reflowRunTick] at h
  split_ifs at h with hres _ htrip
  · exact absurd h hres
  all_goals
    rw [Bool.not_eq_true, reflowOvertempTripped_eq_false] at htrip
    exact htrip.symm

/-- The run with both clocks advanced, in 32 bits. -/
def ReflowRun.clocked (run : ReflowRun) (dtMs : ℕ) : ReflowRun :=
  { run with stageMs := u32 (run.stageMs + dtMs), totalMs := u32 (run.totalMs + dtMs) }

/-- Entry into the stage after the present one. -/
def ReflowRun.entering (run : ReflowRun) (prof : ReflowProfile) (tempMc : ℤ) : ReflowRun :=
  let run' : ReflowRun := { run with
    stage := u8 (run.stage + 1), stageMs := 0, stageStartMc := tempMc }
  { run' with setpointMc := stageSetpoint run' (prof.stage run'.stage) }

/-- Everything one tick can do, in the arithmetic of the code. -/
inductive Ticked (run : ReflowRun) (prof : ReflowProfile) (dtMs : ℕ) (tempMc rawMc : ℤ) :
    ReflowRun → Prop where
  | latched (ended : run.result ≠ .active) : Ticked run prof dtMs tempMc rawMc run
  | past (act : run.result = .active) (past : prof.nStages ≤ run.stage) :
      Ticked run prof dtMs tempMc rawMc { run with result := .done }
  | abort (act : run.result = .active) (inside : run.stage < prof.nStages)
      (hot : prof.abortMc ≤ rawMc ∨ prof.abortMc ≤ tempMc) :
      Ticked run prof dtMs tempMc rawMc { run with result := .errOvertemp }
  | advance (act : run.result = .active) (inside : run.stage < prof.nStages)
      (cold : rawMc < prof.abortMc ∧ tempMc < prof.abortMc)
      (complete : stageComplete (prof.stage run.stage) prof (run.clocked dtMs) tempMc = true)
      (more : u8 (run.stage + 1) < prof.nStages) :
      Ticked run prof dtMs tempMc rawMc ((run.clocked dtMs).entering prof tempMc)
  | finish (act : run.result = .active) (inside : run.stage < prof.nStages)
      (cold : rawMc < prof.abortMc ∧ tempMc < prof.abortMc)
      (complete : stageComplete (prof.stage run.stage) prof (run.clocked dtMs) tempMc = true)
      (last : prof.nStages ≤ u8 (run.stage + 1)) :
      Ticked run prof dtMs tempMc rawMc { run.clocked dtMs with
        stage := u8 (run.stage + 1), result := .done, setpointMc := tempMc }
  | timeout (act : run.result = .active) (inside : run.stage < prof.nStages)
      (cold : rawMc < prof.abortMc ∧ tempMc < prof.abortMc)
      (open' : stageComplete (prof.stage run.stage) prof (run.clocked dtMs) tempMc = false)
      (late : u32 ((prof.stage run.stage).nominalMs + stageGraceMs (prof.stage run.stage) prof) <
        (run.clocked dtMs).stageMs) :
      Ticked run prof dtMs tempMc rawMc { run.clocked dtMs with result := .errTimeout }
  | hold (act : run.result = .active) (inside : run.stage < prof.nStages)
      (cold : rawMc < prof.abortMc ∧ tempMc < prof.abortMc)
      (open' : stageComplete (prof.stage run.stage) prof (run.clocked dtMs) tempMc = false)
      (inTime : (run.clocked dtMs).stageMs ≤
        u32 ((prof.stage run.stage).nominalMs + stageGraceMs (prof.stage run.stage) prof)) :
      Ticked run prof dtMs tempMc rawMc { run.clocked dtMs with
        setpointMc := stageSetpoint (run.clocked dtMs) (prof.stage run.stage) }

theorem reflowRunTick_ticked (run : ReflowRun) (prof : ReflowProfile) (dtMs : ℕ)
    (tempMc rawMc : ℤ) :
    Ticked run prof dtMs tempMc rawMc (reflowRunTick run prof dtMs tempMc rawMc) := by
  simp only [reflowRunTick]
  split_ifs with hended hpast hhot hcomplete hlast hlate
  · exact .latched hended
  · exact .past (not_not.mp hended) (by omega)
  · exact .abort (not_not.mp hended) (by omega) (by simpa using hhot)
  all_goals
    have hcold : rawMc < prof.abortMc ∧ tempMc < prof.abortMc := by simpa using hhot
  · exact .finish (not_not.mp hended) (by omega) hcold hcomplete hlast
  · exact .advance (not_not.mp hended) (by omega) hcold hcomplete (Nat.lt_of_not_le hlast)
  · exact .timeout (not_not.mp hended) (by omega) hcold (Bool.not_eq_true _ ▸ hcomplete) hlate
  · exact .hold (not_not.mp hended) (by omega) hcold (Bool.not_eq_true _ ▸ hcomplete)
      (Nat.le_of_not_lt hlate)

end ReflowOven
