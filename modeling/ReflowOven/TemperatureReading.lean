import ReflowOven.SpikeFilter

/-!
# Readings of the thermocouple

The front-end `temp.c`. A call that fails returns before the filter is reached, so the
filter does not notice an outage: it goes on comparing with the last sample believed, and
on suppressing against it, however many calls ago that was.
-/

namespace ReflowOven

/-- What the driver reports of a failure; only `ENOTSUP` is told apart. -/
inductive Errno
  | enotsup
  | erange
  | other (code : ℤ)
  deriving DecidableEq

structure SensorValue where
  val1 : Int32
  val2 : Int32
  deriving DecidableEq

/-- The answers of the driver during one call. -/
structure SensorAnswers where
  fetch : Except Errno Unit
  ambient : Except Errno SensorValue
  die : Except Errno SensorValue

def tempMinMc : ℤ := -20000

def tempMaxMc : ℤ := 400000

/-- The statics of `temp.c`. -/
structure TempFrontEnd where
  spike : ReflowSpike
  errLogged : Bool
  deriving DecidableEq

/-- Returns whether the result is 0. -/
def reflowTempInit (ready : Bool) (fe : TempFrontEnd) : Bool × TempFrontEnd :=
  if !ready then (false, fe) else (true, ⟨reflowSpikeReset, false⟩)

def milliCelsius (val : SensorValue) : ℤ :=
  i32 (i32 (val.val1.toInt * 1000) + val.val2.toInt.tdiv 1000)

/-- The sample a call obtains, or why it fails. -/
def obtainSample (a : SensorAnswers) : Except Errno ℤ :=
  match a.fetch with
  | .error e => .error e
  | .ok () =>
    match (match a.ambient with | .error .enotsup => a.die | answer => answer) with
    | .error e => .error e
    | .ok val =>
      if milliCelsius val < tempMinMc ∨ milliCelsius val > tempMaxMc then .error .erange
      else .ok (milliCelsius val)

/-- The filtered and the raw value, and the statics after the call. -/
def reflowTempRead (a : SensorAnswers) (fe : TempFrontEnd) : Except Errno (ℤ × ℤ) × TempFrontEnd :=
  match obtainSample a with
  | .error e => (.error e, { fe with errLogged := true })
  | .ok raw =>
    let r := reflowSpikeFilter fe.spike raw
    (.ok (r.2.1, raw), ⟨r.2.2, false⟩)

namespace TemperatureReading

open SpikeFilter

theorem plausible_of_obtainSample {a : SensorAnswers} {raw : ℤ} (h : obtainSample a = .ok raw) :
    Plausible raw := by
  simp only [obtainSample] at h
  split at h
  · exact absurd h nofun
  split at h
  · exact absurd h nofun
  split_ifs at h with hwindow
  obtain rfl := Except.ok.inj h
  push Not at hwindow
  exact hwindow

/-- A call: the sample it obtained and the temperature it reported, where it did. -/
structure Call where
  sample : Option ℤ
  believed : Bool
  reportedMc : Option ℤ
  deriving DecidableEq

/-- The front-end, and its calls since the initialisation, newest first. -/
structure Session where
  frontEnd : TempFrontEnd
  calls : List Call
  deriving DecidableEq

def callOf (a : SensorAnswers) (fe : TempFrontEnd) : Call where
  sample := (obtainSample a).toOption
  believed := match obtainSample a with
    | .error _ => false
    | .ok raw => (reflowSpikeFilter fe.spike raw).1 ≠ .reject
  reportedMc := (reflowTempRead a fe).1.toOption.map Prod.fst

/-- Every sequence of calls after a successful initialisation. -/
def readings : Machine Session SensorAnswers where
  init s := ∃ fe, s = ⟨(reflowTempInit true fe).2, []⟩
  admits _ _ := True
  step s a := ⟨(reflowTempRead a s.frontEnd).2, callOf a s.frontEnd :: s.calls⟩

/-- What the last call reports was obtained by it or by one of the two before it. -/
def Recent (s : Session) : Prop :=
  ∀ mc, s.calls.head?.bind Call.reportedMc = some mc →
    ∃ call ∈ s.calls.take reflowSpikeMaxRejects, call.sample = some mc

/-- The calls since the last sample believed, that sample included. -/
def age (s : Session) : ℕ := s.calls.findIdx Call.believed + 1

/-- A sample that will be suppressed comes within two calls of the last sample believed. -/
def Prompt (s : Session) (a : SensorAnswers) : Prop :=
  ∀ raw, obtainSample a = .ok raw → s.frontEnd.spike.haveLast = true →
    Far raw s.frontEnd.spike.lastMc → s.frontEnd.spike.rejects + 1 < reflowSpikeMaxRejects →
    age s < reflowSpikeMaxRejects

/-- The filter compares with the last sample believed, and the samples obtained since are far
from it. -/
structure Remembers (s : Session) : Prop where
  sane : Sane s.frontEnd.spike
  believed : s.frontEnd.spike.haveLast = true → ∃ late b older, s.calls = late ++ b :: older ∧
    b.believed = true ∧ b.sample = some s.frontEnd.spike.lastMc ∧
    ∀ call ∈ late, call.believed = false ∧
      ∀ raw ∈ call.sample, Far raw s.frontEnd.spike.lastMc

theorem callOf_error {a : SensorAnswers} {e : Errno} (h : obtainSample a = .error e)
    (fe : TempFrontEnd) : callOf a fe = ⟨none, false, none⟩ ∧
      (reflowTempRead a fe).2.spike = fe.spike := by
  simp [callOf, reflowTempRead, h, Except.toOption]

theorem callOf_ok {a : SensorAnswers} {raw : ℤ} (h : obtainSample a = .ok raw)
    (fe : TempFrontEnd) :
    callOf a fe = ⟨some raw, (reflowSpikeFilter fe.spike raw).1 ≠ .reject,
        some (reflowSpikeFilter fe.spike raw).2.1⟩ ∧
      (reflowTempRead a fe).2.spike = (reflowSpikeFilter fe.spike raw).2.2 := by
  simp [callOf, reflowTempRead, h, Except.toOption]

theorem readings_cases {s : Session} (hs : Remembers s) (a : SensorAnswers) :
    (∃ e, obtainSample a = .error e ∧
      (readings.step s a).calls = ⟨none, false, none⟩ :: s.calls ∧
      (readings.step s a).frontEnd.spike = s.frontEnd.spike) ∨
    (∃ raw, obtainSample a = .ok raw ∧
      (s.frontEnd.spike.haveLast = true → Far raw s.frontEnd.spike.lastMc →
        s.frontEnd.spike.rejects + 1 = reflowSpikeMaxRejects) ∧
      (readings.step s a).calls = ⟨some raw, true, some raw⟩ :: s.calls ∧
      (readings.step s a).frontEnd.spike = ⟨raw, 0, true⟩) ∨
    (∃ raw, obtainSample a = .ok raw ∧ s.frontEnd.spike.haveLast = true ∧
      Far raw s.frontEnd.spike.lastMc ∧ s.frontEnd.spike.rejects + 1 < reflowSpikeMaxRejects ∧
      (readings.step s a).calls = ⟨some raw, false, some s.frontEnd.spike.lastMc⟩ :: s.calls ∧
      (readings.step s a).frontEnd.spike =
        ⟨s.frontEnd.spike.lastMc, s.frontEnd.spike.rejects + 1, true⟩) := by
  simp only [readings]
  cases hsample : obtainSample a with
  | error e =>
    obtain ⟨hcall, hspike⟩ := callOf_error hsample s.frontEnd
    exact .inl ⟨e, rfl, by rw [hcall], hspike⟩
  | ok raw =>
    obtain ⟨hcall, hspike⟩ := callOf_ok hsample s.frontEnd
    obtain ⟨verdict, hne, hforced, he⟩ | ⟨hlast, hfar, hroom, he⟩ :=
      reflowSpikeFilter_cases hs.sane (plausible_of_obtainSample hsample)
    · refine .inr (.inl ⟨raw, rfl, hforced, ?_, ?_⟩)
      · rw [hcall, he]
        simp [hne]
      · rw [hspike, he]
    · refine .inr (.inr ⟨raw, rfl, hlast, hfar, hroom, ?_, ?_⟩)
      · rw [hcall, he]
        simp
      · rw [hspike, he]

theorem Remembers.step {s : Session} (h : Remembers s) (a : SensorAnswers) :
    Remembers (readings.step s a) := by
  obtain ⟨e, -, hcalls, hspike⟩ | ⟨raw, hraw, -, hcalls, hspike⟩ |
    ⟨raw, -, hlast, hfar, hroom, hcalls, hspike⟩ := readings_cases h a
  · refine ⟨hspike ▸ h.sane, fun hlast => ?_⟩
    rw [hspike] at hlast ⊢
    obtain ⟨late, b, older, heq, hb, hsample, hlate⟩ := h.believed hlast
    refine ⟨_ :: late, b, older, by rw [hcalls, heq]; rfl, hb, hsample, ?_⟩
    exact List.forall_mem_cons.mpr ⟨⟨rfl, nofun⟩, hlate⟩
  · refine ⟨?_, fun _ => ⟨[], _, s.calls, hcalls, rfl, by rw [hspike], nofun⟩⟩
    rw [hspike]
    exact ⟨Nat.zero_lt_of_lt h.sane.rejects, fun _ => plausible_of_obtainSample hraw, nofun⟩
  · obtain ⟨late, b, older, heq, hb, hsample, hlate⟩ := h.believed hlast
    refine ⟨?_, fun _ => ?_⟩
    · rw [hspike]
      exact ⟨hroom, fun _ => h.sane.lastPlausible hlast, nofun⟩
    · rw [hspike]
      refine ⟨_ :: late, b, older, by rw [hcalls, heq]; rfl, hb, hsample, ?_⟩
      refine List.forall_mem_cons.mpr ⟨⟨rfl, fun mc hmc => ?_⟩, hlate⟩
      obtain rfl : raw = mc := by simpa using hmc
      exact hfar

theorem not_far_self (mc : ℤ) : ¬Far mc mc := by
  simp [Far, reflowSpikeMaxStepMc]

theorem age_eq {s : Session} {late older : List Call} {b : Call}
    (hcalls : s.calls = late ++ b :: older) (hb : b.believed = true)
    (hlate : ∀ call ∈ late, call.believed = false) : age s = late.length + 1 := by
  have hskip : ∀ call ∈ late, ¬Call.believed call := fun call hcall => by
    simp [hlate call hcall]
  rw [age, hcalls, List.findIdx_append, List.findIdx_eq_length_of_false (by simpa using hskip),
    if_neg (by simp), List.findIdx_cons, hb]
  simp

/-- A suppressed sample is answered with the last one believed, and no other call since has
obtained that value. -/
theorem recent_step_iff {s : Session} (h : Remembers s) (a : SensorAnswers) :
    Recent (readings.step s a) ↔ Prompt s a := by
  obtain ⟨e, herror, hcalls, -⟩ | ⟨raw, hraw, hforced, hcalls, -⟩ |
    ⟨raw, hraw, hlast, hfar, hroom, hcalls, -⟩ := readings_cases h a
  · refine iff_of_true ?_ ?_
    · intro mc hmc
      simp [hcalls] at hmc
    · intro raw hraw
      exact absurd (herror.symm.trans hraw) nofun
  · refine iff_of_true ?_ ?_
    · intro mc hmc
      obtain rfl : raw = mc := by simpa [hcalls] using hmc
      exact ⟨_, by rw [hcalls]; exact List.mem_cons_self, rfl⟩
    · intro raw' hraw' hlast hfar hroom
      obtain rfl : raw = raw' := Except.ok.inj (hraw.symm.trans hraw')
      have := hforced hlast hfar
      omega
  · obtain ⟨late, b, older, heq, hb, hsample, hlate⟩ := h.believed hlast
    have hage := age_eq heq hb fun call hcall => (hlate call hcall).1
    have hmax : reflowSpikeMaxRejects = 2 + 1 := rfl
    constructor
    · intro hrecent _ _ _ _ _
      obtain ⟨call, hmem, hcall⟩ := hrecent _ (by rw [hcalls]; rfl)
      by_contra hold
      rw [hcalls, heq, hmax, List.take_succ_cons] at hmem
      rcases List.mem_cons.mp hmem with rfl | hmem
      · obtain rfl : raw = s.frontEnd.spike.lastMc := by simpa using hcall
        exact not_far_self _ hfar
      · rw [List.take_append_of_le_length (by omega)] at hmem
        exact not_far_self _ ((hlate call (List.mem_of_mem_take hmem)).2 _ hcall)
    · intro hprompt mc hmc
      have hnear := hprompt raw hraw hlast hfar hroom
      obtain rfl : s.frontEnd.spike.lastMc = mc := by simpa [hcalls] using hmc
      refine ⟨b, ?_, hsample⟩
      rw [hcalls, heq, hmax, List.take_succ_cons, List.take_append]
      refine List.mem_cons_of_mem _ (List.mem_append_right _ ?_)
      obtain ⟨k, hk⟩ : ∃ k, 2 - late.length = k + 1 :=
        ⟨1 - late.length, by omega⟩
      rw [hk, List.take_succ_cons]
      exact List.mem_cons_self

theorem remembers_init (fe : TempFrontEnd) : Remembers ⟨(reflowTempInit true fe).2, []⟩ :=
  ⟨sane_reset, nofun⟩

/-- Over every sequence of calls after an initialisation, each temperature reported is a
sample of the last three calls if and only if no sample is suppressed later than that. -/
theorem reports_recent_iff_prompt (fe : TempFrontEnd) (answers : List SensorAnswers) :
    (∀ s ∈ readings.visited ⟨(reflowTempInit true fe).2, []⟩ answers, Recent s) ↔
      (readings.restrict Prompt).Admitted ⟨(reflowTempInit true fe).2, []⟩ answers :=
  Machine.forall_visited_iff (I := Remembers) (fun _ a h _ => h.step a)
    (fun _ a h _ _ => recent_step_iff h a) (remembers_init fe) nofun
    (Machine.admitted_of_forall (fun _ _ => trivial) _ _)

def degrees (val : Int32) : SensorAnswers := ⟨.ok (), .ok ⟨val, 0⟩, .error .enotsup⟩

def openCircuit : SensorAnswers := ⟨.error (.other 2), .error .enotsup, .error .enotsup⟩

/-- After an outage of three calls a hot oven is still reported at the 25 degrees it had
before. -/
theorem outage_is_bridged : ¬∀ (fe : TempFrontEnd) (answers : List SensorAnswers),
    ∀ s ∈ readings.visited ⟨(reflowTempInit true fe).2, []⟩ answers, Recent s := by
  intro h
  have hrecent := h ⟨reflowSpikeReset, false⟩
    [degrees 25, openCircuit, openCircuit, openCircuit, degrees 100] _ (Machine.run_mem_visited _ _)
  have hobtained := hrecent 25000 (by decide +kernel)
  revert hobtained
  decide +kernel

end TemperatureReading

end ReflowOven
