import ReflowOven.GuardedMachines
import ReflowOven.MachineArithmetic

/-!
# The spike rejector of the temperature path

The filter of `tempguard.c`. A sample far from the last one believed is suppressed, and the
last one believed is reported in its place, until a third such sample in a row is believed
after all. So what is reported is never older than the samples suppressed since.
-/

namespace ReflowOven

def reflowSpikeMaxStepMc : ℤ := 40000

def reflowSpikeMaxRejects : ℕ := 3

structure ReflowSpike where
  lastMc : ℤ
  rejects : ℕ
  haveLast : Bool
  deriving DecidableEq

inductive ReflowSpikeResult | accept | reject | forced
  deriving DecidableEq, Repr

def reflowSpikeReset : ReflowSpike := ⟨0, 0, false⟩

/-- The local `jumped`: the differences of the source, taken in 32 bits. -/
def jumped (s : ReflowSpike) (rawMc : ℤ) : Bool :=
  decide (i32 (rawMc - s.lastMc) > reflowSpikeMaxStepMc) ||
    decide (i32 (s.lastMc - rawMc) > reflowSpikeMaxStepMc)

/-- The verdict, the value for the control loop, and the filter after the sample. -/
def reflowSpikeFilter (s : ReflowSpike) (rawMc : ℤ) : ReflowSpikeResult × ℤ × ReflowSpike :=
  if !s.haveLast then (.accept, rawMc, ⟨rawMc, 0, true⟩)
  else if !jumped s rawMc then (.accept, rawMc, { s with rejects := 0, lastMc := rawMc })
  else if s.rejects + 1 < reflowSpikeMaxRejects then
    (.reject, s.lastMc, { s with rejects := u8 (s.rejects + 1) })
  else (.forced, rawMc, { s with rejects := 0, lastMc := rawMc })

namespace SpikeFilter

/-- The plausibility window of the caller. -/
def Plausible (mc : ℤ) : Prop := -20000 ≤ mc ∧ mc ≤ 400000

instance (mc : ℤ) : Decidable (Plausible mc) := inferInstanceAs (Decidable (_ ∧ _))

/-- Too far from the last sample believed to be anything but noise. -/
def Far (a b : ℤ) : Prop := reflowSpikeMaxStepMc < a - b ∨ reflowSpikeMaxStepMc < b - a

theorem jumped_iff {s : ReflowSpike} {rawMc : ℤ} (hlast : Plausible s.lastMc)
    (hraw : Plausible rawMc) : jumped s rawMc = true ↔ Far rawMc s.lastMc := by
  obtain ⟨hlo, hhi⟩ := hlast
  obtain ⟨hlo', hhi'⟩ := hraw
  simp only [jumped, i32_eq (z := rawMc - s.lastMc) (by omega) (by omega),
    i32_eq (z := s.lastMc - rawMc) (by omega) (by omega)]
  simp [Far]

/-- What the filter knows: its counter, and a last sample that was plausible. -/
structure Sane (s : ReflowSpike) : Prop where
  rejects : s.rejects < reflowSpikeMaxRejects
  lastPlausible : s.haveLast = true → Plausible s.lastMc
  none_rejected : s.haveLast = false → s.rejects = 0

/-- A sample is believed and reported, or it is far from the last one and suppressed. -/
theorem reflowSpikeFilter_cases {s : ReflowSpike} (hs : Sane s) {rawMc : ℤ}
    (hraw : Plausible rawMc) :
    (∃ verdict, verdict ≠ .reject ∧
      (s.haveLast = true → Far rawMc s.lastMc → s.rejects + 1 = reflowSpikeMaxRejects) ∧
      reflowSpikeFilter s rawMc = (verdict, rawMc, ⟨rawMc, 0, true⟩)) ∨
    (s.haveLast = true ∧ Far rawMc s.lastMc ∧ s.rejects + 1 < reflowSpikeMaxRejects ∧
      reflowSpikeFilter s rawMc = (.reject, s.lastMc, ⟨s.lastMc, s.rejects + 1, true⟩)) := by
  have hrejects := hs.rejects
  simp only [reflowSpikeFilter]
  by_cases hlast : s.haveLast = true
  · have hfar := jumped_iff (hs.lastPlausible hlast) hraw
    by_cases hjump : jumped s rawMc = true
    · by_cases hroom : s.rejects + 1 < reflowSpikeMaxRejects
      · refine .inr ⟨hlast, hfar.mp hjump, hroom, ?_⟩
        simp only [reflowSpikeMaxRejects] at hroom
        simp [hlast, hjump, hroom, reflowSpikeMaxRejects, u8_eq (n := s.rejects + 1) (by omega)]
      · refine .inl ⟨.forced, by decide, fun _ _ => by omega, ?_⟩
        simp [hlast, hjump, hroom]
    · refine .inl ⟨.accept, by decide, fun _ h => absurd (hfar.mpr h) hjump, ?_⟩
      simp [hlast, hjump]
  · refine .inl ⟨.accept, by decide, fun h => absurd h hlast, ?_⟩
    simp [hlast]

theorem Sane.step {s : ReflowSpike} (hs : Sane s) {rawMc : ℤ} (hraw : Plausible rawMc) :
    Sane (reflowSpikeFilter s rawMc).2.2 := by
  obtain ⟨_, -, -, he⟩ | ⟨hlast, -, hroom, he⟩ := reflowSpikeFilter_cases hs hraw
  · rw [he]
    exact ⟨Nat.zero_lt_of_lt hs.rejects, fun _ => hraw, nofun⟩
  · rw [he]
    exact ⟨hroom, fun _ => hs.lastPlausible hlast, nofun⟩

theorem sane_reset : Sane reflowSpikeReset := ⟨by decide, nofun, fun _ => rfl⟩

/-- A sample with the verdict on it and the value reported for it. -/
structure Fed where
  rawMc : ℤ
  verdict : ReflowSpikeResult
  outMc : ℤ
  deriving DecidableEq

/-- The filter, and the samples it was fed since its reset, newest first. -/
structure Filtering where
  spike : ReflowSpike
  fed : List Fed
  deriving DecidableEq

def feed (f : Filtering) (rawMc : ℤ) : Filtering :=
  let r := reflowSpikeFilter f.spike rawMc
  ⟨r.2.2, ⟨rawMc, r.1, r.2.1⟩ :: f.fed⟩

/-- Every stream of plausible samples after a reset. -/
def spikeFilter : Machine Filtering ℤ where
  init f := f = ⟨reflowSpikeReset, []⟩
  admits _ rawMc := Plausible rawMc
  step := feed

instance (f : Filtering) (rawMc : ℤ) : Decidable (spikeFilter.admits f rawMc) :=
  inferInstanceAs (Decidable (Plausible rawMc))

/-- The last sample believed is the one the counter points at, and the samples after it were
suppressed, each of them far from it. -/
structure Tracks (f : Filtering) : Prop where
  sane : Sane f.spike
  fed : f.spike.haveLast = false → f.fed = []
  believed : f.spike.haveLast = true → ∃ late b older, f.fed = late ++ b :: older ∧
    late.length = f.spike.rejects ∧ b.rawMc = f.spike.lastMc ∧ b.verdict ≠ .reject ∧
    ∀ x ∈ late, x.verdict = .reject ∧ Far x.rawMc b.rawMc ∧ x.outMc = b.rawMc
  reported : ∀ x ∈ f.fed.head?, x.outMc = f.spike.lastMc
  passed : ∀ x ∈ f.fed, x.verdict ≠ .reject → x.outMc = x.rawMc

theorem tracks_reset : Tracks ⟨reflowSpikeReset, []⟩ :=
  ⟨sane_reset, fun _ => rfl, nofun, nofun, nofun⟩

theorem Tracks.step {f : Filtering} (h : Tracks f) {rawMc : ℤ} (hraw : Plausible rawMc) :
    Tracks (feed f rawMc) := by
  have hsane := h.sane.step hraw
  obtain ⟨verdict, hne, -, he⟩ | ⟨hlast, hfar, -, he⟩ := reflowSpikeFilter_cases h.sane hraw
  · simp only [feed]
    simp only [he] at hsane ⊢
    refine ⟨hsane, nofun, fun _ => ⟨[], _, f.fed, rfl, rfl, rfl, hne, nofun⟩, by simp, ?_⟩
    exact List.forall_mem_cons.mpr ⟨fun _ => rfl, h.passed⟩
  · obtain ⟨late, b, older, hfed, hlen, hb, hbelieved, hlate⟩ := h.believed hlast
    simp only [feed]
    simp only [he] at hsane ⊢
    refine ⟨hsane, nofun, fun _ => ⟨_ :: late, b, older, by rw [hfed]; rfl, by simp [hlen], hb,
      hbelieved, ?_⟩, by simp, ?_⟩
    · exact List.forall_mem_cons.mpr ⟨⟨rfl, hb ▸ hfar, hb.symm⟩, hlate⟩
    · exact List.forall_mem_cons.mpr ⟨fun hreject => absurd rfl hreject, h.passed⟩

theorem tracks_of_reachable {f : Filtering} (h : spikeFilter.Reachable f) : Tracks f := by
  apply h.invariant
  · rintro f rfl
    exact tracks_reset
  · exact fun f rawMc _ hf hraw => hf.step hraw

/-- How far the reports lag behind the samples. -/
structure BoundedLag (f : Filtering) : Prop where
  rejects : f.spike.rejects ≤ reflowSpikeMaxRejects - 1
  lag : ∀ x ∈ f.fed.head?, (f.fed[f.spike.rejects]?).map Fed.rawMc = some x.outMc
  window : ∀ x y z older, f.fed = x :: y :: z :: older →
    ¬(x.verdict = .reject ∧ y.verdict = .reject ∧ z.verdict = .reject)
  suppressed : ∀ x older, f.fed = x :: older → x.verdict = .reject →
    ∃ b ∈ older.find? (·.verdict ≠ .reject), Far x.rawMc b.rawMc
  passed : ∀ x ∈ f.fed, x.verdict ≠ .reject → x.outMc = x.rawMc
  settles : ∀ x y z older, f.fed = x :: y :: z :: older → x.rawMc = y.rawMc →
    y.rawMc = z.rawMc → x.outMc = x.rawMc

theorem Tracks.lag {f : Filtering} (h : Tracks f) :
    ∀ x ∈ f.fed.head?, (f.fed[f.spike.rejects]?).map Fed.rawMc = some x.outMc := by
  intro x hx
  by_cases hlast : f.spike.haveLast = true
  · obtain ⟨late, b, older, hfed, hlen, hb, -, -⟩ := h.believed hlast
    rw [h.reported x hx, ← hb, hfed, ← hlen]
    simp
  · rw [h.fed (by simpa using hlast)] at hx
    simp at hx

/-- The samples suppressed now are the newest ones, and the one before them was believed. -/
theorem Tracks.suppressed {f : Filtering} (h : Tracks f) {x : Fed} {older : List Fed}
    (hfed : f.fed = x :: older) (hx : x.verdict = .reject) :
    ∃ b ∈ older.find? (·.verdict ≠ .reject), Far x.rawMc b.rawMc := by
  by_cases hlast : f.spike.haveLast = true
  · obtain ⟨late, b, rest, hfed', -, -, hb, hlate⟩ := h.believed hlast
    rw [hfed] at hfed'
    cases late with
    | nil =>
      obtain ⟨rfl, -⟩ := List.cons.inj hfed'
      exact absurd hx hb
    | cons y late =>
      obtain ⟨rfl, rfl⟩ := List.cons.inj hfed'
      obtain ⟨⟨-, hfar, -⟩, hlate⟩ := List.forall_mem_cons.mp hlate
      have hskip : late.find? (·.verdict ≠ .reject) = none :=
        List.find?_eq_none.mpr fun y hy => by simp [(hlate y hy).1]
      have hfind : (late ++ b :: rest).find? (·.verdict ≠ .reject) = some b := by
        rw [List.find?_append, hskip, Option.none_or, List.find?_cons_of_pos (by simpa using hb)]
      exact ⟨b, hfind, hfar⟩
  · rw [h.fed (by simpa using hlast)] at hfed
    exact absurd hfed nofun

/-- Over every stream of plausible samples the filter lags by the samples it has suppressed,
which are never more than two. -/
theorem boundedLag_of_reachable {f : Filtering} (h : spikeFilter.Reachable f) : BoundedLag f := by
  have htracks := tracks_of_reachable h
  have hrejects := htracks.sane.rejects
  constructor
  case rejects => omega
  case lag => exact htracks.lag
  case window =>
    rintro x y z older hfed ⟨hx, hy, hz⟩
    by_cases hlast : f.spike.haveLast = true
    · obtain ⟨late, b, rest, hfed', hlen, -, hb, -⟩ := htracks.believed hlast
      rw [hfed] at hfed'
      match late with
      | [] => exact hb ((List.cons.inj hfed').1 ▸ hx)
      | [_] => exact hb ((List.cons.inj (List.cons.inj hfed').2).1 ▸ hy)
      | [_, _] => exact hb ((List.cons.inj (List.cons.inj (List.cons.inj hfed').2).2).1 ▸ hz)
      | _ :: _ :: _ :: _ =>
        simp only [List.length_cons, reflowSpikeMaxRejects] at hlen hrejects
        omega
    · rw [htracks.fed (by simpa using hlast)] at hfed
      exact absurd hfed nofun
  case suppressed => exact fun _ _ => htracks.suppressed
  case passed => exact htracks.passed
  case settles =>
    intro x y z older hfed hxy hyz
    have hlag := htracks.lag x (by simp [hfed])
    rw [hfed] at hlag
    simp only [reflowSpikeMaxRejects] at hrejects
    match hn : f.spike.rejects with
    | 0 => simpa [hn] using hlag.symm
    | 1 => simpa [hn, hxy] using hlag.symm
    | 2 => simpa [hn, hxy, hyz] using hlag.symm
    | n + 3 => omega

/-- A jump is held back twice. -/
theorem boundedLag_jump : BoundedLag
    (spikeFilter.run ⟨reflowSpikeReset, []⟩ [25000, 100000, 100500]) := by
  have hreset : spikeFilter.Reachable ⟨reflowSpikeReset, []⟩ := .start rfl
  exact boundedLag_of_reachable (hreset.run (by decide))

end SpikeFilter

end ReflowOven
