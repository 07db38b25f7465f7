import Mathlib.Algebra.Order.Field.Basic
import Mathlib.Tactic.Linarith
import Mathlib.Tactic.Positivity
import ReflowOven.ControllerThread

/-!
# Bounds and anti-windup of the PID controller

In exact arithmetic. The output and the stored integral stay inside their clamps, the
filtered derivative is an average of zero and the raw derivatives seen, and a step whose
tentative sum leaves the output range in the direction of the error leaves the stored
integral as it found it, however many such steps follow one another.
-/

namespace ReflowOven.PidBounds

section Rational

@[simp] theorem lt_rat (a b : ℚ) : CFloat.lt a b = decide (a < b) := rfl

@[simp] theorem le_rat (a b : ℚ) : CFloat.le a b = decide (a ≤ b) := rfl

@[simp] theorem ne_rat (a b : ℚ) : CFloat.ne a b = decide (a ≠ b) := rfl

@[simp] theorem ofRat_rat (q : ℚ) : (CFloat.ofRat q : ℚ) = q := rfl

end Rational

theorem clampf_rat (v lo hi : ℚ) :
    clampf v lo hi = if v < lo then lo else if hi < v then hi else v := by
  simp [clampf]

theorem clampf_mem {lo hi : ℚ} (h : lo ≤ hi) (v : ℚ) :
    lo ≤ clampf v lo hi ∧ clampf v lo hi ≤ hi := by
  rw [clampf_rat]
  split_ifs with hlow hhigh
  · exact ⟨le_rfl, h⟩
  · exact ⟨h, le_rfl⟩
  · exact ⟨not_lt.mp hlow, not_lt.mp hhigh⟩

theorem clampf_of_mem {v lo hi : ℚ} (hlow : lo ≤ v) (hhigh : v ≤ hi) : clampf v lo hi = v := by
  rw [clampf_rat, if_neg (not_lt.mpr hlow), if_neg (not_lt.mpr hhigh)]

/-- What the clamp takes away from a value tells on which side it was outside. -/
theorem clampf_lt_iff {lo hi : ℚ} (h : lo ≤ hi) (v : ℚ) : clampf v lo hi < v ↔ hi < v := by
  rw [clampf_rat]
  split_ifs with hlow hhigh
  · exact iff_of_false (not_lt.mpr hlow.le) (not_lt.mpr (hlow.le.trans h))
  · exact iff_of_true hhigh hhigh
  · exact iff_of_false (lt_irrefl v) hhigh

theorem lt_clampf_iff (v lo hi : ℚ) : v < clampf v lo hi ↔ v < lo := by
  rw [clampf_rat]
  split_ifs with hlow hhigh
  · exact iff_of_true hlow hlow
  · exact iff_of_false (not_lt.mpr hhigh.le) hlow
  · exact iff_of_false (lt_irrefl v) hlow

structure PidInput where
  sp : ℚ
  meas : ℚ
  dtS : ℚ

/-- A time step of zero or less counts as a millisecond. -/
def effectiveDt (dtS : ℚ) : ℚ := if dtS ≤ 0 then 1 / 1000 else dtS

def rawDerivative (st : PidState ℚ) (x : PidInput) : ℚ :=
  (x.meas - st.prevMeas) / effectiveDt x.dtS

/-- The low-pass on the derivative path, which starts from zero. -/
def filtered (cfg : PidCfg ℚ) (st : PidState ℚ) (x : PidInput) : ℚ :=
  if st.hasPrev then st.dFilt + clampf cfg.dAlpha 0 1 * (rawDerivative st x - st.dFilt) else 0

def tentativeIntegral (cfg : PidCfg ℚ) (st : PidState ℚ) (x : PidInput) : ℚ :=
  clampf (st.integral + cfg.ki * (x.sp - x.meas) * effectiveDt x.dtS) cfg.iMin cfg.iMax

/-- `raw`, the sum with the tentative integral. -/
def tentativeSum (cfg : PidCfg ℚ) (st : PidState ℚ) (x : PidInput) : ℚ :=
  cfg.kp * (x.sp - x.meas) + tentativeIntegral cfg st x + -cfg.kd * filtered cfg st x

/-- The tentative sum is out of range, and the error pushes it further out. -/
def Saturated (cfg : PidCfg ℚ) (st : PidState ℚ) (x : PidInput) : Prop :=
  (cfg.outMax < tentativeSum cfg st x ∧ 0 < x.sp - x.meas) ∨
    (tentativeSum cfg st x < cfg.outMin ∧ x.sp - x.meas < 0)

instance (cfg : PidCfg ℚ) (st : PidState ℚ) (x : PidInput) : Decidable (Saturated cfg st x) :=
  inferInstanceAs (Decidable (_ ∨ _))

/-- The condition under which the code rolls the integral back. -/
theorem hold_iff {cfg : PidCfg ℚ} (hout : cfg.outMin ≤ cfg.outMax) (raw err : ℚ) :
    (raw ≠ clampf raw cfg.outMin cfg.outMax ∧
      (clampf raw cfg.outMin cfg.outMax < raw ∧ 0 < err ∨
        raw < clampf raw cfg.outMin cfg.outMax ∧ err < 0)) ↔
    cfg.outMax < raw ∧ 0 < err ∨ raw < cfg.outMin ∧ err < 0 := by
  rw [clampf_lt_iff hout, lt_clampf_iff, and_iff_right_iff_imp]
  rintro (⟨hhigh, -⟩ | ⟨hlow, -⟩)
  · exact ((clampf_lt_iff hout raw).mpr hhigh).ne'
  · exact ((lt_clampf_iff raw _ _).mpr hlow).ne

/-- One step in the terms above. -/
theorem pidStep_eq {cfg : PidCfg ℚ} (hout : cfg.outMin ≤ cfg.outMax) (st : PidState ℚ)
    (x : PidInput) :
    (pidStep cfg st x.sp x.meas x.dtS).2 = ⟨if Saturated cfg st x
        then clampf st.integral cfg.iMin cfg.iMax else tentativeIntegral cfg st x,
      x.meas, filtered cfg st x, true⟩ ∧
    ∃ raw, (pidStep cfg st x.sp x.meas x.dtS).1.out = clampf raw cfg.outMin cfg.outMax := by
  have hdt : (if CFloat.le x.dtS (CFloat.ofRat 0) = true then CFloat.ofRat (1 / 1000) else x.dtS) =
      effectiveDt x.dtS := by
    simp [effectiveDt]
  have hhold := hold_iff hout (tentativeSum cfg st x) (x.sp - x.meas)
  have hcode : (CFloat.ne (tentativeSum cfg st x)
        (clampf (tentativeSum cfg st x) cfg.outMin cfg.outMax) &&
      (CFloat.lt (clampf (tentativeSum cfg st x) cfg.outMin cfg.outMax) (tentativeSum cfg st x) &&
          CFloat.lt 0 (x.sp - x.meas) ||
        CFloat.lt (tentativeSum cfg st x)
            (clampf (tentativeSum cfg st x) cfg.outMin cfg.outMax) &&
          CFloat.lt (x.sp - x.meas) 0)) = true ↔ Saturated cfg st x := by
    simp only [ne_rat, lt_rat, Bool.and_eq_true, Bool.or_eq_true, decide_eq_true_eq]
    exact hhold
  constructor
  · simp only [pidStep]
    rw [hdt]
    exact congrArg (PidState.mk · x.meas (filtered cfg st x) true) (if_congr hcode rfl rfl)
  · exact ⟨_, (apply_ite (fun v => clampf v cfg.outMin cfg.outMax) _ _ _).symm⟩

/-- The controller after a reset: its state, its last output and every raw derivative a
step has seen. -/
structure PidTrace where
  st : PidState ℚ
  out : Option ℚ
  derivatives : List ℚ

/-- Any sequence of steps after a reset. -/
def pidLoop (cfg : PidCfg ℚ) : Machine PidTrace PidInput where
  init s := s = ⟨pidReset, none, []⟩
  admits _ _ := True
  step s x :=
    let step := pidStep cfg s.st x.sp x.meas x.dtS
    { st := step.2
      out := some step.1.out
      derivatives := if s.st.hasPrev then rawDerivative s.st x :: s.derivatives else s.derivatives }

instance (cfg : PidCfg ℚ) (s : PidTrace) (x : PidInput) : Decidable ((pidLoop cfg).admits s x) :=
  inferInstanceAs (Decidable True)

/-- The clamps are in order, and an integral of zero is inside its clamp. -/
structure Ordered (cfg : PidCfg ℚ) : Prop where
  out : cfg.outMin ≤ cfg.outMax
  i_low : cfg.iMin ≤ 0
  i_high : 0 ≤ cfg.iMax

/-- `v` lies in the range spanned by zero and the values of a list. -/
def Spanned (vs : List ℚ) (v : ℚ) : Prop := ∃ lo ∈ 0 :: vs, ∃ hi ∈ 0 :: vs, lo ≤ v ∧ v ≤ hi

theorem Spanned.cons {vs : List ℚ} {v : ℚ} (h : Spanned vs v) (w : ℚ) : Spanned (w :: vs) v := by
  obtain ⟨lo, hlo, hi, hhi, hle, hge⟩ := h
  have hmem : ∀ u ∈ 0 :: vs, u ∈ 0 :: w :: vs := by
    intro u hu
    rcases List.mem_cons.mp hu with rfl | hu
    · exact List.mem_cons_self
    · exact List.mem_cons_of_mem _ (List.mem_cons_of_mem _ hu)
  exact ⟨lo, hmem lo hlo, hi, hmem hi hhi, hle, hge⟩

/-- An average of a spanned value and a new one is spanned. -/
theorem Spanned.average {vs : List ℚ} {v : ℚ} (h : Spanned vs v) (w : ℚ) {a : ℚ} (h0 : 0 ≤ a)
    (h1 : a ≤ 1) : Spanned (w :: vs) (v + a * (w - v)) := by
  obtain ⟨lo, hlo, hi, hhi, hle, hge⟩ := h.cons w
  have hw : w ∈ 0 :: w :: vs := List.mem_cons_of_mem _ List.mem_cons_self
  rcases le_total v w with hvw | hvw
  · refine ⟨lo, hlo, w, hw, ?_, ?_⟩
    · have hstep : 0 ≤ a * (w - v) := mul_nonneg h0 (sub_nonneg.mpr hvw)
      linarith
    · have hstep : a * (w - v) ≤ 1 * (w - v) :=
        mul_le_mul_of_nonneg_right h1 (sub_nonneg.mpr hvw)
      linarith
  · refine ⟨w, hw, hi, hhi, ?_, ?_⟩
    · have hstep : a * (v - w) ≤ 1 * (v - w) :=
        mul_le_mul_of_nonneg_right h1 (sub_nonneg.mpr hvw)
      linarith
    · have hstep : 0 ≤ a * (v - w) := mul_nonneg h0 (sub_nonneg.mpr hvw)
      linarith

/-- Holds after any number of steps. -/
structure Bounded (cfg : PidCfg ℚ) (s : PidTrace) : Prop where
  out_mem : ∀ out, s.out = some out → cfg.outMin ≤ out ∧ out ≤ cfg.outMax
  integral_mem : cfg.iMin ≤ s.st.integral ∧ s.st.integral ≤ cfg.iMax
  derivative_spanned : Spanned s.derivatives s.st.dFilt

theorem Bounded.step {cfg : PidCfg ℚ} (hcfg : Ordered cfg) {s : PidTrace}
    (h : Bounded cfg s) (x : PidInput) : Bounded cfg ((pidLoop cfg).step s x) := by
  obtain ⟨hst, raw, hraw⟩ := pidStep_eq hcfg.out s.st x
  have hi := hcfg.i_low.trans hcfg.i_high
  exact
    { out_mem := by
        intro out hout
        obtain rfl : _ = out := Option.some.inj hout
        rw [hraw]
        exact clampf_mem hcfg.out raw
      integral_mem := by
        simp only [pidLoop, hst]
        split
        · exact clampf_mem hi _
        · exact clampf_mem hi _
      derivative_spanned := by
        simp only [pidLoop, hst, filtered]
        cases s.st.hasPrev with
        | true =>
          obtain ⟨h0, h1⟩ := clampf_mem (zero_le_one (α := ℚ)) cfg.dAlpha
          exact h.derivative_spanned.average _ h0 h1
        | false => exact ⟨0, List.mem_cons_self, 0, List.mem_cons_self, le_rfl, le_rfl⟩ }

/-- A saturated step leaves the stored integral alone. -/
theorem Bounded.hold {cfg : PidCfg ℚ} (hcfg : Ordered cfg) {s : PidTrace}
    (h : Bounded cfg s) {x : PidInput} (hsat : Saturated cfg s.st x) :
    ((pidLoop cfg).step s x).st.integral = s.st.integral := by
  obtain ⟨hst, -⟩ := pidStep_eq hcfg.out s.st x
  simp only [pidLoop, hst, if_pos hsat]
  exact clampf_of_mem h.integral_mem.1 h.integral_mem.2

/-- After any steps the controller is inside its bounds, and from there any stretch of
saturated steps ends with the integral it began with. -/
theorem pid_bounded_without_windup (cfg : PidCfg ℚ) (hcfg : Ordered cfg) {s : PidTrace}
    (hs : (pidLoop cfg).Reachable s) : Bounded cfg s ∧
      ∀ xs, ((pidLoop cfg).restrict fun s x => Saturated cfg s.st x).Admitted s xs →
        ((pidLoop cfg).run s xs).st.integral = s.st.integral := by
  have hbounded : Bounded cfg s := by
    apply hs.invariant
    · rintro s rfl
      exact
        { out_mem := nofun
          integral_mem := ⟨hcfg.i_low, hcfg.i_high⟩
          derivative_spanned := ⟨0, List.mem_cons_self, 0, List.mem_cons_self, le_rfl, le_rfl⟩ }
    · exact fun s x _ h _ => h.step hcfg x
  refine ⟨hbounded, fun xs hxs => ?_⟩
  have hstretch := Machine.run_invariant
    (M := (pidLoop cfg).restrict fun s x => Saturated cfg s.st x)
    (I := fun t => Bounded cfg t ∧ t.st.integral = s.st.integral) ?_ ⟨hbounded, rfl⟩ hxs
  · exact hstretch.2
  · rintro t x ⟨ht, heq⟩ ⟨-, hsat⟩
    exact ⟨ht.step hcfg x, (ht.hold hcfg hsat).trans heq⟩

/-- The gains of the stock configuration. -/
def ovenCfg : PidCfg ℚ := pidCfg .stock

/-- A cold oven far below its setpoint. -/
def coldStart : PidInput := ⟨250, 25, 1 / 4⟩

theorem pid_bounded_without_windup_cold :
    ((pidLoop ovenCfg).run ⟨pidReset, none, []⟩ (List.replicate 8 coldStart)).st.integral = 0 := by
  have hcfg : Ordered ovenCfg := ⟨by decide +kernel, by decide +kernel, by decide +kernel⟩
  have hreset : (pidLoop ovenCfg).Reachable ⟨pidReset, none, []⟩ := .start rfl
  exact (pid_bounded_without_windup ovenCfg hcfg hreset).2 _ (by decide +kernel)

end ReflowOven.PidBounds
