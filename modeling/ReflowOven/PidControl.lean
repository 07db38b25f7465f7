import Mathlib.Data.Rat.Floor
import ReflowOven.MachineArithmetic

/-!
# The PID controller

`pid.c` computes in `float`. The model is generic in the arithmetic: `CFloat` lists the
operations of C floating point the code uses and assumes no law about them, so what is
proved of the control loop holds of IEEE arithmetic as well. Exact rational arithmetic is
one instance, and the executable one.
-/

namespace ReflowOven

/-- The operations of a C floating type. Comparisons are separate operations because in
the presence of NaN they are not determined by one another. -/
class CFloat (F : Type) extends Add F, Sub F, Mul F, Div F, Neg F where
  /-- A literal, or the conversion of an integer. -/
  ofRat : ℚ → F
  lt : F → F → Bool
  le : F → F → Bool
  ne : F → F → Bool
  /-- The conversion `(uint16_t)`. -/
  toU16 : F → ℕ

instance : CFloat ℚ where
  ofRat := id
  lt a b := decide (a < b)
  le a b := decide (a ≤ b)
  ne a b := decide (a ≠ b)
  toU16 q := u16 ⌊q⌋.toNat

variable {F : Type} [CFloat F]

structure PidCfg (F : Type) where
  kp : F
  ki : F
  kd : F
  outMin : F
  outMax : F
  iMin : F
  iMax : F
  dAlpha : F

structure PidState (F : Type) where
  integral : F
  prevMeas : F
  dFilt : F
  hasPrev : Bool

structure PidTerms (F : Type) where
  p : F
  i : F
  d : F
  out : F

def clampf (v lo hi : F) : F :=
  if CFloat.lt v lo then lo else if CFloat.lt hi v then hi else v

def pidReset : PidState F := ⟨CFloat.ofRat 0, CFloat.ofRat 0, CFloat.ofRat 0, false⟩

/-- One control step: the terms, with the value returned in `out`, and the new state. -/
def pidStep (cfg : PidCfg F) (st : PidState F) (sp meas dtS : F) : PidTerms F × PidState F :=
  let zero : F := CFloat.ofRat 0
  let err := sp - meas
  let dtS := if CFloat.le dtS zero then CFloat.ofRat (1 / 1000) else dtS
  let p := cfg.kp * err
  let dFilt :=
    if st.hasPrev then
      let dmeas := (meas - st.prevMeas) / dtS
      let alpha := clampf cfg.dAlpha zero (CFloat.ofRat 1)
      st.dFilt + alpha * (dmeas - st.dFilt)
    else zero
  let d := -cfg.kd * dFilt
  let i := clampf (st.integral + cfg.ki * err * dtS) cfg.iMin cfg.iMax
  let raw := p + i + d
  let out := clampf raw cfg.outMin cfg.outMax
  -- saturated, and the error would push it further out: hold the integral
  let hold := CFloat.ne raw out &&
    ((CFloat.lt out raw && CFloat.lt zero err) || (CFloat.lt raw out && CFloat.lt err zero))
  let i := if hold then clampf st.integral cfg.iMin cfg.iMax else i
  let out := if hold then clampf (p + i + d) cfg.outMin cfg.outMax else out
  (⟨p, i, d, out⟩, ⟨i, meas, dFilt, true⟩)

end ReflowOven
