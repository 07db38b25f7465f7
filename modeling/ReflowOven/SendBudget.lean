import Mathlib.Data.Int.Basic

/-!
# The two deadlines of the web server

The module `sendbudget.c`. The budget of a send and the budget of an idle connection are
distinct types over one piece of arithmetic. Uptime is a non-negative `int64_t`, so the
differences of two readings are exact.
-/

namespace ReflowOven

structure ReflowSendBudget where
  sinceMs : ℤ
  budgetMs : ℤ
  armed : Bool
  deriving DecidableEq

structure ReflowIdleBudget where
  sinceMs : ℤ
  budgetMs : ℤ
  armed : Bool
  deriving DecidableEq

def deadlinePassed (armed : Bool) (sinceMs budgetMs nowMs : ℤ) : Bool :=
  if !armed then false else nowMs - sinceMs > budgetMs

def reflowSendBudgetStart (nowMs budgetMs : ℤ) : ReflowSendBudget :=
  ⟨nowMs, budgetMs, budgetMs > 0⟩

def reflowSendBudgetProgress (b : ReflowSendBudget) (nowMs : ℤ) : ReflowSendBudget :=
  { b with sinceMs := nowMs }

def reflowSendBudgetExpired (b : ReflowSendBudget) (nowMs : ℤ) : Bool :=
  deadlinePassed b.armed b.sinceMs b.budgetMs nowMs

def reflowIdleBudgetStart (nowMs budgetMs : ℤ) : ReflowIdleBudget :=
  ⟨nowMs, budgetMs, budgetMs > 0⟩

def reflowIdleBudgetDisarm (b : ReflowIdleBudget) : ReflowIdleBudget := { b with armed := false }

def reflowIdleBudgetExpired (b : ReflowIdleBudget) (nowMs : ℤ) : Bool :=
  deadlinePassed b.armed b.sinceMs b.budgetMs nowMs

theorem deadlinePassed_iff {armed : Bool} {sinceMs budgetMs nowMs : ℤ} :
    deadlinePassed armed sinceMs budgetMs nowMs = true ↔
      armed = true ∧ nowMs - sinceMs > budgetMs := by
  cases armed <;> simp [deadlinePassed]

/-- A disarmed connection is never past its deadline. -/
theorem reflowIdleBudgetExpired_of_disarmed {b : ReflowIdleBudget} (h : b.armed = false)
    (nowMs : ℤ) : reflowIdleBudgetExpired b nowMs = false := by
  simp [reflowIdleBudgetExpired, deadlinePassed, h]

end ReflowOven
