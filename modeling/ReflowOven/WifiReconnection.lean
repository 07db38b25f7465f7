import ReflowOven.MachineArithmetic

/-!
# When the station link is associated again

The policy `wifipolicy.c`: one step for each turn of `wifi_thread`.
-/

namespace ReflowOven

def reflowWifiSuperviseMs : ℕ := 5000

def reflowWifiRetryMinMs : ℕ := 15000

def reflowWifiRetryMaxMs : ℕ := 30000

inductive ReflowWifiAction | connect | watch
  deriving DecidableEq, Repr

structure ReflowWifiStep where
  action : ReflowWifiAction
  waitMs : ℕ
  staleLease : Bool
  deriving DecidableEq, Repr

structure ReflowWifiPolicy where
  attempts : ℕ
  wasUp : Bool
  deriving DecidableEq, Repr

def reflowWifiPolicyInit : ReflowWifiPolicy := ⟨0, false⟩

/-- The loop of `backoff_ms` with `i` passes left. -/
def backoffLoop : ℕ → ℕ → ℕ
  | 0, ms => ms
  | i + 1, ms => if ms ≥ reflowWifiRetryMaxMs then ms else backoffLoop i (u32 (ms * 2))

def backoffMs (attempts : ℕ) : ℕ :=
  let ms := backoffLoop (attempts - 1) reflowWifiRetryMinMs
  if ms > reflowWifiRetryMaxMs then reflowWifiRetryMaxMs else ms

def reflowWifiPolicyStep (p : ReflowWifiPolicy) (linkReady : Bool) :
    ReflowWifiStep × ReflowWifiPolicy :=
  if linkReady then (⟨.watch, reflowWifiSuperviseMs, false⟩, ⟨0, true⟩)
  else
    let attempts := u32 (p.attempts + 1)
    (⟨.connect, backoffMs attempts, p.wasUp⟩, { p with attempts := attempts })

theorem reflowWifiPolicyStep_action (p : ReflowWifiPolicy) (linkReady : Bool) :
    (reflowWifiPolicyStep p linkReady).1.action = .connect ↔ linkReady = false := by
  cases linkReady <;> simp [reflowWifiPolicyStep]

end ReflowOven
