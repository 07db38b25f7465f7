import Mathlib.Data.List.DropRight
import ReflowOven.WifiReconnection

/-!
# The supervisor of the station link

The loop of `wifi_thread` in `wifi.c`, with the DHCP client configured. It keeps two notes of
whether the link was up, one of its own that it takes back in every turn without the link, and
one in the policy that it never takes back; with the count of attempts they stand for the
whole history of the link.
-/

namespace ReflowOven.LinkSupervision

/-- What a turn calls, its messages included. -/
inductive Call
  | linkLost
  | connect
  | connectFailed (ret : ℤ)
  | associating
  | dhcpStop
  | dhcpStart
  | linkUp
  | sleep (ms : ℕ)
  deriving DecidableEq, Repr

structure Supervisor where
  policy : ReflowWifiPolicy
  wasUp : Bool
  deriving DecidableEq, Repr

/-- What a turn finds: whether the link is ready, and the answer to a connect request. -/
structure Turn where
  ready : Bool
  ret : ℤ
  deriving DecidableEq, Repr

def Supervisor.init : Supervisor := ⟨reflowWifiPolicyInit, false⟩

def turn (s : Supervisor) (t : Turn) : List Call × Supervisor :=
  let (step, policy) := reflowWifiPolicyStep s.policy t.ready
  let (calls, wasUp) :=
    if step.action = .connect then
      ((if s.wasUp then [.linkLost] else []) ++ .connect ::
        (if t.ret ≠ 0 then [.connectFailed t.ret]
        else .associating :: ((if step.staleLease then [.dhcpStop] else []) ++ [.dhcpStart])),
        s.wasUp)
    else if !s.wasUp then ([.linkUp], true)
    else ([], s.wasUp)
  (calls ++ [.sleep step.waitMs], ⟨policy, if !t.ready then false else wasUp⟩)

def supervise (turns : List Turn) : Supervisor :=
  turns.foldl (fun s t => (turn s t).2) .init

section History

/-- The turns since the link was last ready. -/
def outage (past : List Bool) : ℕ := (past.rtakeWhile (!·)).length

/-- What the turn after a history is due to call. -/
def due (past : List Bool) (t : Turn) : List Call :=
  if t.ready then (if past.getLast? = some true then [] else [.linkUp]) ++ [.sleep 5000]
  else
    (if past.getLast? = some true then [.linkLost] else []) ++ .connect ::
      (if t.ret ≠ 0 then [.connectFailed t.ret]
      else .associating :: ((if true ∈ past then [.dhcpStop] else []) ++ [.dhcpStart])) ++
        [.sleep (if (outage past + 1) % 2 ^ 32 ≤ 1 then 15000 else 30000)]

theorem outage_concat (past : List Bool) (ready : Bool) :
    outage (past ++ [ready]) = if ready then 0 else outage past + 1 := by
  cases ready <;> simp [outage]

theorem backoffLoop_ceiling (i : ℕ) : backoffLoop i 30000 = 30000 := by
  cases i with
  | zero => rfl
  | succ i => exact if_pos (by decide)

/-- The wait doubles once. -/
theorem backoffMs_eq (attempts : ℕ) :
    backoffMs attempts = if attempts ≤ 1 then 15000 else 30000 := by
  match attempts with
  | 0 | 1 => rfl
  | attempts + 2 =>
    have hloop : backoffLoop (attempts + 1) reflowWifiRetryMinMs = 30000 :=
      (if_neg (by decide)).trans (backoffLoop_ceiling attempts)
    rw [backoffMs, if_neg (by omega : ¬attempts + 2 ≤ 1),
      show attempts + 2 - 1 = attempts + 1 from rfl, hloop]
    rfl

/-- The notes and the history they stand for. -/
structure Remembers (past : List Bool) (s : Supervisor) : Prop where
  wasUp : s.wasUp = decide (past.getLast? = some true)
  policyUp : s.policy.wasUp = decide (true ∈ past)
  attempts : s.policy.attempts = outage past % 2 ^ 32

theorem remembers_init : Remembers [] .init := ⟨rfl, rfl, rfl⟩

theorem Remembers.turn {past : List Bool} {s : Supervisor} (h : Remembers past s) (t : Turn) :
    (turn s t).1 = due past t ∧ Remembers (past ++ [t.ready]) (turn s t).2 := by
  obtain ⟨hwasUp, hpolicyUp, hattempts⟩ := h
  have hcount : u32 (s.policy.attempts + 1) = (outage past + 1) % 2 ^ 32 := by
    rw [hattempts]
    simp only [u32]
    omega
  cases hready : t.ready with
  | true =>
    refine ⟨?_, ?_, ?_, ?_⟩
    · by_cases hlast : past.getLast? = some true <;>
        simp [LinkSupervision.turn, due, reflowWifiPolicyStep, reflowWifiSuperviseMs, hready,
          hwasUp, hlast]
    · cases hlast : s.wasUp <;> simp [LinkSupervision.turn, reflowWifiPolicyStep, hready, hlast]
    · simp [LinkSupervision.turn, reflowWifiPolicyStep, hready]
    · simp [LinkSupervision.turn, reflowWifiPolicyStep, hready, outage_concat]
  | false =>
    refine ⟨?_, ?_, ?_, ?_⟩
    · simp [LinkSupervision.turn, due, reflowWifiPolicyStep, hready, hwasUp, hpolicyUp, hcount,
        backoffMs_eq]
    · simp [LinkSupervision.turn, reflowWifiPolicyStep, hready]
    · simp [LinkSupervision.turn, reflowWifiPolicyStep, hready, hpolicyUp]
    · simp [LinkSupervision.turn, reflowWifiPolicyStep, hready, outage_concat, hcount]

theorem remembers_supervise (turns : List Turn) :
    Remembers (turns.map Turn.ready) (supervise turns) := by
  induction turns using List.reverseRecOn with
  | nil => exact remembers_init
  | append_singleton turns t ih =>
    rw [List.map_append, supervise, List.foldl_append]
    exact (ih.turn t).2

/-- After any history of the link, a turn does what that history calls for. It connects exactly
when the link is not ready, and tells of a loss once; where its request is taken it drops the
lease exactly when the link has been up before, however often it has tried since; and it sleeps
15 s after the first attempt of an outage and 30 s after each later one, save that the count of
attempts comes round. -/
theorem turn_follows_history (turns : List Turn) (t : Turn) :
    (turn (supervise turns) t).1 = due (turns.map Turn.ready) t :=
  ((remembers_supervise turns).turn t).1

end History

end ReflowOven.LinkSupervision
