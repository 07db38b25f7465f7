import ReflowOven.GuardedMachines
import ReflowOven.KernelSemaphores
import ReflowOven.WifiReconnection

/-!
# The link gate and the link supervisor

The semaphore of `l4.c`, the handler that gives or resets it, and any number of callers of
`reflow_net_wait_ready` between whose take and give other steps may fall. One caller is
`wifi_thread`: it never waits, and each of its calls is followed by a step of the
reconnection policy.

A disconnection that falls between a caller's take and its give is undone by the give. The
supervisor then finds the link ready on every later turn.
-/

namespace ReflowOven.LinkReadiness

universe u

variable {τ : Type u}

inductive L4Event | connected | disconnected
  deriving DecidableEq, Repr

inductive Event (τ : Type u)
  | l4 (e : L4Event)
  | take (c : τ) (noWait : Bool) (place : ℕ)
  | expire (c : τ)
  | give (c : τ)

/-- `took` are the callers between their take and their give; the record of finished calls
and of the supervisor's turns is newest first. -/
structure Gate (τ : Type u) where
  l4Ready : KSem τ
  took : List τ
  policy : ReflowWifiPolicy
  turns : List ReflowWifiStep
  outcomes : List (τ × Bool)
  lastEvent : Option L4Event

def Gate.boot : Gate τ where
  l4Ready := ⟨0, 1, []⟩
  took := []
  policy := reflowWifiPolicyInit
  turns := []
  outcomes := []
  lastEvent := none

/-- `k_sem_give(&l4_ready)`. -/
def signal (g : Gate τ) : Gate τ :=
  { g with l4Ready := g.l4Ready.give.2, took := g.l4Ready.give.1.toList ++ g.took }

/-- No call of `reflow_net_wait_ready` is in progress. -/
def Gate.Quiet (g : Gate τ) : Prop := g.took = [] ∧ g.l4Ready.waiters = []

/-- Between `g` and `g'` every call failed, and every turn of the supervisor connected. -/
structure FailsOnly (g g' : Gate τ) : Prop where
  calls : ∃ new, g'.outcomes = new ++ g.outcomes ∧ ∀ o ∈ new, o.2 = false
  turns : ∃ new, g'.turns = new ++ g.turns ∧ ∀ step ∈ new, step.action = .connect

def IsCall : Event τ → Prop
  | .l4 _ => False
  | .take _ _ _ | .expire _ | .give _ => True

/-- No disconnection is delivered between a caller's take and its give. -/
def Undisturbed (g : Gate τ) : Event τ → Prop
  | .l4 .disconnected => g.took = []
  | .l4 .connected | .take _ _ _ | .expire _ | .give _ => True

theorem FailsOnly.refl (g : Gate τ) : FailsOnly g g :=
  ⟨⟨[], rfl, by simp⟩, [], rfl, by simp⟩

theorem FailsOnly.trans {g₁ g₂ g₃ : Gate τ} (h : FailsOnly g₁ g₂) (h' : FailsOnly g₂ g₃) :
    FailsOnly g₁ g₃ := by
  obtain ⟨⟨new, hnew, hfail⟩, turns, hturns, hconnect⟩ := h
  obtain ⟨⟨new', hnew', hfail'⟩, turns', hturns', hconnect'⟩ := h'
  refine ⟨⟨new' ++ new, by simp [hnew', hnew], ?_⟩, turns' ++ turns, by simp [hturns', hturns], ?_⟩
  · exact fun o ho => (List.mem_append.mp ho).elim (hfail' o) (hfail o)
  · exact fun s hs => (List.mem_append.mp hs).elim (hconnect' s) (hconnect s)

/-- After a drop nothing is left to take, and nothing is about to be given back. -/
def Tight (g : Gate τ) : Prop :=
  g.lastEvent = some .disconnected → g.l4Ready.count = 0 ∧ g.took = []

/-- What every run keeps. -/
structure Sound (g : Gate τ) : Prop where
  drained : g.l4Ready.Drained
  limit : g.l4Ready.limit = 1

theorem Sound.boot : Sound (Gate.boot : Gate τ) := ⟨fun _ => rfl, rfl⟩

theorem Sound.signal {g : Gate τ} (h : Sound g) : Sound (signal g) := by
  refine ⟨h.drained.give, ?_⟩
  simp only [LinkReadiness.signal, KSem.give]
  split <;> exact h.limit

theorem Sound.of_sem {g g' : Gate τ} (h : Sound g) (hsem : g'.l4Ready = g.l4Ready) : Sound g' :=
  ⟨hsem ▸ h.drained, hsem ▸ h.limit⟩

variable [DecidableEq τ]

/-- A call returns; a turn of the supervisor goes on with its policy. -/
def finish (wifi : τ) (ok : Bool) (g : Gate τ) (c : τ) : Gate τ :=
  let g := { g with outcomes := (c, ok) :: g.outcomes }
  if c = wifi then
    { g with
      turns := (reflowWifiPolicyStep g.policy ok).1 :: g.turns
      policy := (reflowWifiPolicyStep g.policy ok).2 }
  else g

def mgmtHandler (wifi : τ) (g : Gate τ) : L4Event → Gate τ
  | .connected => { signal g with lastEvent := some .connected }
  | .disconnected =>
    let g' := g.l4Ready.reset.1.foldl (finish wifi false) { g with l4Ready := g.l4Ready.reset.2 }
    { g' with lastEvent := some .disconnected }

/-- The first step of `reflow_net_wait_ready`. -/
def waitReady (wifi : τ) (g : Gate τ) (c : τ) (noWait : Bool) (place : ℕ) : Gate τ :=
  let g' := { g with l4Ready := (g.l4Ready.take noWait place c).2 }
  match (g.l4Ready.take noWait place c).1 with
  | .taken => { g' with took := c :: g'.took }
  | .busy => finish wifi false g' c
  | .pended => g'

def linkGate (wifi : τ) : Machine (Gate τ) (Event τ) where
  init g := g = .boot
  admits
    | _, .l4 _ => True
    | g, .take c noWait _ => c ∉ g.l4Ready.waiters ∧ c ∉ g.took ∧ (c = wifi → noWait = true)
    | g, .expire c => c ∈ g.l4Ready.waiters
    | g, .give c => c ∈ g.took
  step
    | g, .l4 e => mgmtHandler wifi g e
    | g, .take c noWait place => waitReady wifi g c noWait place
    | g, .expire c =>
      finish wifi false
        { g with l4Ready := { g.l4Ready with waiters := g.l4Ready.waiters.erase c } } c
    | g, .give c => finish wifi true (signal { g with took := g.took.erase c }) c

/-- A drop with no call in progress is seen by every call and turn until the link is
connected again. -/
def Heeds (wifi : τ) (g : Gate τ) : Prop :=
  g.lastEvent = some .disconnected → g.Quiet → ∀ events : List (Event τ),
    (linkGate wifi).Admitted g events → (∀ e ∈ events, e ≠ .l4 .connected) →
    FailsOnly g ((linkGate wifi).run g events)

section Finish

variable (wifi : τ) (ok : Bool) (g : Gate τ) (c : τ)

@[simp] theorem finish_l4Ready : (finish wifi ok g c).l4Ready = g.l4Ready := by
  simp only [finish]
  split_ifs <;> rfl

@[simp] theorem finish_took : (finish wifi ok g c).took = g.took := by
  simp only [finish]
  split_ifs <;> rfl

@[simp] theorem finish_lastEvent : (finish wifi ok g c).lastEvent = g.lastEvent := by
  simp only [finish]
  split_ifs <;> rfl

end Finish

/-- A call that fails, and the turn that may follow it. -/
theorem failsOnly_finish (wifi : τ) {g g' : Gate τ} (ho : g'.outcomes = g.outcomes)
    (ht : g'.turns = g.turns) (c : τ) : FailsOnly g (finish wifi false g' c) := by
  refine ⟨⟨[(c, false)], ?_, by simp⟩, ?_⟩
  · simp only [finish]
    split_ifs <;> simp [ho]
  · simp only [finish]
    split_ifs
    · refine ⟨[(reflowWifiPolicyStep g'.policy false).1], by simp [ht], ?_⟩
      intro step hstep
      rw [List.mem_singleton.mp hstep]
      exact (reflowWifiPolicyStep_action _ _).mpr rfl
    · exact ⟨[], ht, by simp⟩

theorem foldl_finish (wifi : τ) (woken : List τ) (g : Gate τ) :
    (woken.foldl (finish wifi false) g).l4Ready = g.l4Ready ∧
      (woken.foldl (finish wifi false) g).took = g.took ∧
      FailsOnly g (woken.foldl (finish wifi false) g) := by
  induction woken generalizing g with
  | nil => exact ⟨rfl, rfl, .refl g⟩
  | cons c woken ih =>
    obtain ⟨hsem, htook, hfails⟩ := ih (finish wifi false g c)
    exact ⟨hsem.trans (by simp), htook.trans (by simp),
      (failsOnly_finish wifi rfl rfl c).trans hfails⟩

theorem Sound.step {wifi : τ} {g : Gate τ} (h : Sound g) (e : Event τ) :
    Sound ((linkGate wifi).step g e) := by
  cases e with
  | l4 e =>
    cases e with
    | connected => exact h.signal.of_sem rfl
    | disconnected =>
      obtain ⟨hsem, -, -⟩ := foldl_finish wifi g.l4Ready.reset.1
        { g with l4Ready := g.l4Ready.reset.2 }
      have hreset : Sound { g with l4Ready := g.l4Ready.reset.2 } := ⟨.reset _, h.limit⟩
      exact hreset.of_sem hsem
  | take c noWait place =>
    have htake : Sound { g with l4Ready := (g.l4Ready.take noWait place c).2 } := by
      refine ⟨h.drained.take noWait place c, ?_⟩
      simp only [KSem.take]
      split_ifs <;> exact h.limit
    show Sound (waitReady wifi g c noWait place)
    simp only [waitReady]
    split
    · exact htake.of_sem rfl
    · exact htake.of_sem (by simp)
    · exact htake
  | expire c =>
    have herase : Sound
        { g with l4Ready := { g.l4Ready with waiters := g.l4Ready.waiters.erase c } } := by
      refine ⟨fun hne => ?_, h.limit⟩
      simp [h.drained hne]
    exact herase.of_sem (by simp [linkGate])
  | give c =>
    have hgive : Sound (LinkReadiness.signal { g with took := g.took.erase c }) :=
      Sound.signal ⟨h.drained, h.limit⟩
    exact hgive.of_sem (by simp [linkGate])

theorem lastEvent_call (wifi : τ) (g : Gate τ) {e : Event τ} (he : IsCall e) :
    ((linkGate wifi).step g e).lastEvent = g.lastEvent := by
  cases e with
  | l4 e => exact he.elim
  | take c noWait place =>
    simp only [linkGate, waitReady]
    split <;> simp
  | expire c => simp [linkGate]
  | give c => simp [linkGate, signal]

/-- While the link is down, each step that does not connect it fails and keeps it down. -/
theorem down_step {wifi : τ} {g : Gate τ} (hcount : g.l4Ready.count = 0) (htook : g.took = [])
    {e : Event τ} (ha : (linkGate wifi).admits g e) (he : e ≠ .l4 .connected) :
    ((linkGate wifi).step g e).l4Ready.count = 0 ∧ ((linkGate wifi).step g e).took = [] ∧
      FailsOnly g ((linkGate wifi).step g e) := by
  cases e with
  | l4 e =>
    cases e with
    | connected => exact absurd rfl he
    | disconnected =>
      obtain ⟨hsem, htook', hfails⟩ := foldl_finish wifi g.l4Ready.reset.1
        { g with l4Ready := g.l4Ready.reset.2 }
      exact ⟨congrArg KSem.count hsem, htook'.trans htook, ⟨hfails.calls, hfails.turns⟩⟩
  | take c noWait place =>
    have htake := KSem.take_of_count hcount noWait place c
    cases noWait with
    | true =>
      have hstep : (linkGate wifi).step g (.take c true place) = finish wifi false g c := by
        simp [linkGate, waitReady, htake]
      rw [hstep]
      exact ⟨by simpa using hcount, by simpa using htook, failsOnly_finish wifi rfl rfl c⟩
    | false =>
      simp only [linkGate, waitReady, htake]
      exact ⟨hcount, htook, (FailsOnly.refl g).calls, (FailsOnly.refl g).turns⟩
  | expire c =>
    simp only [linkGate, finish_l4Ready, finish_took]
    refine ⟨hcount, htook, failsOnly_finish wifi ?_ ?_ c⟩ <;> rfl
  | give c =>
    have hmem : c ∈ g.took := ha
    rw [htook] at hmem
    exact absurd hmem List.not_mem_nil

/-- An admitted step keeps the gate tight exactly when it is undisturbed. -/
theorem tight_step_iff {wifi : τ} {g : Gate τ} (ht : Tight g) {e : Event τ}
    (ha : (linkGate wifi).admits g e) : Tight ((linkGate wifi).step g e) ↔ Undisturbed g e := by
  have hcall : IsCall e → Tight ((linkGate wifi).step g e) := by
    intro he hlast
    rw [lastEvent_call wifi g he] at hlast
    obtain ⟨hcount, htook⟩ := ht hlast
    obtain ⟨hcount', htook', -⟩ := down_step hcount htook ha (by rintro rfl; exact he)
    exact ⟨hcount', htook'⟩
  cases e with
  | l4 e =>
    cases e with
    | connected => exact iff_of_true nofun trivial
    | disconnected =>
      obtain ⟨hsem, htook, -⟩ := foldl_finish wifi g.l4Ready.reset.1
        { g with l4Ready := g.l4Ready.reset.2 }
      exact ⟨fun h => htook.symm.trans (h rfl).2,
        fun h _ => ⟨congrArg KSem.count hsem, htook.trans h⟩⟩
  | take c noWait place => exact iff_of_true (hcall trivial) trivial
  | expire c => exact iff_of_true (hcall trivial) trivial
  | give c => exact iff_of_true (hcall trivial) trivial

theorem heeds_of_tight {wifi : τ} {g : Gate τ} (ht : Tight g) : Heeds wifi g := by
  intro hlast hquiet events hadm hnot
  obtain ⟨hcount, htook⟩ := ht hlast
  clear ht hlast hquiet
  induction events generalizing g with
  | nil => exact .refl g
  | cons e events ih =>
    obtain ⟨ha, hrest⟩ := hadm
    obtain ⟨he, hnot⟩ := List.forall_mem_cons.mp hnot
    obtain ⟨hcount', htook', hfails⟩ := down_step hcount htook ha he
    exact hfails.trans (ih hrest hnot hcount' htook')

theorem tight_calls {wifi : τ} {g : Gate τ} (ht : Tight g) {calls : List (Event τ)}
    (hadm : (linkGate wifi).Admitted g calls) (hcalls : ∀ e ∈ calls, IsCall e) :
    Tight ((linkGate wifi).run g calls) := by
  induction calls generalizing g with
  | nil => exact ht
  | cons e calls ih =>
    obtain ⟨he, hcalls⟩ := List.forall_mem_cons.mp hcalls
    refine ih ((tight_step_iff ht hadm.1).mpr ?_) hadm.2 hcalls
    cases e with
    | l4 e => exact he.elim
    | take c noWait place => trivial
    | expire c => trivial
    | give c => trivial

/-- Once a caller is between its take and its give, or the count is up, the calls in
progress can finish and leave the count up. -/
theorem exists_stale_count (wifi : τ) {g : Gate τ} (h : Sound g)
    (hstale : g.l4Ready.count ≠ 0 ∨ g.took ≠ []) :
    ∃ calls : List (Event τ), (linkGate wifi).Admitted g calls ∧ (∀ e ∈ calls, IsCall e) ∧
      ((linkGate wifi).run g calls).Quiet ∧ ((linkGate wifi).run g calls).l4Ready.count ≠ 0 := by
  induction hn : g.took.length + 2 * g.l4Ready.waiters.length using Nat.strong_induction_on
    generalizing g with
  | _ n ih =>
    cases htook : g.took with
    | nil =>
      have hcount : g.l4Ready.count ≠ 0 := hstale.resolve_right (by simp [htook])
      exact ⟨[], trivial, by simp, ⟨htook, h.drained hcount⟩, hcount⟩
    | cons c rest =>
      have ha : (linkGate wifi).admits g (.give c) := by
        show c ∈ g.took
        simp [htook]
      have hsignal : ((linkGate wifi).step g (.give c)).took = g.l4Ready.give.1.toList ++ rest ∧
          ((linkGate wifi).step g (.give c)).l4Ready = g.l4Ready.give.2 := by
        simp [linkGate, signal, htook]
      have hnext : (((linkGate wifi).step g (.give c)).l4Ready.count ≠ 0 ∨
          ((linkGate wifi).step g (.give c)).took ≠ []) ∧
          ((linkGate wifi).step g (.give c)).took.length +
            2 * ((linkGate wifi).step g (.give c)).l4Ready.waiters.length < n := by
        rw [hsignal.1, hsignal.2, ← hn, htook]
        cases hw : g.l4Ready.waiters with
        | nil =>
          obtain ⟨hnone, hcount, hempty⟩ := KSem.give_of_idle hw (by simp [h.limit])
          simp [hnone, hcount, hempty]
        | cons t waiters =>
          simp only [KSem.give, hw, List.length_append, List.length_cons, Option.toList_some]
          exact ⟨.inr (by simp), by simp; omega⟩
      obtain ⟨calls, hadm, hcalls, hquiet, hcount⟩ := ih _ hnext.2 (h.step _) hnext.1 rfl
      exact ⟨.give c :: calls, ⟨ha, hadm⟩, List.forall_mem_cons.mpr ⟨trivial, hcalls⟩, hquiet,
        hcount⟩

/-- With the count up the supervisor's next call succeeds. -/
theorem not_heeds_of_stale {wifi : τ} {g : Gate τ} (hlast : g.lastEvent = some .disconnected)
    (hquiet : g.Quiet) (hcount : g.l4Ready.count ≠ 0) : ¬Heeds wifi g := by
  intro hheeds
  have htake : (linkGate wifi).step g (.take wifi true 0) =
      { g with
        l4Ready := { g.l4Ready with count := g.l4Ready.count - 1 }
        took := wifi :: g.took } := by
    simp [linkGate, waitReady, KSem.take, Nat.pos_of_ne_zero hcount]
  have hadm : (linkGate wifi).Admitted g [.take wifi true 0, .give wifi] := by
    refine ⟨⟨by simp [hquiet.2], by simp [hquiet.1], fun _ => rfl⟩, ?_, trivial⟩
    rw [htake]
    exact List.mem_cons_self
  obtain ⟨⟨new, hnew, hfail⟩, -⟩ := hheeds hlast hquiet _ hadm (by simp)
  have hrun : ((linkGate wifi).run g [.take wifi true 0, .give wifi]).outcomes =
      [(wifi, true)] ++ g.outcomes := by
    rw [Machine.run_cons, htake]
    simp [linkGate, finish, signal]
  have hsucceeds : new = [(wifi, true)] := List.append_cancel_right (hnew.symm.trans hrun)
  exact absurd (hfail (wifi, true) (by simp [hsucceeds])) (by simp)

theorem lastEvent_calls (wifi : τ) {g : Gate τ} {calls : List (Event τ)}
    (hcalls : ∀ e ∈ calls, IsCall e) : ((linkGate wifi).run g calls).lastEvent = g.lastEvent := by
  induction calls generalizing g with
  | nil => rfl
  | cons e calls ih =>
    obtain ⟨he, hcalls⟩ := List.forall_mem_cons.mp hcalls
    exact (ih hcalls).trans (lastEvent_call wifi g he)

theorem tight_iff_heeds {wifi : τ} {g : Gate τ} (h : Sound g) :
    Tight g ↔ ∀ calls : List (Event τ), (linkGate wifi).Admitted g calls →
      (∀ e ∈ calls, IsCall e) → Heeds wifi ((linkGate wifi).run g calls) := by
  constructor
  · exact fun ht calls hadm hcalls => heeds_of_tight (tight_calls ht hadm hcalls)
  · intro hall hlast
    by_contra hstale
    have hstale' : g.l4Ready.count ≠ 0 ∨ g.took ≠ [] := by
      by_contra hnone
      push Not at hnone
      exact hstale hnone
    obtain ⟨calls, hadm, hcalls, hquiet, hcount⟩ := exists_stale_count wifi h hstale'
    exact not_heeds_of_stale ((lastEvent_calls wifi hcalls).trans hlast) hquiet hcount
      (hall calls hadm hcalls)

/-- In a run from boot, every drop is heeded, in each state passed and however the calls
in progress there finish, if and only if no disconnection of the run fell between a
caller's take and its give. -/
theorem drops_heeded_iff_undisturbed (wifi : τ) {events : List (Event τ)}
    (hadm : (linkGate wifi).Admitted .boot events) :
    (∀ g ∈ (linkGate wifi).visited .boot events, ∀ calls : List (Event τ),
      (linkGate wifi).Admitted g calls → (∀ e ∈ calls, IsCall e) →
      Heeds wifi ((linkGate wifi).run g calls)) ↔
    ((linkGate wifi).restrict Undisturbed).Admitted .boot events := by
  have hsound := Machine.visited_invariant (M := linkGate wifi) (I := Sound)
    (fun _ e h _ => h.step e) .boot hadm
  rw [← Machine.forall_visited_iff (M := linkGate wifi) (I := Sound) (P := Tight)
    (c := Undisturbed) (fun _ e h _ => h.step e) (fun _ e _ ht ha => tight_step_iff ht ha)
    .boot nofun hadm]
  exact forall₂_congr fun g hg => (tight_iff_heeds (hsound g hg)).symm

/-- The threads that call the gate. -/
inductive NetThread | httpd | wifi
  deriving DecidableEq, Repr

def upAndDown : List (Event NetThread) :=
  [.take .httpd false 0, .l4 .connected, .give .httpd, .l4 .disconnected]

theorem drops_heeded_iff_undisturbed_up_down :
    ((linkGate NetThread.wifi).restrict Undisturbed).Admitted .boot upAndDown ∧
      ∀ g ∈ (linkGate NetThread.wifi).visited .boot upAndDown, ∀ calls,
        (linkGate NetThread.wifi).Admitted g calls → (∀ e ∈ calls, IsCall e) →
          Heeds .wifi ((linkGate NetThread.wifi).run g calls) := by
  have hadm : (linkGate NetThread.wifi).Admitted .boot upAndDown := by
    refine ⟨⟨?_, ?_, nofun⟩, trivial, ?_, trivial, trivial⟩
    · exact List.not_mem_nil
    · exact List.not_mem_nil
    · exact List.mem_cons_self
  have hundisturbed : ((linkGate NetThread.wifi).restrict Undisturbed).Admitted .boot upAndDown :=
    ⟨⟨hadm.1, trivial⟩, ⟨trivial, trivial⟩, ⟨hadm.2.2.1, trivial⟩, ⟨trivial, rfl⟩, trivial⟩
  exact ⟨hundisturbed, (drops_heeded_iff_undisturbed NetThread.wifi hadm).mpr hundisturbed⟩

/-- The link drops between the supervisor's take and its give. With no call in progress
and the link down, the next turn still watches. -/
theorem drop_is_lost : ¬∀ events : List (Event NetThread),
    (linkGate .wifi).Admitted .boot events → Heeds .wifi ((linkGate .wifi).run .boot events) := by
  intro h
  have hheeds := h [.l4 .connected, .take .wifi true 0, .l4 .disconnected, .give .wifi]
    ⟨trivial, ⟨List.not_mem_nil, List.not_mem_nil, fun _ => rfl⟩, trivial, List.mem_cons_self,
      trivial⟩
  exact not_heeds_of_stale rfl ⟨rfl, rfl⟩ (by decide) hheeds

end ReflowOven.LinkReadiness
