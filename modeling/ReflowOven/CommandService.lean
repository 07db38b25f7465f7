import ReflowOven.ControllerInvariants

/-!
# The wait of the control loop

The body of `controller_thread`, the wait that follows it and the queue that the wait
serves. The wait looks at the time that is left before it looks at the queue, so an
iteration whose body has used up its period takes no command, and as long as every
iteration does, the queue is never served.
-/

namespace ReflowOven.CommandService

variable {F : Type}

/-- Where the thread is: about to run the body, or in the wait loop. -/
inductive LoopPhase | body | wait
  deriving DecidableEq

/-- `top` is `now` of the current iteration. `owed` says that the queue was not empty when
the body ended and that no command has been handled since; no step reads it. -/
structure ControlLoop (F : Type) where
  world : World F
  queue : List ReflowCmd
  phase : LoopPhase
  top : ℤ
  owed : Bool

/-- A post by any other thread, a pass of the body, or a turn of the wait loop: the clock
it reads, the command that arrives while it waits on an empty queue, if one does, and the
instant at which a command is handled. -/
inductive LoopEvent
  | post (cmd : ReflowCmd)
  | body (it : Iteration)
  | turn (clock : ℤ) (arrival : Option ReflowCmd) (time : ℤ)

variable [CFloat F]

def runBody (cfg : CoreConfig) (it : Iteration) (s : ControlLoop F) : ControlLoop F :=
  { s with
    world := iterate cfg it s.world
    phase := .wait
    top := it.now
    owed := decide (s.queue ≠ []) }

def serve (time : ℤ) (cmd : ReflowCmd) (s : ControlLoop F) : ControlLoop F :=
  { s with world := handleCmd time cmd s.world, owed := false }

/-- One turn of the inner `while (true)`. -/
def waitTurn (cfg : CoreConfig) (clock : ℤ) (arrival : Option ReflowCmd) (time : ℤ)
    (s : ControlLoop F) : ControlLoop F :=
  let deadline := s.top + cfg.ctrlPeriodMs
  let rem := deadline - clock
  if rem ≤ 0 then { s with phase := .body }
  else match s.queue with
    | cmd :: rest => serve time cmd { s with queue := rest }
    | [] => match arrival with
      | some cmd => serve time cmd s
      | none => s  -- the wait timed out

def commandLoop (cfg : CoreConfig) : Machine (ControlLoop F) LoopEvent where
  init s := ∃ b, s = ⟨bootController b, [], .body, b.tickTime, false⟩
  admits s
    | .post _ => True
    | .body _ => s.phase = .body
    | .turn _ _ _ => s.phase = .wait
  step s
    | .post cmd => { s with queue := (reflowCmdPost cmd s.queue).2 }
    | .body it => runBody cfg it s
    | .turn clock arrival time => waitTurn cfg clock arrival time s

instance (cfg : CoreConfig) (s : ControlLoop F) (e : LoopEvent) :
    Decidable ((commandLoop cfg).admits s e) := by
  cases e <;> simp only [commandLoop] <;> infer_instance

/-- No iteration begins while a command queued at the end of the last body is owed. -/
def Serviced (s : ControlLoop F) : Prop := s.phase = .body → s.owed = false

/-- A turn that owes a command finds the period of its iteration not used up. -/
def InPeriod (cfg : CoreConfig) (s : ControlLoop F) : LoopEvent → Prop
  | .turn clock _ _ => s.owed = true → clock - s.top < cfg.ctrlPeriodMs
  | .post _ | .body _ => True

instance (cfg : CoreConfig) (s : ControlLoop F) (e : LoopEvent) :
    Decidable (InPeriod cfg s e) := by
  cases e <;> simp only [InPeriod] <;> infer_instance

/-- A turn ends the wait exactly when the period is over, and then handles nothing;
otherwise it leaves no command owed that was queued. -/
theorem waitTurn_cases (cfg : CoreConfig) (clock : ℤ) (arrival : Option ReflowCmd) (time : ℤ)
    (s : ControlLoop F) :
    (cfg.ctrlPeriodMs ≤ clock - s.top ∧
      waitTurn cfg clock arrival time s = { s with phase := .body }) ∨
    (clock - s.top < cfg.ctrlPeriodMs ∧
      ((∃ cmd queue, waitTurn cfg clock arrival time s = serve time cmd { s with queue := queue }) ∨
        (s.queue = [] ∧ waitTurn cfg clock arrival time s = s))) := by
  simp only [waitTurn]
  split
  · next hover => exact .inl ⟨by omega, rfl⟩
  · next hleft =>
    refine .inr ⟨by omega, ?_⟩
    cases hqueue : s.queue with
    | cons cmd rest => exact .inl ⟨cmd, rest, rfl⟩
    | nil =>
      cases arrival with
      | some cmd => exact .inl ⟨cmd, s.queue, rfl⟩
      | none => exact .inr ⟨rfl, rfl⟩

theorem step_serviced_iff (cfg : CoreConfig) (s : ControlLoop F) (e : LoopEvent)
    (hs : Serviced s) (ha : (commandLoop cfg).admits s e) :
    Serviced ((commandLoop cfg).step s e) ↔ InPeriod cfg s e := by
  cases e with
  | post cmd => exact iff_of_true hs trivial
  | body it => exact iff_of_true nofun trivial
  | turn clock arrival time =>
    have hphase : s.phase = .wait := ha
    simp only [commandLoop, InPeriod]
    rcases waitTurn_cases cfg clock arrival time s with ⟨hover, he⟩ | ⟨hleft, hturn⟩
    · rw [he]
      constructor
      · intro hserviced howed
        exact absurd (hserviced rfl) (by simp [howed])
      · intro hin _
        by_contra howed
        exact absurd (hin (Bool.eq_true_of_not_eq_false howed)) (by omega)
    · refine iff_of_true ?_ fun _ => hleft
      rcases hturn with ⟨cmd, queue, he⟩ | ⟨-, he⟩
      · rw [he]
        exact fun _ => rfl
      · rw [he]
        intro hbody
        rw [hphase] at hbody
        cases hbody

/-- In a run of the control loop a command is handled in every iteration whose body ends
on a non-empty queue exactly when the first turn of the wait after each such body still
falls inside the period. -/
theorem queue_serviced_iff (cfg : CoreConfig) (b : Boot) (events : List LoopEvent)
    (has : (commandLoop cfg).Admitted
      (⟨bootController b, [], .body, b.tickTime, false⟩ : ControlLoop F) events) :
    (∀ s ∈ (commandLoop cfg).visited
      (⟨bootController b, [], .body, b.tickTime, false⟩ : ControlLoop F) events, Serviced s) ↔
    ((commandLoop cfg).restrict (InPeriod cfg)).Admitted
      (⟨bootController b, [], .body, b.tickTime, false⟩ : ControlLoop F) events := by
  refine Machine.forall_visited_iff (I := fun _ => True) ?_ ?_ trivial (fun _ => rfl) has
  · exact fun _ _ _ _ => trivial
  · exact fun s e _ hs ha => step_serviced_iff cfg s e hs ha

/-- The turn comes after the end of the period. -/
def Overrun (cfg : CoreConfig) (s : ControlLoop F) : LoopEvent → Prop
  | .turn clock _ _ => cfg.ctrlPeriodMs ≤ clock - s.top
  | .post _ | .body _ => True

/-- However many iterations overrun, what was queued stays queued, in its order. -/
theorem overrun_keeps_queue (cfg : CoreConfig) {s : ControlLoop F} {events : List LoopEvent}
    (has : ((commandLoop cfg).restrict (Overrun cfg)).Admitted s events) :
    s.queue <+: ((commandLoop cfg).run s events).queue := by
  refine Machine.run_invariant (M := (commandLoop cfg).restrict (Overrun cfg))
    (I := fun t => s.queue <+: t.queue) ?_ (List.prefix_refl _) has
  intro t e ht ha
  cases e with
  | post cmd => exact ht.trans (BoundedQueue.prefix_put _ _ _)
  | body it => exact ht
  | turn clock arrival time =>
    have hlate : cfg.ctrlPeriodMs ≤ clock - t.top := ha.2
    rcases waitTurn_cases cfg clock arrival time t with ⟨-, he⟩ | ⟨hleft, -⟩
    · simp only [commandLoop, Machine.restrict, he]
      exact ht
    · omega

def bootLoop : ControlLoop ℚ :=
  ⟨bootController ⟨true, true, true, 0, 0, 0, 0⟩, [], .body, 0, false⟩

def postedStop : LoopEvent := .post ⟨ReflowCmdId.stop.toU8, 0⟩

/-- Bodies of 40 ms in periods of 100 ms, with a command waiting. -/
def promptLoop : List LoopEvent :=
  [postedStop, .body (iterationAt 100 none), .turn 140 none 141, .turn 142 none 142,
    .turn 200 none 200, .body (iterationAt 201 none)]

theorem queue_serviced_iff_prompt :
    ((commandLoop .stock).restrict (InPeriod .stock)).Admitted bootLoop promptLoop ∧
      ∀ s ∈ (commandLoop .stock).visited bootLoop promptLoop, Serviced s := by
  have hprompt : ((commandLoop .stock).restrict (InPeriod .stock)).Admitted bootLoop
      promptLoop := by decide +kernel
  have hadmitted : (commandLoop .stock).Admitted bootLoop promptLoop := by decide +kernel
  exact ⟨hprompt, (queue_serviced_iff .stock ⟨true, true, true, 0, 0, 0, 0⟩ promptLoop
    hadmitted).mpr hprompt⟩

/-- A body of 120 ms, with a stop waiting. -/
def overrunLoop : List LoopEvent := [postedStop, .body (iterationAt 100 none), .turn 220 none 220]

/-- After a body that overran its period the next iteration begins with the stop unserved. -/
theorem overrun_starves_stop : ¬∀ (cfg : CoreConfig) (b : Boot) (events : List LoopEvent),
    (commandLoop cfg).Admitted
      (⟨bootController b, [], .body, b.tickTime, false⟩ : ControlLoop ℚ) events →
    ∀ s ∈ (commandLoop cfg).visited
      (⟨bootController b, [], .body, b.tickTime, false⟩ : ControlLoop ℚ) events, Serviced s := by
  intro h
  have hlast := h .stock ⟨true, true, true, 0, 0, 0, 0⟩ overrunLoop (by decide +kernel) _
    (Machine.run_mem_visited _ _)
  exact absurd (hlast (by decide +kernel)) (by decide +kernel)

end ReflowOven.CommandService
