import ReflowOven.EncoderSelection
import ReflowOven.OvenLifecycle

/-!
# The front panel

The button of the encoder (`buttonmap.c`, `on_button` and the input callback of
`input_ui.c`), next to its knob, in front of the oven. Other threads post commands of their
own. The listener hears every frame before the next input arrives and the oven publishes
every change, so the state that a press is decided on is the state that the oven is in.
-/

namespace ReflowOven

/-- `none` is `REFLOW_BUTTON_NONE`. -/
def reflowButtonDecide (stateKnown : Bool) (state : UInt8) (longPress : Bool) :
    Option ReflowCmdId :=
  if !stateKnown then some .stop
  else if state = ReflowState.running.toU8 then some .stop
  else if state = ReflowState.fault.toU8 then
    if longPress then some .clearFault else some .start
  else if state = ReflowState.idle.toU8 ∨ state = ReflowState.done.toU8 then some .start
  else some .stop  -- a state this table does not know

namespace FrontPanel

open EncoderSelection OvenLifecycle

variable {F : Type}

def longPressMs : ℤ := 1000

inductive InputCode | relWheel | relX | keyEnter | btn0 | other
  deriving DecidableEq

inductive InputType | rel | key | other
  deriving DecidableEq

structure InputEvent where
  type : InputType
  code : InputCode
  value : Int32
  deriving DecidableEq

/-- A command that the button asked for: the state of the oven then, whether the oven had
published any, and how long the button was held. -/
structure Order where
  cmd : ReflowCmdId
  state : ReflowState
  told : Bool
  heldMs : ℤ
  deriving DecidableEq

/-- `pressStarted` is 0 outside a press; the record of orders is read by no step. -/
structure Desk (F : Type) where
  station : Station F
  pressStarted : ℤ
  orders : List Order

/-- A command goes to the queue, or is dropped where the queue is full. -/
def post (cmd : ReflowCmd) (s : Station F) : Station F :=
  { s with queue := (reflowCmdPost cmd s.queue).2 }

def onButton (pressed : Bool) (uptime : ℤ) (d : Desk F) : Desk F :=
  if pressed then { d with pressStarted := uptime }
  else if d.pressStarted = 0 then d
  else
    let heldMs := uptime - d.pressStarted
    let state := d.station.panel.lastState
    -- the cast of `STATE_UNKNOWN` to a byte is 255
    match reflowButtonDecide state.isSome (state.getD 255) (decide (heldMs ≥ longPressMs)) with
    | none => { d with pressStarted := 0 }
    | some id =>
      { station := post ⟨id.toU8, 0⟩ d.station
        pressStarted := 0
        orders := ⟨id, d.station.world.ctx.state, !d.station.world.frames.isEmpty, heldMs⟩ ::
          d.orders }

def inputCb (evt : InputEvent) (uptime : ℤ) (d : Desk F) : Desk F :=
  match evt.type with
  | .rel =>
    if evt.code = .relWheel ∨ evt.code = .relX then
      { d with station := onRotate evt.value d.station }
    else d
  | .key =>
    if evt.code = .keyEnter ∨ evt.code = .btn0 then onButton (evt.value ≠ 0) uptime d else d
  | .other => d

/-- An input, a post by another thread, a command handled by the control thread, or an
iteration of it. -/
inductive Event
  | input (evt : InputEvent) (uptime : ℤ)
  | post (cmd : ReflowCmd)
  | serve (time : ℤ)
  | iterate (it : Iteration)

variable [CFloat F]

/-- The panel listens from the first frame on. -/
def Desk.boot (b : Boot) : Desk F where
  station :=
    { panel := (bootController b : World F).frames.reverse.foldl telemetryCb ⟨reflowSelInit, none⟩
      queue := []
      world := bootController b
      origin := 0
      turned := 0 }
  pressStarted := 0
  orders := []

def desk (cfg : CoreConfig) : Machine (Desk F) Event where
  init d := ∃ b, d = .boot b
  admits _ _ := True
  step
    | d, .input evt uptime => inputCb evt uptime d
    | d, .post cmd => { d with station := post cmd d.station }
    | d, .serve time => { d with station := drain time d.station }
    | d, .iterate it => { d with station := hear (iterate cfg it d.station.world) d.station }

/-- The panel knows the state of the oven, or has been told none. -/
structure Attentive (s : Station F) : Prop where
  oven : ∃ o, Status s.world.ctx o
  told : s.panel.lastState = none ∧ s.world.frames = [] ∧ s.world.ctx.state = .idle ∨
    s.panel.lastState = some s.world.ctx.state.toU8 ∧ s.world.frames ≠ []

omit [CFloat F] in
theorem foldl_telemetryCb_lastState (frames : List ReflowTelemetry) (p : Panel) :
    (frames.foldl telemetryCb p).lastState =
      (frames.getLast?.map ReflowTelemetry.state).or p.lastState := by
  induction frames generalizing p with
  | nil => rfl
  | cons f frames ih =>
    rw [List.foldl_cons, ih, List.getLast?_cons]
    cases frames.getLast? <;> rfl

omit [CFloat F] in
/-- What a listener hears of a step: nothing, and then nothing happened; or last the oven as
it is after the step. -/
theorem Goes.heard {o : Oven} {e : Option OvenEvent} {w w' : World F} (h : Goes o e w w') :
    (w'.frames = w.frames ∧ newFrames w w' = [] ∧ lifecycle.run o e.toList = o) ∨
      ∃ f, w'.frames ≠ [] ∧ (newFrames w w').getLast? = some f ∧
        Shows f (lifecycle.run o e.toList) := by
  obtain ⟨new, us, hnew, hus, hshown⟩ := h.told
  have hlast := hshown.getLast?_eq
  have hframes := newFrames_eq new hnew
  cases new with
  | nil =>
    obtain rfl : us = [] := by simpa using hus
    left
    refine ⟨hnew, hframes, ?_⟩
    simpa using hlast.symm
  | cons f new =>
    right
    refine ⟨f, by simp [hnew], by simp [hframes], ?_⟩
    rw [← List.forall₂_reverse_iff, List.reverse_reverse] at hus
    obtain ⟨u, us', hshows, -, hu⟩ := List.forall₂_cons_left_iff.mp hus
    have hend : us.getLast? = some u := by rw [← List.head?_reverse, hu]; rfl
    rw [List.getLast?_cons, hend] at hlast
    simp only [Option.getD_some, List.getLast?_cons_cons, List.getLast?_singleton,
      Option.some.injEq] at hlast
    exact hlast ▸ hshows

omit [CFloat F] in
theorem Attentive.hear {s : Station F} (h : Attentive s) {w : World F}
    (hgoes : ∀ o, Status s.world.ctx o → ∃ e, Goes o e s.world w) : Attentive (hear w s) := by
  obtain ⟨⟨o, ho⟩, htold⟩ := h
  obtain ⟨e, hgoes⟩ := hgoes o ho
  refine ⟨⟨_, hgoes.status⟩, ?_⟩
  simp only [EncoderSelection.hear, foldl_telemetryCb_lastState]
  obtain ⟨hframes, hnew, hsame⟩ | ⟨f, hframes, hlast, hshows⟩ := Goes.heard hgoes
  · have hstate : w.ctx.state = s.world.ctx.state := by
      rw [hgoes.status.state, hsame, ho.state]
    rw [hnew, hstate, hframes]
    exact htold
  · right
    rw [hlast, hgoes.status.state, ← hshows.state]
    exact ⟨rfl, hframes⟩

omit [CFloat F] in
/-- Where the queue, the selection and the record of turns are all that differs. -/
theorem Attentive.of_same {s s' : Station F} (h : Attentive s) (hworld : s'.world = s.world)
    (hstate : s'.panel.lastState = s.panel.lastState) : Attentive s' := by
  refine ⟨hworld ▸ h.oven, ?_⟩
  rw [hworld, hstate]
  exact h.told

omit [CFloat F] in
theorem onRotate_same (steps : Int32) (s : Station F) :
    (onRotate steps s).world = s.world ∧
      (onRotate steps s).panel.lastState = s.panel.lastState := by
  simp only [onRotate]
  split
  · exact ⟨rfl, rfl⟩
  · split
    · exact ⟨rfl, rfl⟩
    · split <;> exact ⟨rfl, rfl⟩

omit [CFloat F] in
theorem post_same (cmd : ReflowCmd) (s : Station F) :
    (post cmd s).world = s.world ∧ (post cmd s).panel.lastState = s.panel.lastState := ⟨rfl, rfl⟩

theorem Attentive.drain {s : Station F} (h : Attentive s) (time : ℤ) :
    Attentive (drain time s) := by
  simp only [EncoderSelection.drain]
  split
  · exact h
  · next cmd queue hq =>
    have hrest : Attentive { s with queue := queue } := h.of_same rfl rfl
    refine hrest.hear fun o ho => ?_
    obtain ⟨e, hgoes, -⟩ := handleCmd_goes ho time cmd
    exact ⟨e, hgoes⟩

/-- What the button means, in terms of the oven itself. -/
def meant (told : Bool) (state : ReflowState) (heldMs : ℤ) : ReflowCmdId :=
  if told = false ∨ state = .running then .stop
  else if state = .fault ∧ longPressMs ≤ heldMs then .clearFault
  else .start

omit [CFloat F] in
/-- An attentive panel decides on the oven as it is. -/
theorem decide_of_attentive {s : Station F} (h : Attentive s) (heldMs : ℤ) :
    reflowButtonDecide s.panel.lastState.isSome (s.panel.lastState.getD 255)
        (decide (heldMs ≥ longPressMs)) =
      some (meant (!s.world.frames.isEmpty) s.world.ctx.state heldMs) := by
  obtain ⟨hnone, hframes, -⟩ | ⟨hsome, hframes⟩ := h.told
  · simp [reflowButtonDecide, meant, hnone, hframes]
  · have htold : s.world.frames.isEmpty = false := by simpa using hframes
    rw [hsome, htold]
    cases s.world.ctx.state <;> by_cases hheld : heldMs ≥ longPressMs <;>
      simp [reflowButtonDecide, meant, ReflowState.toU8, hheld]

omit [CFloat F] in
/-- Everything the button can do. -/
theorem onButton_cases {d : Desk F} (h : Attentive d.station) (pressed : Bool) (uptime : ℤ) :
    onButton pressed uptime d = { d with pressStarted := uptime } ∧ pressed = true ∨
    onButton pressed uptime d = d ∧ d.pressStarted = 0 ∨
    pressed = false ∧ d.pressStarted ≠ 0 ∧ ∃ order : Order,
      order.cmd = meant order.told order.state order.heldMs ∧
      order.state = d.station.world.ctx.state ∧
      onButton pressed uptime d =
        ⟨post ⟨order.cmd.toU8, 0⟩ d.station, 0, order :: d.orders⟩ := by
  simp only [onButton, decide_of_attentive h]
  split_ifs with hpressed hstarted
  · exact .inl ⟨rfl, hpressed⟩
  · exact .inr (.inl ⟨rfl, hstarted⟩)
  · exact .inr (.inr ⟨by simpa using hpressed, hstarted, ⟨_, _, _, _⟩, rfl, rfl, rfl⟩)

/-- What every run keeps. -/
structure Sound (d : Desk F) : Prop where
  attentive : Attentive d.station
  meant : ∀ order ∈ d.orders, order.cmd = meant order.told order.state order.heldMs

omit [CFloat F] in
theorem Sound.onButton {d : Desk F} (h : Sound d) (pressed : Bool) (uptime : ℤ) :
    Sound (onButton pressed uptime d) := by
  obtain ⟨he, -⟩ | ⟨he, -⟩ | ⟨-, -, order, hcmd, -, he⟩ :=
    onButton_cases h.attentive pressed uptime
  all_goals rw [he]
  · exact ⟨h.attentive, h.meant⟩
  · exact h
  · obtain ⟨hworld, hstate⟩ := post_same ⟨order.cmd.toU8, 0⟩ d.station
    exact ⟨h.attentive.of_same hworld hstate, List.forall_mem_cons.mpr ⟨hcmd, h.meant⟩⟩

theorem Sound.step {d : Desk F} (h : Sound d) (cfg : CoreConfig) (e : Event) :
    Sound ((desk cfg).step d e) := by
  cases e with
  | input evt uptime =>
    simp only [desk, inputCb]
    split
    · split
      · obtain ⟨hworld, hstate⟩ := onRotate_same evt.value d.station
        exact ⟨h.attentive.of_same hworld hstate, h.meant⟩
      · exact h
    · split
      · exact h.onButton _ _
      · exact h
    · exact h
  | post cmd =>
    obtain ⟨hworld, hstate⟩ := post_same cmd d.station
    exact ⟨h.attentive.of_same hworld hstate, h.meant⟩
  | serve time => exact ⟨h.attentive.drain time, h.meant⟩
  | iterate it =>
    refine ⟨h.attentive.hear fun o ho => ?_, h.meant⟩
    obtain ⟨e, hgoes, -⟩ := iterate_goes cfg it ho
    exact ⟨e, hgoes⟩

theorem Sound.boot (b : Boot) : Sound (Desk.boot b : Desk F) := by
  refine ⟨?_, nofun⟩
  obtain ⟨o, -, ho, -⟩ := boot_cases (F := F) b
  refine ⟨⟨o, ho⟩, ?_⟩
  simp only [Desk.boot, bootController]
  split
  · exact .inr ⟨rfl, List.cons_ne_nil _ _⟩
  · exact .inl ⟨rfl, rfl, rfl⟩

theorem sound_of_reachable {cfg : CoreConfig} {d : Desk F} (h : (desk cfg).Reachable d) :
    Sound d := by
  apply h.invariant
  · rintro d ⟨b, rfl⟩
    exact .boot b
  · exact fun d e _ hd _ => hd.step cfg e

/-- Whether the event is one of the button, and whether it is pressed. -/
def buttonEvent : Event → Option Bool
  | .input evt _ =>
    if evt.type = .key ∧ (evt.code = .keyEnter ∨ evt.code = .btn0) then some (evt.value ≠ 0)
    else none
  | .post _ | .serve _ | .iterate _ => none

/-- Orders are completed presses. -/
def Accounted (events : List Event) (d : Desk F) : Prop :=
  d.orders.length + (if d.pressStarted = 0 then 0 else 1) ≤
    events.countP fun e => buttonEvent e = some true

theorem step_of_not_button (cfg : CoreConfig) (d : Desk F) {e : Event}
    (h : buttonEvent e = none) : ((desk cfg).step d e).orders = d.orders ∧
      ((desk cfg).step d e).pressStarted = d.pressStarted := by
  cases e with
  | input evt uptime =>
    simp only [desk, inputCb]
    cases htype : evt.type with
    | rel => dsimp only; split <;> exact ⟨rfl, rfl⟩
    | other => exact ⟨rfl, rfl⟩
    | key =>
      by_cases hcode : evt.code = .keyEnter ∨ evt.code = .btn0
      · simp [buttonEvent, htype, hcode] at h
      · simp [hcode]
  | post | serve | iterate => exact ⟨rfl, rfl⟩

theorem step_of_button (cfg : CoreConfig) (d : Desk F) {e : Event} {pressed : Bool}
    (h : buttonEvent e = some pressed) :
    ∃ uptime, (desk cfg).step d e = onButton pressed uptime d := by
  cases e with
  | input evt uptime =>
    simp only [buttonEvent] at h
    split_ifs at h with hevt
    refine ⟨uptime, ?_⟩
    simp only [desk, inputCb, hevt.1, if_pos hevt.2, ← Option.some.inj h]
  | post | serve | iterate => cases h

theorem accounted_step (cfg : CoreConfig) {events : List Event} {d : Desk F} (hd : Sound d)
    (h : Accounted events d) (e : Event) :
    Accounted (events ++ [e]) ((desk cfg).step d e) := by
  simp only [Accounted, List.countP_append, List.countP_singleton] at h ⊢
  cases hbutton : buttonEvent e with
  | none =>
    obtain ⟨horders, hstarted⟩ := step_of_not_button cfg d hbutton
    rw [horders, hstarted]
    exact h.trans (Nat.le_add_right _ _)
  | some pressed =>
    obtain ⟨uptime, hstep⟩ := step_of_button cfg d hbutton
    rw [hstep]
    obtain ⟨he, rfl⟩ | ⟨he, -⟩ | ⟨-, hstarted, order, -, -, he⟩ :=
      onButton_cases hd.attentive pressed uptime
    all_goals rw [he]
    · split <;> simp <;> split_ifs at h <;> omega
    · exact h.trans (Nat.le_add_right _ _)
    · rw [if_neg hstarted] at h
      simp only [List.length_cons, if_true]
      omega

/-- In every run the button asks for what it means in the state that the oven is in, once a
press at most, and while the oven runs the knob does nothing. -/
theorem button_means_the_oven (cfg : CoreConfig) (b : Boot) (events : List Event) :
    (∀ order ∈ ((desk cfg).run (.boot b : Desk F) events).orders,
      order.cmd = meant order.told order.state order.heldMs) ∧
    ((desk cfg).run (.boot b : Desk F) events).orders.length ≤
      events.countP (fun e => buttonEvent e = some true) ∧
    (((desk cfg).run (.boot b : Desk F) events).station.world.ctx.state = .running →
      ∀ steps, onRotate steps ((desk cfg).run (.boot b : Desk F) events).station =
        ((desk cfg).run (.boot b : Desk F) events).station) := by
  have hadmitted := Machine.admitted_of_forall (M := desk (F := F) cfg) (fun _ _ => trivial)
    (.boot b) events
  have hinit : Sound (.boot b : Desk F) ∧ Accounted [] (.boot b : Desk F) :=
    ⟨.boot b, Nat.le_refl 0⟩
  obtain ⟨hsound, haccounted⟩ := Machine.run_invariant_inputs (M := desk (F := F) cfg)
    (I := fun taken d => Sound d ∧ Accounted taken d)
    (fun taken d e h _ => ⟨h.1.step cfg e, accounted_step cfg h.1 h.2 e⟩) hinit hadmitted
  refine ⟨hsound.meant, (Nat.le_add_right _ _).trans haccounted, fun hrunning steps => ?_⟩
  obtain ⟨-, -, hidle⟩ | ⟨hstate, -⟩ := hsound.attentive.told
  · rw [hrunning] at hidle
    cases hidle
  · rw [hrunning] at hstate
    simp only [onRotate, hstate, if_true]

def isServe : Event → Bool
  | .serve _ => true
  | .input _ _ | .post _ | .iterate _ => false

def stopCmd : ReflowCmd := ⟨ReflowCmdId.stop.toU8, 0⟩

omit [CFloat F] in
theorem post_queue (cmd : ReflowCmd) (s : Station F) :
    ∃ new, (post cmd s).queue = s.queue ++ new := ⟨_, BoundedQueue.put_snd _ _ _⟩

omit [CFloat F] in
theorem onRotate_queue (steps : Int32) (s : Station F) :
    ∃ new, (onRotate steps s).queue = s.queue ++ new := by
  simp only [onRotate]
  split
  · exact ⟨[], (List.append_nil _).symm⟩
  · split
    · exact ⟨[], (List.append_nil _).symm⟩
    · split
      · exact ⟨_, BoundedQueue.put_snd _ _ _⟩
      · exact ⟨[], (List.append_nil _).symm⟩

/-- Only the control thread takes from the queue. -/
theorem step_queue (cfg : CoreConfig) {d : Desk F} (hd : Sound d) {e : Event}
    (h : isServe e = false) :
    ∃ new, ((desk cfg).step d e).station.queue = d.station.queue ++ new := by
  cases hbutton : buttonEvent e with
  | some pressed =>
    obtain ⟨uptime, hstep⟩ := step_of_button cfg d hbutton
    rw [hstep]
    obtain ⟨he, -⟩ | ⟨he, -⟩ | ⟨-, -, order, -, -, he⟩ :=
      onButton_cases hd.attentive pressed uptime
    all_goals rw [he]
    · exact ⟨[], (List.append_nil _).symm⟩
    · exact ⟨[], (List.append_nil _).symm⟩
    · exact post_queue _ _
  | none =>
    cases e with
    | serve time => cases h
    | post cmd => exact post_queue _ _
    | iterate it => exact ⟨[], (List.append_nil _).symm⟩
    | input evt uptime =>
      simp only [desk, inputCb]
      cases htype : evt.type with
      | rel =>
        dsimp only
        split
        · exact onRotate_queue _ _
        · exact ⟨[], (List.append_nil _).symm⟩
      | other => exact ⟨[], (List.append_nil _).symm⟩
      | key =>
        by_cases hcode : evt.code = .keyEnter ∨ evt.code = .btn0
        · simp [buttonEvent, htype, hcode] at hbutton
        · simp [hcode]

theorem handleCmd_stop (time : ℤ) (w : World F) :
    (handleCmd time stopCmd w).ctx.state ≠ .running := by
  have hid : ReflowCmdId.ofU8? stopCmd.id = some .stop := rfl
  simp only [handleCmd, hid]
  split
  · simp [stopRun]
  · assumption

/-- A stop in the queue is reached by as many turns as there are commands before it. -/
theorem queued_stop_stops (cfg : CoreConfig) {d : Desk F} (hd : Sound d) {place : ℕ}
    (hstop : d.station.queue[place]? = some stopCmd) {events : List Event}
    (hserved : place < events.countP isServe) :
    ∃ t ∈ (desk cfg).visited d events, t.station.world.ctx.state ≠ .running := by
  induction events generalizing d place with
  | nil => exact absurd hserved (Nat.not_lt_zero _)
  | cons e events ih =>
    rw [List.countP_cons] at hserved
    have hnext := hd.step cfg e
    cases hserve : isServe e with
    | false =>
      obtain ⟨new, hqueue⟩ := step_queue cfg hd hserve
      have hplace : ((desk cfg).step d e).station.queue[place]? = some stopCmd := by
        rw [hqueue, List.getElem?_append_left (List.getElem?_eq_some_iff.mp hstop).1, hstop]
      rw [hserve] at hserved
      obtain ⟨t, ht, hstate⟩ := ih hnext hplace (by simpa using hserved)
      exact ⟨t, List.mem_cons_of_mem _ ht, hstate⟩
    | true =>
      obtain ⟨time, rfl⟩ : ∃ time, e = .serve time := by
        cases e with
        | serve time => exact ⟨time, rfl⟩
        | input | post | iterate => cases hserve
      cases hqueue : d.station.queue with
      | nil => simp [hqueue] at hstop
      | cons cmd rest =>
        have hdrain : (desk cfg).step d (.serve time) = { d with
            station := hear (handleCmd time cmd d.station.world)
              { d.station with queue := rest } } := by
          simp [desk, drain, hqueue]
        cases place with
        | zero =>
          obtain rfl : cmd = stopCmd := by simpa [hqueue] using hstop
          refine ⟨_, List.mem_cons_of_mem _ (Machine.mem_visited_self _ _), ?_⟩
          rw [hdrain]
          exact handleCmd_stop time d.station.world
        | succ place =>
          have hplace : ((desk cfg).step d (.serve time)).station.queue[place]? = some stopCmd := by
            rw [hdrain]
            simpa [hqueue, hear] using hstop
          rw [hserve] at hserved
          obtain ⟨t, ht, hstate⟩ := ih hnext hplace (by simpa using hserved)
          exact ⟨t, List.mem_cons_of_mem _ ht, hstate⟩

/-- A press that ends while the oven runs stops it, whatever else is posted: no later than
the control thread has handled the commands that were queued before it, and one more. -/
theorem stop_press_stops (cfg : CoreConfig) {d : Desk F} (h : (desk cfg).Reachable d)
    (hrunning : d.station.world.ctx.state = .running) (hpress : d.pressStarted ≠ 0)
    (hroom : d.station.queue.length < cmdQueueLen) {e : Event}
    (hrelease : buttonEvent e = some false) (events : List Event)
    (hserved : d.station.queue.length < events.countP isServe) :
    ∃ t ∈ (desk cfg).visited ((desk cfg).step d e) events,
      t.station.world.ctx.state ≠ .running := by
  have hd := sound_of_reachable h
  obtain ⟨uptime, hstep⟩ := step_of_button cfg d hrelease
  obtain ⟨-, hfalse⟩ | ⟨-, hzero⟩ | ⟨-, -, order, hcmd, hstate, he⟩ :=
    onButton_cases hd.attentive false uptime
  · cases hfalse
  · exact absurd hzero hpress
  · have hstop : order.cmd = .stop := by
      rw [hcmd, meant, hstate, hrunning]
      simp
    have hqueue : ((desk cfg).step d e).station.queue[d.station.queue.length]? = some stopCmd := by
      rw [hstep, he, hstop]
      simp [post, reflowCmdPost, BoundedQueue.put_of_room hroom, stopCmd]
    exact queued_stop_stops cfg (hd.step cfg e) hqueue hserved

/-- The button goes down or comes up. -/
def key (pressed : Bool) (uptime : ℤ) : Event :=
  .input ⟨.key, .keyEnter, if pressed then 1 else 0⟩ uptime

/-- An oven started from the panel, with the button held down again. -/
def heldDown : Desk ℚ := (desk .stock).run (.boot ⟨true, true, true, 0, 0, 0, 0⟩)
  [.iterate (roomIteration 300), .iterate (roomIteration 600), key true 610, key false 700, .serve 701,
    key true 5000]

theorem stop_press_stops_held :
    ∃ t ∈ (desk .stock).visited ((desk .stock).step heldDown (key false 5100)) [.serve 5101],
      t.station.world.ctx.state ≠ .running := by
  have hboot : (desk .stock).Reachable (.boot ⟨true, true, true, 0, 0, 0, 0⟩ : Desk ℚ) :=
    .start ⟨_, rfl⟩
  have hreach : (desk .stock).Reachable heldDown :=
    hboot.run (Machine.admitted_of_forall (fun _ _ => trivial) _ _)
  exact stop_press_stops .stock hreach (by decide +kernel) (by decide +kernel)
    (by decide +kernel) rfl _ (by decide +kernel)

end FrontPanel

end ReflowOven
