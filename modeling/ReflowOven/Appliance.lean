import ReflowOven.ElementSafety
import ReflowOven.FaultLatch
import ReflowOven.OvenLifecycle
import ReflowOven.PostedCommands
import ReflowOven.PublishedFrames
import ReflowOven.RegisterReads
import ReflowOven.ResponseIntegrity

/-!
# The networked oven

The control thread and the web server side by side. Two things pass between them: commands
through the queue, which other threads fill as well, and frames through the snapshot of
`httpd.c`, whose listener gives a frame up when the lock is not free in time. A pass of the
server is one step; its posts reach the queue one at a time after it, and the snapshots it
reads are values held since the pass before, so that the control thread may run in between.
-/

namespace ReflowOven.Appliance

open Httpd HttpResponseGrammar

variable {F : Type} {n : ℕ}

/-- `held` is what the snapshot has been since the last pass, without what it is now. -/
structure Snapshot where
  value : ReflowTelemetry
  held : List ReflowTelemetry

def Snapshot.journal (s : Snapshot) : List ReflowTelemetry := s.held ++ [s.value]

/-- The listener of the server, given the lock or not. -/
def telemetryCb (locked : Bool) (t : ReflowTelemetry) (s : Snapshot) : Snapshot :=
  if locked then ⟨t, s.held ++ [s.value]⟩ else s

/-- Whether the lock is given is decided for each frame. -/
def hear : List ReflowTelemetry → (ℕ → Bool) → Snapshot → Snapshot
  | [], _, s => s
  | t :: frames, locks, s => hear frames (fun k => locks (k + 1)) (telemetryCb (locks 0) t s)

/-- The static `snapshot` before the first frame. -/
def blank : ReflowTelemetry := ⟨0, 0, 0, 0, 0, 0, 0, 0, 0, 0, 0, 0⟩

/-- `outbox` are the posts of the last pass that the queue has yet to take; `served` are the
commands handled, in order. -/
structure Networked (F : Type) (n : ℕ) where
  world : World F
  server : Server n
  snap : Snapshot
  outbox : List ReflowCmd
  queue : List ReflowCmd
  served : List ReflowCmd

inductive Input (n : ℕ)
  | iterate (it : Iteration) (locks : ℕ → Bool)
  | serve (time : ℤ) (locks : ℕ → Bool)
  | post (cmd : ReflowCmd)
  | pass (input : PassInput n)
  | deliver

/-- The buffers that the server receives. -/
def Input.received : Input n → List (List UInt8)
  | .pass input => Httpd.received input
  | .iterate _ _ | .serve _ _ | .post _ | .deliver => []

/-- The snapshots that the server takes. -/
def Input.snapshots : Input n → List ReflowTelemetry
  | .pass input => Httpd.snapshots input
  | .iterate _ _ | .serve _ _ | .post _ | .deliver => []

/-- The command that another thread posts. -/
def Input.posted : Input n → Option ReflowCmd
  | .post cmd => some cmd
  | .iterate _ _ | .serve _ _ | .pass _ | .deliver => none

variable [CFloat F]

/-- The control thread goes from its world to `w`, and the server listens. -/
def Networked.goTo (w : World F) (locks : ℕ → Bool) (a : Networked F n) : Networked F n :=
  { a with world := w, snap := hear (newFrames a.world w) locks a.snap }

def Networked.boot (b : Boot) (locks : ℕ → Bool) (server : Server n) : Networked F n where
  world := bootController b
  server := server
  snap := hear (bootController b : World F).frames.reverse locks ⟨blank, []⟩
  outbox := []
  queue := []
  served := []

def appliance (cfg : CoreConfig) (net : NetConfig) :
    Machine (Networked F net.maxClients) (Input net.maxClients) where
  init a := ∃ b locks server, (httpd net).init server ∧ a = .boot b locks server
  admits
    | a, .pass input => (httpd net).admits a.server input ∧ a.outbox = [] ∧
        ReadsOf a.snap.journal (Httpd.snapshots input)
    | a, .deliver => a.queue.length < cmdQueueLen
    | _, .iterate _ _ | _, .serve _ _ | _, .post _ => True
  step
    | a, .iterate it locks => a.goTo (iterate cfg it a.world) locks
    | a, .serve time locks =>
      match a.queue with
      | [] => a
      | cmd :: queue =>
        { a with queue := queue, served := a.served ++ [cmd] }.goTo
          (ReflowOven.handleCmd time cmd a.world) locks
    | a, .post cmd => { a with queue := (reflowCmdPost cmd a.queue).2 }
    | a, .pass input =>
      { a with
        server := pass net a.server input
        snap := ⟨a.snap.value, []⟩
        outbox := a.outbox ++ (pass net a.server input).posted.drop a.server.posted.length }
    | a, .deliver =>
      match a.outbox with
      | [] => a
      | cmd :: outbox => { a with outbox := outbox, queue := a.queue ++ [cmd] }

omit [CFloat F] in
/-- What the queue takes in a step: on the left the post of another thread, where there is room
for it, and on the right the oldest post of the server. -/
def taken (a : Networked F n) : Input n → List (ReflowCmd ⊕ ReflowCmd)
  | .post cmd => (BoundedQueue.taken cmdQueueLen cmd a.queue).map .inl
  | .deliver => a.outbox.head?.toList.map .inr
  | .iterate _ _ | .serve _ _ | .pass _ => []

omit [CFloat F] in
/-- The listener adds to the journal what it heard with the lock, in order. -/
theorem hear_journal (frames : List ReflowTelemetry) (locks : ℕ → Bool) (s : Snapshot) :
    ∃ heard, heard.Sublist frames ∧ (hear frames locks s).journal = s.journal ++ heard := by
  induction frames generalizing locks s with
  | nil => exact ⟨[], .slnil, (List.append_nil _).symm⟩
  | cons t frames ih =>
    obtain ⟨heard, hsub, hjournal⟩ := ih (fun k => locks (k + 1)) (telemetryCb (locks 0) t s)
    rw [hear, hjournal]
    cases locks 0 with
    | false => exact ⟨heard, hsub.cons t, rfl⟩
    | true =>
      refine ⟨t :: heard, hsub.cons_cons t, ?_⟩
      simp [telemetryCb, Snapshot.journal]

/-- Where the server's readings of the snapshot stand: `reads` so far, all in order. -/
structure Outward (reads : List ReflowTelemetry) (a : Networked F n) : Prop where
  journal : ∃ past first rest, a.snap.journal = first :: rest ∧
    (past ++ first :: rest).Sublist (blank :: a.world.frames.reverse) ∧
      ReadsOf (past ++ [first]) reads

omit [CFloat F] in
theorem Outward.goTo {reads : List ReflowTelemetry} {a : Networked F n} (h : Outward reads a)
    {w : World F} {new : List ReflowTelemetry} (hnew : w.frames = new ++ a.world.frames)
    (locks : ℕ → Bool) : Outward reads (a.goTo w locks) := by
  obtain ⟨past, first, rest, hjournal, hsub, hreads⟩ := h.journal
  obtain ⟨heard, hheard, hnext⟩ := hear_journal (newFrames a.world w) locks a.snap
  rw [newFrames_eq new hnew] at hheard
  refine ⟨past, first, rest ++ heard, ?_, ?_, hreads⟩
  · rw [← List.cons_append, ← hjournal]
    exact hnext
  · show (past ++ first :: (rest ++ heard)).Sublist (blank :: w.frames.reverse)
    rw [hnew, List.reverse_append, ← List.cons_append, ← List.cons_append, ← List.append_assoc]
    exact hsub.append hheard

omit [CFloat F] in
/-- A pass reads on from where the pass before it stopped. -/
theorem Outward.read {reads more : List ReflowTelemetry} {a : Networked F n}
    (h : Outward reads a) (hmore : ReadsOf a.snap.journal more) {a' : Networked F n}
    (hworld : a'.world = a.world) (hsnap : a'.snap = ⟨a.snap.value, []⟩) :
    Outward (reads ++ more) a' := by
  obtain ⟨past, first, rest, hjournal, hsub, hreads⟩ := h.journal
  rw [hjournal] at hmore
  refine ⟨past ++ a.snap.held, a.snap.value, [], by rw [hsnap]; rfl, ?_, ?_⟩
  · rw [hworld, List.append_assoc]
    have hheld : a.snap.held ++ [a.snap.value] = first :: rest := hjournal
    rwa [hheld]
  · rw [List.append_assoc]
    have hheld : a.snap.held ++ [a.snap.value] = first :: rest := hjournal
    rw [hheld]
    exact hreads.append hmore

/-- Where the commands stand. What the queue took, in order, has been handled or is still queued;
what it took from the server, with what is still in the outbox, is what the server posted, and
each of these posts stands for one of the buffers, in their order. -/
structure Inward (token : CString) (bufs : List (List UInt8)) (posts : List ReflowCmd)
    (takes : List (ReflowCmd ⊕ ReflowCmd)) (a : Networked F n) : Prop where
  queue : a.served ++ a.queue = takes.map (Sum.elim id id)
  local_posts : (takes.filterMap Sum.getLeft?).Sublist posts
  server_posts : takes.filterMap Sum.getRight? ++ a.outbox = a.server.posted
  orders : ∃ orders : List Order, orders.map Order.cmd = a.server.posted ∧
    (orders.map Order.buf).Sublist bufs ∧ ∀ order ∈ orders, Commands token order.buf order.cmd

/-- A running oven has handled a start. -/
structure Told (a : Networked F n) : Prop where
  coherent : Coherent a.world
  started : a.world.ctx.state = .running → ∃ cmd ∈ a.served, cmd.id = ReflowCmdId.start.toU8

section Steps

variable {cfg : CoreConfig} {net : NetConfig} {a : Networked F net.maxClients}

theorem Told.step (h : Told a) (input : Input net.maxClients) :
    Told ((appliance cfg net).step a input) := by
  cases input with
  | iterate it locks =>
    refine ⟨h.coherent.iterate cfg it, fun hrun => h.started ?_⟩
    by_contra hidle
    exact (FaultLatch.iterate_quiet cfg it a.world).no_start hidle hrun
  | serve time locks =>
    simp only [appliance]
    split
    · exact h
    · next cmd queue hqueue =>
      refine ⟨h.coherent.handleCmd time cmd, fun hrun => ?_⟩
      by_cases hbefore : a.world.ctx.state = .running
      · obtain ⟨start, hmem, hid⟩ := h.started hbefore
        exact ⟨start, List.mem_append_left _ hmem, hid⟩
      · have hrun : ((controllerThread cfg).step a.world (.command time cmd)).ctx.state =
            .running := hrun
        have hstart := FaultLatch.step_into_running hbefore hrun
        exact ⟨cmd, List.mem_append_right _ (List.mem_singleton_self cmd), hstart.1⟩
  | post cmd => exact ⟨h.coherent, h.started⟩
  | pass input => exact ⟨h.coherent, h.started⟩
  | deliver =>
    simp only [appliance]
    split <;> exact ⟨h.coherent, h.started⟩

omit [CFloat F] in
/-- The thread takes from the queue what it handles, and nothing else changes hands. -/
theorem Inward.of_serve {bufs : List (List UInt8)} {posts : List ReflowCmd}
    {takes : List (ReflowCmd ⊕ ReflowCmd)} (h : Inward net.token bufs posts takes a)
    {a' : Networked F net.maxClients}
    (hqueue : a'.served ++ a'.queue = a.served ++ a.queue) (hout : a'.outbox = a.outbox)
    (hserver : a'.server = a.server) : Inward net.token bufs posts takes a' where
  queue := hqueue.trans h.queue
  local_posts := h.local_posts
  server_posts := by rw [hout, hserver, h.server_posts]
  orders := hserver ▸ h.orders

theorem Inward.step {bufs : List (List UInt8)} {posts : List ReflowCmd}
    {takes : List (ReflowCmd ⊕ ReflowCmd)} (h : Inward net.token bufs posts takes a)
    (input : Input net.maxClients) :
    Inward net.token (bufs ++ input.received) (posts ++ input.posted.toList)
      (takes ++ taken a input) ((appliance cfg net).step a input) := by
  cases input with
  | iterate it locks =>
    simp only [Input.received, Input.posted, Option.toList, List.append_nil, taken]
    exact h.of_serve rfl rfl rfl
  | serve time locks =>
    simp only [Input.received, Input.posted, Option.toList, List.append_nil, taken, appliance]
    split
    · exact h
    · next cmd queue hqueue =>
      refine h.of_serve ?_ rfl rfl
      rw [hqueue]
      exact (List.append_cons _ _ _).symm
  | post cmd =>
    simp only [Input.received, Input.posted, Option.toList, List.append_nil, taken]
    refine ⟨?_, ?_, ?_, h.orders⟩
    · show a.served ++ (reflowCmdPost cmd a.queue).2 = _
      rw [reflowCmdPost, BoundedQueue.put_snd, ← List.append_assoc, h.queue]
      simp
    · have hsub := h.local_posts.append (BoundedQueue.taken_sublist cmdQueueLen cmd a.queue)
      simpa [List.filterMap_map, Function.comp_def] using hsub
    · show _ ++ a.outbox = a.server.posted
      simpa [List.filterMap_map, Function.comp_def] using h.server_posts
  | pass input =>
    simp only [Input.received, Input.posted, Option.toList, List.append_nil, taken]
    obtain ⟨orders, horders, hbufs, hall⟩ := h.orders
    obtain ⟨more, hposted, hmore, hcommands⟩ := pass_posts net a.server input
    refine ⟨h.queue, h.local_posts, ?_, orders ++ more, ?_, ?_, ?_⟩
    · show _ ++ (a.outbox ++ (pass net a.server input).posted.drop a.server.posted.length) = _
      rw [← List.append_assoc, h.server_posts, hposted, List.drop_left]
      exact hposted.symm
    · rw [List.map_append, horders]
      exact hposted.symm
    · rw [List.map_append]
      exact hbufs.append hmore
    · exact List.forall_mem_append.mpr ⟨hall, hcommands⟩
  | deliver =>
    simp only [Input.received, Input.posted, Option.toList_none, List.append_nil, taken, appliance]
    cases hout : a.outbox with
    | nil => simpa [hout] using h
    | cons cmd outbox =>
      refine ⟨?_, ?_, ?_, h.orders⟩
      · show a.served ++ (a.queue ++ [cmd]) = _
        rw [← List.append_assoc, h.queue]
        simp
      · simpa [List.filterMap_cons] using h.local_posts
      · have hposts := h.server_posts
        rw [hout] at hposts
        simpa [List.filterMap_cons] using hposts

theorem Outward.step {reads : List ReflowTelemetry} (h : Outward reads a)
    {input : Input net.maxClients} (ha : (appliance cfg net).admits a input) :
    Outward (reads ++ input.snapshots) ((appliance cfg net).step a input) := by
  cases input with
  | iterate it locks =>
    obtain ⟨new, hnew, -⟩ := (iterate_announces cfg it a.world).heard
    rw [Input.snapshots, List.append_nil]
    exact h.goTo hnew locks
  | serve time locks =>
    simp only [Input.snapshots, List.append_nil, appliance]
    split
    · exact h
    · next cmd queue hqueue =>
      obtain ⟨new, hnew⟩ := handleCmd_frames time cmd a.world
      have hsame : Outward reads { a with queue := queue, served := a.served ++ [cmd] } :=
        ⟨h.journal⟩
      exact hsame.goTo hnew locks
  | post cmd =>
    rw [Input.snapshots, List.append_nil]
    exact ⟨h.journal⟩
  | pass input => exact h.read ha.2.2 rfl rfl
  | deliver =>
    simp only [Input.snapshots, List.append_nil, appliance]
    split <;> exact ⟨h.journal⟩

theorem server_step {seen : List ReflowTelemetry} (hs : Httpd.Sound net a.server)
    (htalk : Talk seen a.server) {input : Input net.maxClients}
    (ha : (appliance cfg net).admits a input) :
    Httpd.Sound net ((appliance cfg net).step a input).server ∧
      Talk (seen ++ input.snapshots) ((appliance cfg net).step a input).server := by
  cases input with
  | pass input => exact ⟨pass_sound hs ha.1, pass_talk htalk hs ha.1⟩
  | iterate | post =>
    rw [Input.snapshots, List.append_nil]
    exact ⟨hs, htalk⟩
  | serve | deliver =>
    simp only [Input.snapshots, List.append_nil, appliance]
    split <;> exact ⟨hs, htalk⟩

end Steps

/-- What every step keeps, with the inputs so far and what the queue took in them. -/
structure Sound (net : NetConfig) (inputs : List (Input net.maxClients))
    (takes : List (ReflowCmd ⊕ ReflowCmd)) (a : Networked F net.maxClients) : Prop where
  told : Told a
  inward : Inward net.token (inputs.flatMap Input.received) (inputs.filterMap Input.posted) takes a
  outward : Outward (inputs.flatMap Input.snapshots) a
  server : Httpd.Sound net a.server
  talk : Talk (inputs.flatMap Input.snapshots) a.server

theorem Sound.boot {net : NetConfig} (b : Boot) (locks : ℕ → Bool)
    {server : Server net.maxClients} (hserver : (httpd net).init server) :
    Sound net [] [] (.boot b locks server : Networked F net.maxClients) where
  told := by
    refine ⟨coherent_boot b, fun hrun => absurd hrun ?_⟩
    simp only [Networked.boot, bootController]
    split <;> simp [enterLoop, Ctx.zero]
  inward := by
    have hposted : server.posted = [] := hserver.2.2.2
    exact ⟨rfl, List.nil_sublist _, hposted.symm, [], hposted.symm, List.nil_sublist _,
      fun _ h => absurd h List.not_mem_nil⟩
  outward := by
    obtain ⟨heard, hheard, hjournal⟩ :=
      hear_journal (bootController b : World F).frames.reverse locks ⟨blank, []⟩
    exact ⟨[], blank, heard, hjournal, hheard.cons_cons blank, .done _⟩
  server := sound_of_reachable (.start hserver)
  talk := by
    refine ⟨fun fd c hc => ?_, fun i fd hi => ?_⟩
    · simp [Networked.boot, hserver.2.2.1, connections] at hc
    · simp [Networked.boot, hserver.1] at hi

theorem Sound.step {cfg : CoreConfig} {net : NetConfig} {inputs : List (Input net.maxClients)}
    {takes : List (ReflowCmd ⊕ ReflowCmd)} {a : Networked F net.maxClients}
    (h : Sound net inputs takes a) {input : Input net.maxClients}
    (ha : (appliance cfg net).admits a input) :
    Sound net (inputs ++ [input]) (takes ++ taken a input) ((appliance cfg net).step a input) := by
  obtain ⟨hserver, htalk⟩ := server_step h.server h.talk ha
  have hinward : Inward _ _ _ _ ((appliance cfg net).step a input) := h.inward.step input
  have houtward := h.outward.step ha
  have hposted : [input].filterMap Input.posted = input.posted.toList := by
    cases hpost : input.posted <;> simp [hpost]
  refine ⟨h.told.step input, ?_, ?_, hserver, ?_⟩
  · rwa [List.flatMap_append, List.flatMap_singleton, List.filterMap_append, hposted]
  · rwa [List.flatMap_append, List.flatMap_singleton]
  · rwa [List.flatMap_append, List.flatMap_singleton]

theorem sound_of_admitted {cfg : CoreConfig} {net : NetConfig} (b : Boot) (locks : ℕ → Bool)
    {server : Server net.maxClients} (hserver : (httpd net).init server)
    {inputs : List (Input net.maxClients)}
    (h : (appliance cfg net).Admitted (.boot b locks server : Networked F net.maxClients) inputs) :
    Sound net inputs
      ((appliance cfg net).yields taken (.boot b locks server : Networked F net.maxClients) inputs)
      ((appliance cfg net).run (.boot b locks server : Networked F net.maxClients) inputs) :=
  Machine.run_invariant_yields (M := appliance cfg net) (f := taken) (I := Sound net)
    (fun _ _ _ _ h ha => h.step ha) (.boot b locks hserver) h

omit [CFloat F] in
/-- The snapshots that the server took read the published frames. -/
theorem Sound.reads_published {net : NetConfig} {inputs : List (Input net.maxClients)}
    {takes : List (ReflowCmd ⊕ ReflowCmd)} {a : Networked F net.maxClients}
    (h : Sound net inputs takes a) {frames : List ReflowTelemetry}
    (hframes : frames.Sublist (inputs.flatMap Input.snapshots)) :
    ReadsOf (blank :: a.world.frames.reverse) frames := by
  obtain ⟨past, first, rest, -, hsub, hreads⟩ := h.outward.journal
  have hpublished : (past ++ [first]).Sublist (blank :: a.world.frames.reverse) :=
    (List.Sublist.append_left ((List.nil_sublist rest).cons_cons first) past).trans hsub
  exact (hreads.sublist hpublished).of_sublist hframes

omit [CFloat F] in
/-- Where the element is on, one of the inputs asked for it. -/
theorem Sound.started_by {net : NetConfig} {inputs : List (Input net.maxClients)}
    {takes : List (ReflowCmd ⊕ ReflowCmd)} {a : Networked F net.maxClients}
    (h : Sound net inputs takes a) (hon : a.world.heater.pin = true) :
    (∃ cmd ∈ inputs.filterMap Input.posted, cmd.id = ReflowCmdId.start.toU8) ∨
      ∃ buf ∈ inputs.flatMap Input.received, ∃ cmd, cmd.id = ReflowCmdId.start.toU8 ∧
        Commands net.token buf cmd := by
  have hrunning : a.world.ctx.state = .running := by
    by_contra hidle
    obtain ⟨-, -, hoff⟩ := h.told.coherent.idle_off hidle
    exact absurd (h.told.coherent.pin_recorded.symm.trans hon) (by simp [hoff])
  obtain ⟨cmd, hmem, hid⟩ := h.told.started hrunning
  have htaken : cmd ∈ takes.map (Sum.elim id id) := h.inward.queue ▸ List.mem_append_left _ hmem
  obtain ⟨take, htake, rfl⟩ := List.mem_map.mp htaken
  cases take with
  | inl cmd =>
    have hlocal : cmd ∈ takes.filterMap Sum.getLeft? := List.mem_filterMap.mpr ⟨_, htake, rfl⟩
    exact .inl ⟨cmd, h.inward.local_posts.subset hlocal, hid⟩
  | inr cmd =>
    obtain ⟨orders, hposted, hbufs, hall⟩ := h.inward.orders
    have hserver : cmd ∈ orders.map Order.cmd := by
      rw [hposted, ← h.inward.server_posts]
      exact List.mem_append_left _ (List.mem_filterMap.mpr ⟨_, htake, rfl⟩)
    obtain ⟨order, horder, rfl⟩ := List.mem_map.mp hserver
    exact .inr ⟨order.buf, hbufs.subset (List.mem_map_of_mem horder), order.cmd, hid,
      hall order horder⟩

section Runs

variable (cfg : CoreConfig) (net : NetConfig) (b : Boot) (locks : ℕ → Bool)
  {server : Server net.maxClients} {inputs : List (Input net.maxClients)}

/-- Over every run, the commands handled and queued are, in order and one for one, those that
the queue took in its steps. Those taken from other threads are posts of theirs, in order; those
taken from the server, with those on their way from it, are the posts of the server, in order,
and each of these stands for one buffer received, whose request carries the token. -/
theorem commands_accounted (hserver : (httpd net).init server)
    (h : (appliance cfg net).Admitted (.boot b locks server : Networked F net.maxClients) inputs) :
    let a := (appliance cfg net).run (.boot b locks server : Networked F net.maxClients) inputs
    let takes := (appliance cfg net).yields taken
      (.boot b locks server : Networked F net.maxClients) inputs
    a.served ++ a.queue = takes.map (Sum.elim id id) ∧
      (takes.filterMap Sum.getLeft?).Sublist (inputs.filterMap Input.posted) ∧
      takes.filterMap Sum.getRight? ++ a.outbox = a.server.posted ∧
      ∃ orders : List Order, orders.map Order.cmd = a.server.posted ∧
        (orders.map Order.buf).Sublist (inputs.flatMap Input.received) ∧
        ∀ order ∈ orders, Commands net.token order.buf order.cmd := by
  intro a takes
  have hinward := (sound_of_admitted b locks hserver h).inward
  exact ⟨hinward.queue, hinward.local_posts, hinward.server_posts, hinward.orders⟩

/-- The element is only ever on because somebody said so: in every run in which it is, another
thread has posted a start, or the server has received a request for one that carries the
token. Without a token the network cannot start the oven. -/
theorem element_on_only_if_told (hserver : (httpd net).init server)
    (h : (appliance cfg net).Admitted (.boot b locks server : Networked F net.maxClients) inputs) :
    let a := (appliance cfg net).run (.boot b locks server : Networked F net.maxClients) inputs
    a.world.heater.pin = true →
      (∃ cmd ∈ inputs.filterMap Input.posted, cmd.id = ReflowCmdId.start.toU8) ∨
        ∃ buf ∈ inputs.flatMap Input.received, ∃ cmd, cmd.id = ReflowCmdId.start.toU8 ∧
          Commands net.token buf cmd := by
  intro a hon
  exact (sound_of_admitted b locks hserver h).started_by hon

/-- What a subscriber of the events is sent is the oven as it was published, in the order it
was published: any connection accepted a beginning of one response, whose head counts its body,
or of an event stream whose events read the published frames in order, after the blank one there
is at first. -/
theorem subscribers_follow_the_oven (hserver : (httpd net).init server)
    (h : (appliance cfg net).Admitted (.boot b locks server : Networked F net.maxClients) inputs)
    (fd : Fd) :
    let a := (appliance cfg net).run (.boot b locks server : Networked F net.maxClients) inputs
    ∀ c ∈ connections fd a.server.log, ∃ script torn, Httpd.Follows script c.sends torn ∧
      (torn = true → c.closed = true) ∧
      ((∃ status ctype head body, script = [head, body] ∧ IsResponse status ctype head body) ∨
        ∃ head frames events, script = head :: events ∧ IsEventsHead head ∧
          List.Forall₂ IsEvent frames events ∧
            ReadsOf (blank :: a.world.frames.reverse) frames) := by
  intro a c hc
  have hsound := sound_of_admitted b locks hserver h
  obtain ⟨-, script, torn, hscript, hfollows, hclosed⟩ := hsound.talk.past fd c hc
  refine ⟨script, torn, hfollows, hclosed, ?_⟩
  cases hscript with
  | response body hstatus hctype =>
    exact .inl ⟨_, _, _, body, rfl, responseHeader_isResponse hstatus hctype body⟩
  | @stream frames hframes =>
    exact .inr ⟨_, frames, _, rfl, eventsHeader_isEventsHead, forall₂_isEvent frames,
      hsound.reads_published hframes⟩

end Runs

/-- A site with a token, and an oven that its network starts. -/
def tokenSite : NetConfig := { siteConfig with token := .ofBuffer (ascii "k3y") }

def startRequest : List UInt8 :=
  ascii "POST /api/cmd?id=start HTTP/1.1\r\nHost: 10.0.0.2\r\nX-Reflow-Token: k3y\r\n\r\n"

/-- The visitor of slot 0 asks for a start. -/
def asksStart : PassInput 4 :=
  { oneVisitor with
    accept := none
    recv := fun _ => startRequest
    post := fun _ => true
    delays := []
    sends := [⟨.sent 200, 1⟩] }

def remoteStart : List (Input 4) :=
  [.iterate (roomIteration 300) fun _ => true, .pass oneVisitor, .pass asksStart,
    .deliver, .serve 400 fun _ => true,
    .iterate (roomIteration 30000) fun _ => true]

def switchedOn : Networked ℚ 4 := .boot ⟨true, true, true, 0, 0, 0, 0⟩ (fun _ => true) started

theorem started_init : (httpd tokenSite).init started := ⟨fun _ => rfl, rfl, rfl, rfl⟩

theorem oneVisitor_admits (fd : Fd) (_ : oneVisitor.accept = some fd) :
    ¬StillOpen fd started.log := by
  simp [StillOpen, started]

theorem remoteStart_admitted :
    (appliance .stock tokenSite).Admitted switchedOn remoteStart := by
  have hasks : ∀ (s : Server 4) fd, asksStart.accept = some fd → ¬StillOpen fd s.log :=
    fun s fd h => by simp [asksStart] at h
  exact ⟨trivial, ⟨oneVisitor_admits, rfl, ReadsOf.replicate blank [] 8⟩,
    ⟨hasks _, by decide +kernel, ReadsOf.replicate blank [] 8⟩,
    show 0 < cmdQueueLen by decide, trivial, trivial, trivial⟩

theorem commands_accounted_remoteStart :
    let a := (appliance .stock tokenSite).run switchedOn remoteStart
    let takes := (appliance .stock tokenSite).yields taken switchedOn remoteStart
    takes = [.inr ⟨ReflowCmdId.start.toU8, 0⟩] ∧
      a.served ++ a.queue = takes.map (Sum.elim id id) ∧
      (takes.filterMap Sum.getLeft?).Sublist (remoteStart.filterMap Input.posted) ∧
      takes.filterMap Sum.getRight? ++ a.outbox = a.server.posted ∧
      ∃ orders : List Order, orders.map Order.cmd = a.server.posted ∧
        (orders.map Order.buf).Sublist (remoteStart.flatMap Input.received) ∧
        ∀ order ∈ orders, Commands tokenSite.token order.buf order.cmd :=
  ⟨by decide +kernel,
    commands_accounted .stock tokenSite _ _ started_init remoteStart_admitted⟩

theorem element_on_only_if_told_remoteStart :
    (∃ cmd ∈ remoteStart.filterMap Input.posted, cmd.id = ReflowCmdId.start.toU8) ∨
      ∃ buf ∈ remoteStart.flatMap Input.received, ∃ cmd, cmd.id = ReflowCmdId.start.toU8 ∧
        Commands tokenSite.token buf cmd :=
  element_on_only_if_told .stock tokenSite _ _ started_init remoteStart_admitted
    (by decide +kernel)

/-- The thread publishes a frame, and a subscriber comes. -/
def published : List (Input 4) :=
  [.iterate (roomIteration 900) fun _ => true, .pass oneVisitor]

def firstFrame : ReflowTelemetry :=
  ((appliance .stock tokenSite).run switchedOn published).snap.value

def subscribes : PassInput 4 :=
  { oneVisitor with
    accept := none
    recv := fun _ => ascii "GET /api/events HTTP/1.1\r\n\r\n"
    served := fun _ => firstFrame
    pushed := fun _ => firstFrame
    delays := []
    sends := [⟨.sent 300, 1⟩, ⟨.sent 300, 1⟩] }

theorem published_admitted :
    (appliance .stock tokenSite).Admitted switchedOn (published ++ [.pass subscribes]) := by
  have hjournal : ((appliance .stock tokenSite).run switchedOn published).snap.journal =
      [firstFrame] := rfl
  have hsubscribes : (appliance .stock tokenSite).admits
      ((appliance .stock tokenSite).run switchedOn published) (.pass subscribes) := by
    refine ⟨fun fd h => by simp [subscribes] at h, by decide +kernel, ?_⟩
    rw [hjournal]
    exact ReadsOf.replicate firstFrame [] 8
  exact Machine.admitted_append.mpr ⟨⟨trivial, ⟨oneVisitor_admits, rfl,
    ReadsOf.replicate blank _ 8⟩, trivial⟩, hsubscribes, trivial⟩

theorem published_connections : connections 7 ((appliance .stock tokenSite).run switchedOn
    (published ++ [.pass subscribes])).server.log =
      [⟨[eventsHeader, dataFrame firstFrame], false, []⟩] := by
  decide +kernel

theorem subscribers_follow_the_oven_published :
    ∃ a : Networked ℚ 4, connections 7 a.server.log =
        [⟨[eventsHeader, dataFrame firstFrame], false, []⟩] ∧
      ∀ c ∈ connections 7 a.server.log, ∃ script torn, Httpd.Follows script c.sends torn ∧
        (torn = true → c.closed = true) ∧
        ((∃ status ctype head body, script = [head, body] ∧ IsResponse status ctype head body) ∨
          ∃ head frames events, script = head :: events ∧ IsEventsHead head ∧
            List.Forall₂ IsEvent frames events ∧
              ReadsOf (blank :: a.world.frames.reverse) frames) :=
  ⟨_, published_connections,
    subscribers_follow_the_oven .stock tokenSite _ _ started_init published_admitted 7⟩

end ReflowOven.Appliance
