import ReflowOven.Appliance
import ReflowOven.FrontPanel
import ReflowOven.SerialOrders

/-!
# The oven on the serial port

The control thread with the shell of `shell_cmds.c` beside it. The listener of the shell runs
inside each publish and takes no lock, so that a command may read the telemetry while it
changes: each field of what it prints is then one that was published, but not all of one
frame. The page that polls over the port follows the oven field by field.
-/

namespace ReflowOven.SerialOven

open LineStreams OperatorPage SerialConsole
open Appliance (Snapshot blank)
open SerialOrders (reflowSub respond)

variable {F : Type}

section Fields

inductive Field
  | uptimeMs | tempMc | tempValid | setpointMc | dutyPermille | state | fault | profileIdx
  | stageIdx | nStages | stageMs | totalMs

def Field.of (t : ReflowTelemetry) : Field → ℤ
  | .uptimeMs => t.uptimeMs.toNat
  | .tempMc => t.tempMc.toInt
  | .tempValid => t.tempValid.toNat
  | .setpointMc => t.setpointMc.toInt
  | .dutyPermille => t.dutyPermille.toNat
  | .state => t.state.toNat
  | .fault => t.fault.toNat
  | .profileIdx => t.profileIdx.toNat
  | .stageIdx => t.stageIdx.toNat
  | .nStages => t.nStages.toNat
  | .stageMs => t.stageMs.toNat
  | .totalMs => t.totalMs.toNat

/-- Every field of the copy is that of one of the frames. -/
def Mixes (frames : List ReflowTelemetry) (copy : ReflowTelemetry) : Prop :=
  ∀ field : Field, field.of copy ∈ frames.map fun t => field.of t

theorem eq_of_fields {t t' : ReflowTelemetry} (h : ∀ field : Field, field.of t = field.of t') :
    t = t' := by
  cases t
  cases t'
  rw [ReflowTelemetry.mk.injEq]
  exact ⟨UInt32.toNat_inj.mp (Int.natCast_inj.mp (h .uptimeMs)), Int32.toInt_inj.mp (h .tempMc),
    UInt8.toNat_inj.mp (Int.natCast_inj.mp (h .tempValid)), Int32.toInt_inj.mp (h .setpointMc),
    UInt16.toNat_inj.mp (Int.natCast_inj.mp (h .dutyPermille)),
    UInt8.toNat_inj.mp (Int.natCast_inj.mp (h .state)),
    UInt8.toNat_inj.mp (Int.natCast_inj.mp (h .fault)),
    UInt8.toNat_inj.mp (Int.natCast_inj.mp (h .profileIdx)),
    UInt8.toNat_inj.mp (Int.natCast_inj.mp (h .stageIdx)),
    UInt8.toNat_inj.mp (Int.natCast_inj.mp (h .nStages)),
    UInt32.toNat_inj.mp (Int.natCast_inj.mp (h .stageMs)),
    UInt32.toNat_inj.mp (Int.natCast_inj.mp (h .totalMs))⟩

/-- A copy of what did not change is whole. -/
theorem Mixes.eq {t copy : ReflowTelemetry} (h : Mixes [t] copy) : copy = t :=
  eq_of_fields fun field => List.mem_singleton.mp (h field)

end Fields

section Machine

/-- `snap` is the shell's copy of the telemetry, with what it has been since the present
command began, and `printed` what the lines so far carry. -/
structure Console (F : Type) where
  world : World F
  snap : Snapshot
  queue : List ReflowCmd
  printed : List Output

/-- A command begins to read the telemetry, and has read `copy` when it prints. -/
inductive Input
  | iterate (it : Iteration)
  | serve (time : ℤ)
  | post (cmd : ReflowCmd)
  | begin
  | line (words : List (List UInt8)) (copy : ReflowTelemetry)

def telemetryCb (s : Snapshot) (t : ReflowTelemetry) : Snapshot := ⟨t, s.held ++ [s.value]⟩

/-- The control thread goes from its world to `w`, and the shell hears every frame. -/
def Console.goTo (w : World F) (s : Console F) : Console F :=
  { s with world := w, snap := (newFrames s.world w).foldl telemetryCb s.snap }

variable [CFloat F]

def Console.boot (b : Boot) : Console F where
  world := bootController b
  snap := (bootController b : World F).frames.reverse.foldl telemetryCb ⟨blank, []⟩
  queue := []
  printed := []

def console (cfg : CoreConfig) : Machine (Console F) Input where
  init s := ∃ b, s = .boot b
  admits
    | s, .line _ copy => Mixes s.snap.journal copy
    | _, .iterate _ | _, .serve _ | _, .post _ | _, .begin => True
  step
    | s, .iterate it => s.goTo (iterate cfg it s.world)
    | s, .serve time =>
      match s.queue with
      | [] => s
      | cmd :: queue => { s with queue := queue }.goTo (handleCmd time cmd s.world)
    | s, .post cmd => { s with queue := (reflowCmdPost cmd s.queue).2 }
    | s, .begin => { s with snap := ⟨s.snap.value, []⟩ }
    | s, .line words copy =>
      let r := respond copy words
      { s with
        snap := ⟨s.snap.value, []⟩
        queue := r.posts.elim s.queue fun cmd => (reflowCmdPost cmd s.queue).2
        printed := s.printed ++ r.prints }

/-- The telemetry of a line. -/
def telemetryOf : Output → Option ReflowTelemetry
  | .json t => some t
  | .entry _ | .other => none

end Machine

section Follows

/-- What the shell has heard is what was published, and every field of what it has printed
reads that in order. -/
structure Follows (s : Console F) : Prop where
  heard : ∃ past first rest, s.snap.journal = first :: rest ∧
    blank :: s.world.frames.reverse = past ++ first :: rest ∧
      ∀ field : Field, ReadsOf ((past ++ [first]).map fun t => field.of t)
        ((s.printed.filterMap telemetryOf).map fun t => field.of t)

theorem journal_foldl (frames : List ReflowTelemetry) (s : Snapshot) :
    (frames.foldl telemetryCb s).journal = s.journal ++ frames := by
  induction frames generalizing s with
  | nil => exact (List.append_nil _).symm
  | cons t frames ih =>
    rw [List.foldl_cons, ih]
    simp [telemetryCb, Snapshot.journal]

theorem follows_boot [CFloat F] (b : Boot) : Follows (.boot b : Console F) where
  heard := ⟨[], blank, _, journal_foldl _ ⟨blank, []⟩, rfl, fun _ => .done _⟩

theorem Follows.goTo {s : Console F} (h : Follows s) {w : World F}
    (hgrown : ∃ new, w.frames = new ++ s.world.frames) : Follows (s.goTo w) := by
  obtain ⟨new, hnew⟩ := hgrown
  obtain ⟨past, first, rest, hjournal, hpublished, hreads⟩ := h.heard
  refine ⟨past, first, rest ++ new.reverse, ?_, ?_, hreads⟩
  · simp only [Console.goTo, newFrames_eq new hnew]
    rw [journal_foldl, hjournal, List.cons_append]
  · simp only [Console.goTo]
    rw [hnew, List.reverse_append, ← List.cons_append, hpublished, List.append_assoc,
      List.cons_append]

/-- A command reads on from where the one before it stopped. -/
theorem Follows.read {s : Console F} (h : Follows s) (outs : List Output)
    (houts : ∀ field : Field, ReadsOf (s.snap.journal.map fun t => field.of t)
      ((outs.filterMap telemetryOf).map fun t => field.of t)) (queue : List ReflowCmd) :
    Follows { s with
      snap := ⟨s.snap.value, []⟩
      queue := queue
      printed := s.printed ++ outs } := by
  obtain ⟨past, first, rest, hjournal, hpublished, hreads⟩ := h.heard
  have hheld : s.snap.held ++ [s.snap.value] = first :: rest := hjournal
  refine ⟨past ++ s.snap.held, s.snap.value, [], rfl, ?_, fun field => ?_⟩
  · rw [List.append_assoc, hheld]
    exact hpublished
  · have hmore := houts field
    have hfirst := hreads field
    rw [hjournal, List.map_cons] at hmore
    rw [List.map_append, List.map_singleton] at hfirst
    rw [List.append_assoc, hheld, List.map_append, List.map_cons, List.filterMap_append,
      List.map_append]
    exact hfirst.append hmore

/-- A command prints no telemetry but its copy. -/
theorem telemetry_respond (copy : ReflowTelemetry) (words : List (List UInt8)) :
    (respond copy words).prints.filterMap telemetryOf = [] ∨
      (respond copy words).prints.filterMap telemetryOf = [copy] := by
  have hprints : ∀ c ∈ reflowSub, ∀ argv : List (List UInt8),
      (c.handler copy argv).prints.filterMap telemetryOf = [] ∨
        (c.handler copy argv).prints.filterMap telemetryOf = [copy] := by
    have hentries : ((List.range reflowProfileCount).map Output.entry).filterMap telemetryOf = [] := by
      rw [List.filterMap_map]
      exact List.filterMap_eq_nil_iff.mpr fun _ _ => rfl
    simp only [reflowSub, List.forall_mem_cons]
    refine ⟨fun _ => .inl ?_, fun _ => .inr rfl, fun _ => .inl rfl, fun _ => .inl rfl,
      fun _ => .inl rfl, fun argv => .inl ?_, fun _ hc => absurd hc List.not_mem_nil⟩
    · simp [SerialOrders.cmdStatus, SerialConsole.cmdStatus, telemetryOf]
    · rcases argv with _ | ⟨name, _ | ⟨number, rest⟩⟩
      · exact hentries
      · exact hentries
      · rfl
  rcases SerialOrders.respond_cases words with hnone | ⟨c, hc, argv, hresponse⟩
  · rw [hnone]
    exact .inl rfl
  · rw [hresponse]
    exact hprints c hc argv

theorem Follows.step [CFloat F] {cfg : CoreConfig} {s : Console F} (h : Follows s)
    {input : Input} (hinput : (console cfg).admits s input) :
    Follows ((console cfg).step s input) := by
  cases input with
  | iterate it =>
    obtain ⟨new, hnew, -⟩ := (iterate_announces cfg it s.world).heard
    exact h.goTo ⟨new, hnew⟩
  | serve time =>
    simp only [console]
    split
    · exact h
    · next cmd queue _ =>
      have hqueue : Follows { s with queue := queue } := ⟨h.heard⟩
      exact hqueue.goTo (handleCmd_frames time cmd s.world)
  | post cmd => exact ⟨h.heard⟩
  | begin =>
    have hread := h.read [] (fun _ => .done _) s.queue
    rwa [List.append_nil] at hread
  | line words copy =>
    refine h.read _ (fun field => ?_) _
    rcases telemetry_respond copy words with hprints | hprints
    · rw [hprints]
      exact .done _
    · rw [hprints]
      exact .of_mem (hinput field)

theorem follows_of_reachable [CFloat F] {cfg : CoreConfig} {s : Console F}
    (h : (console cfg).Reachable s) : Follows s :=
  h.invariant (fun _ ⟨b, hboot⟩ => hboot ▸ follows_boot b) fun _ _ _ hs hinput => hs.step hinput

/-- While a command reads, its copy changes at most as often as something is published after
the first `k` frames. -/
def HeldSince (k : ℕ) (s : Console F) : Prop := s.snap.held.length + k ≤ s.world.frames.length

theorem HeldSince.goTo {k : ℕ} {s : Console F} (h : HeldSince k s) {w : World F}
    (hgrown : ∃ new, w.frames = new ++ s.world.frames) : HeldSince k (s.goTo w) := by
  obtain ⟨new, hnew⟩ := hgrown
  have hjournal := congrArg List.length (journal_foldl (newFrames s.world w) s.snap)
  have hlength := congrArg List.length hnew
  simp only [Snapshot.journal, newFrames_eq new hnew, List.length_append, List.length_singleton,
    List.length_reverse] at hjournal hlength
  simp only [HeldSince, Console.goTo, newFrames_eq new hnew] at h ⊢
  omega

theorem HeldSince.step [CFloat F] {cfg : CoreConfig} {k : ℕ} {s : Console F} (h : HeldSince k s)
    (input : Input) : HeldSince k ((console cfg).step s input) := by
  have hfrom : k ≤ s.world.frames.length := (Nat.le_add_left _ _).trans h
  cases input with
  | iterate it =>
    obtain ⟨new, hnew, -⟩ := (iterate_announces cfg it s.world).heard
    exact h.goTo ⟨new, hnew⟩
  | serve time =>
    simp only [console]
    split
    · exact h
    · next cmd queue _ =>
      have hqueue : HeldSince k { s with queue := queue } := h
      exact hqueue.goTo (handleCmd_frames time cmd s.world)
  | post cmd => exact h
  | begin => simpa [HeldSince, console] using hfrom
  | line words copy => simpa [HeldSince, console] using hfrom

/-- Where nothing is published while a command reads, its copy is one frame. -/
theorem journal_of_quiet [CFloat F] {cfg : CoreConfig} {s : Console F} {quiet : List Input}
    (h : (console cfg).Admitted s (.begin :: quiet))
    (hquiet : ((console cfg).run s (.begin :: quiet)).world.frames = s.world.frames) :
    ((console cfg).run s (.begin :: quiet)).snap.journal =
      [((console cfg).run s (.begin :: quiet)).snap.value] := by
  have hbegin : HeldSince s.world.frames.length ((console cfg).step s .begin) :=
    (Nat.zero_add _).le
  have hrun : HeldSince s.world.frames.length ((console cfg).run s (.begin :: quiet)) :=
    Machine.run_invariant (fun _ input hs _ => hs.step input) hbegin h.2
  rw [HeldSince, hquiet] at hrun
  have hheld : ((console cfg).run s (.begin :: quiet)).snap.held = [] :=
    List.eq_nil_of_length_eq_zero (by omega)
  rw [Snapshot.journal, hheld, List.nil_append]

theorem Follows.value_eq {s : Console F} (h : Follows s) :
    s.snap.value = s.world.frames.headD blank := by
  obtain ⟨past, first, rest, hjournal, hpublished, -⟩ := h.heard
  have hlast := congrArg List.getLast? hpublished
  rw [← hjournal, Snapshot.journal, ← List.append_assoc, List.getLast?_concat,
    List.getLast?_cons, List.getLast?_reverse] at hlast
  rw [← Option.some.inj hlast, List.headD_eq_head?_getD]

/-- A command during which nothing is published prints the newest frame. -/
theorem copy_of_quiet [CFloat F] {cfg : CoreConfig} {s : Console F} (hs : (console cfg).Reachable s)
    {quiet : List Input} {words : List (List UInt8)} {copy : ReflowTelemetry}
    (h : (console cfg).Admitted s (.begin :: quiet ++ [.line words copy]))
    (hquiet : ((console cfg).run s (.begin :: quiet)).world.frames = s.world.frames) :
    copy = s.world.frames.headD blank := by
  obtain ⟨hread, hline, -⟩ := Machine.admitted_append.mp h
  have hmixes : Mixes ((console cfg).run s (.begin :: quiet)).snap.journal copy := hline
  rw [journal_of_quiet hread hquiet] at hmixes
  have hnewest := (follows_of_reachable (hs.run hread)).value_eq
  rw [hmixes.eq, hnewest, hquiet]

theorem Follows.reads {s : Console F} (h : Follows s) (field : Field) :
    ReadsOf ((blank :: s.world.frames.reverse).map fun t => field.of t)
      ((s.printed.filterMap telemetryOf).map fun t => field.of t) := by
  obtain ⟨past, first, rest, -, hpublished, hreads⟩ := h.heard
  rw [hpublished]
  refine (hreads field).sublist (List.Sublist.map _ ?_)
  exact List.Sublist.append_left ((List.nil_sublist rest).cons_cons first) past

end Follows

section Answers

variable [CFloat F]

/-- What a line is answered with. -/
def answer : Input → List Output
  | .line words copy => (respond copy words).prints
  | .iterate _ | .serve _ | .post _ | .begin => []

theorem printed_step (cfg : CoreConfig) (s : Console F) (input : Input) :
    ((console cfg).step s input).printed = s.printed ++ answer input := by
  cases input with
  | iterate it => exact (List.append_nil _).symm
  | serve time =>
    simp only [console, answer, List.append_nil]
    split <;> rfl
  | post cmd => exact (List.append_nil _).symm
  | begin => exact (List.append_nil _).symm
  | line words copy => rfl

theorem printed_run (cfg : CoreConfig) (s : Console F) (inputs : List Input) :
    ((console cfg).run s inputs).printed = s.printed ++ inputs.flatMap answer := by
  induction inputs generalizing s with
  | nil => exact (List.append_nil _).symm
  | cons input inputs ih =>
    rw [Machine.run_cons, ih, printed_step, List.flatMap_cons, List.append_assoc]

end Answers

section Page

def carried : Output → Bool
  | .json _ | .entry _ => true
  | .other => false

theorem filterMap_carried {α : Type} {f : Output → Option α} (hf : f .other = none)
    (outs : List Output) : (outs.filter carried).filterMap f = outs.filterMap f := by
  rw [List.filterMap_filter]
  refine List.filterMap_congr fun out _ => ?_
  cases out with
  | other => exact hf.symm
  | json t => rfl
  | entry i => rfl

theorem filterMap_frame (outs : List Output) :
    outs.filterMap Output.frame = (outs.filterMap telemetryOf).map Frame.ofTelemetry := by
  rw [List.map_filterMap]
  refine List.filterMap_congr fun out _ => ?_
  cases out <;> rfl

def booted : Console ℚ := .boot ⟨true, true, true, 0, 0, 0, 0⟩

/-- What the oven has published by the second poll. -/
def polledFrame : ReflowTelemetry :=
  ((console .stock).run booted [.iterate (roomIteration 100)]).snap.value

def polled : List Input :=
  [.iterate (roomIteration 100), .line [ascii "reflow", ascii "profile"] polledFrame,
    .begin, .post ⟨ReflowCmdId.stop.toU8, 0⟩, .line [ascii "reflow", ascii "json"] polledFrame]

theorem polled_admitted : (console .stock).Admitted booted polled := by
  refine ⟨trivial, fun field => ?_, trivial, trivial, fun field => ?_, trivial⟩
  · exact List.mem_map_of_mem List.mem_concat_self
  · exact List.mem_map_of_mem List.mem_concat_self

def polledLines : List (List UInt8) := cmdProfile ++ [prompt ++ cmdJson polledFrame ++ [0x0D]]

theorem polledLines_carry : List.Forall₂ Carries polledLines
    ((List.range reflowProfileCount).map .entry ++ [.json polledFrame]) :=
  List.rel_append cmdProfile_carries (.cons (.json polledFrame (by decide) (by decide)) .nil)

end Page

end ReflowOven.SerialOven
