import ReflowOven.CapturedHandles
import ReflowOven.ClickAnswers
import ReflowOven.GuardedMachines
import ReflowOven.SerialConsole

/-!
# Connecting the page to the serial port

The page that is opened locally, from the click that asks for a port to the close of the port.
Every `await` lets the page handle something else, so that clicks, the end of a read loop, the
disconnect event and the answers of the browser come in any order; what one of them does up to
its next `await` is one step. Grants of a port, writers and intervals are numbered as they are
acquired; a port is the same object whenever it is granted.
-/

namespace ReflowOven.SerialSession

open ClickAnswers LineStreams OperatorPage SerialConsole

/-- What `open()` of a port comes to, and which of the streams of the port cannot be had then. -/
inductive Opening
  | refused (message : List UInt8)
  | noWriter
  | noReader
  | ready

/-- The page and the calls of it that wait: `choosing` for a port to be chosen, `opening` for
a port to open, `loops` for a port to be read, each with its `buf`, and `closing` for a port to
close. `granted` has the port of each grant, and `openPorts` are those that have opened and that
the page has not called `close()` on since. -/
structure Tab where
  page : Page
  usb : Bool
  port : HandleCell Unit
  granted : List ℕ
  writer : HandleCell (List UInt8)
  poll : HandleCell Unit
  choosing : ℕ
  opening : List ℕ
  openPorts : List ℕ
  loops : List (ℕ × List UInt8)
  closing : ℕ

inductive Event
  | connect
  | chosen (r : Except (List UInt8) ℕ)
  | opened (port : ℕ) (r : Opening)
  | chunk (loop : ℕ) (text : List UInt8)
  | ended (loop : ℕ)
  | disconnect
  | closed (refusal : Option (List UInt8))
  | interval (timer : ℕ)
  | click (click : Click)

/-- The port that the page names. -/
def Tab.device (s : Tab) : Option ℕ := s.port.named.bind fun n => s.granted[n]?

def Tab.link (t : List UInt8) (s : Tab) : Tab := { s with page := { s.page with link := t } }

def usbWrite (line : List UInt8) (s : Tab) : Tab :=
  { s with writer := s.writer.use (line ++ ascii "\r\n") }

/-- The selector has its new value when its command is sent. -/
def Tab.choose (s : Tab) : Click → Tab
  | .profile v => { s with page := { s.page with prof := { s.page.prof with value := some v } } }
  | .start | .stop | .clear => s

def usbCmd (click : Click) (s : Tab) : Tab :=
  usbWrite (match click with
    | .start => ascii "reflow start"
    | .stop => ascii "reflow stop"
    | .clear => ascii "reflow clear"
    | .profile v => ascii "reflow profile " ++ decimalText v) (s.choose click)

def usbClose (s : Tab) : Tab :=
  { s with
    poll := s.poll.release
    writer := s.writer.release
    port := s.port.release
    usb := true
    openPorts := s.openPorts.filter fun p => s.device ≠ some p
    closing := s.closing + s.port.named.toList.length }.link (ascii "desconectado")

/-- `usbConnect` up to the choice of the port. -/
def usbConnect (serial : Bool) (s : Tab) : Tab :=
  if serial then { s with choosing := s.choosing + 1 }
  else s.link (ascii "este navegador nao tem Web Serial (use Chrome ou Edge)")

/-- The port is chosen and `open()` called, or the request is refused. -/
def usbChosen (r : Except (List UInt8) ℕ) (s : Tab) : Tab :=
  match r with
  | .ok p =>
    { s with
      choosing := s.choosing - 1
      port := s.port.acquire
      granted := s.granted ++ [p]
      opening := s.opening ++ [p] }
  | .error message =>
    { s with choosing := s.choosing - 1 }.link (ascii "nao conectou: " ++ message)

/-- The end of `usbConnect`, with the read loop it starts. -/
def usbStart (reads : Bool) (s : Tab) : Tab :=
  let s :=
    { s with
      writer := s.writer.acquire
      loops := s.loops ++ if reads then [(s.writer.next, [])] else [] }
  let s := usbWrite (ascii "reflow profile") (usbWrite [] s)
  { s with poll := s.poll.acquire }

/-- `open()` answers. The streams are those of the port that the page names by then. -/
def usbOpened (p : ℕ) (r : Opening) (s : Tab) : Tab :=
  let s := { s with opening := s.opening.erase p }
  let shown :=
    { s with usb := false, openPorts := s.openPorts ++ [p] }.link
      (ascii "conectado pela porta USB")
  match r with
  | .refused message => s.link (ascii "nao conectou: " ++ message)
  | .noWriter => shown
  | .noReader => if s.port.named.isSome then usbStart false shown else shown
  | .ready => if s.port.named.isSome then usbStart true shown else shown

/-- A read loop gets a chunk. -/
def usbRead (loop : ℕ) (text : List UInt8) (s : Tab) : Tab :=
  let r := readLoop ⟨(s.loops.lookup loop).getD [], s.page⟩ text
  { s with
    page := r.state
    loops := s.loops.map fun l => if l.1 = loop then (loop, r.buf) else l }

def loadHint (serial : Bool) : List UInt8 :=
  if serial then ascii "clique em Conectar por USB"
  else ascii "abra no Chrome ou Edge para usar a porta USB"

/-- The page as it is opened locally. -/
def Tab.local (serial : Bool) : Tab :=
  Tab.link (loadHint serial) ⟨.loaded, true, .empty, [], .empty, .empty, 0, [], [], [], 0⟩

/-- A hidden button is not clicked. -/
def serialTab (serial : Bool) : Machine Tab Event where
  init s := s = .local serial
  admits
    | s, .connect => s.usb
    | s, .chosen _ => 0 < s.choosing
    | s, .opened p _ => p ∈ s.opening
    | s, .chunk loop _ | s, .ended loop => loop ∈ s.loops.map Prod.fst
    | _, .disconnect => serial
    | s, .closed _ => 0 < s.closing
    | s, .interval timer => s.poll.Held timer
    | s, .click (.profile v) => v ∈ s.page.prof.options.map Prod.fst
    | _, .click _ => True
  step
    | s, .connect => usbConnect serial s
    | s, .chosen r => usbChosen r s
    | s, .opened p r => usbOpened p r s
    | s, .chunk loop text => usbRead loop text s
    | s, .ended loop => usbClose { s with loops := s.loops.filter fun l => l.1 ≠ loop }
    | s, .disconnect => usbClose s
    | s, .closed refusal =>
      let s := { s with closing := s.closing - 1 }
      refusal.elim s fun message =>
        s.link (ascii "desconectado (a porta nao fechou: " ++ message ++ ascii ")")
    | s, .interval timer => usbWrite (ascii "reflow json") { s with poll := s.poll.fire timer () }
    | s, .click click => usbCmd click s

instance (serial : Bool) : ∀ s e, Decidable ((serialTab serial).admits s e)
  | s, .connect => inferInstanceAs (Decidable (s.usb = true))
  | s, .chosen _ => inferInstanceAs (Decidable (0 < s.choosing))
  | s, .opened p _ => inferInstanceAs (Decidable (p ∈ s.opening))
  | s, .chunk loop _ | s, .ended loop =>
    inferInstanceAs (Decidable (loop ∈ s.loops.map Prod.fst))
  | _, .disconnect => inferInstanceAs (Decidable (serial = true))
  | s, .closed _ => inferInstanceAs (Decidable (0 < s.closing))
  | s, .interval timer => inferInstanceAs (Decidable (s.poll.Held timer))
  | s, .click (.profile v) =>
    inferInstanceAs (Decidable (v ∈ s.page.prof.options.map Prod.fst))
  | _, .click .start | _, .click .stop | _, .click .clear => inferInstanceAs (Decidable True)

variable {serial : Bool} {s : Tab}

section Sound

/-- Where the page names a writer it polls, and its status line is blank only while a port is
read. -/
structure Sound (s : Tab) : Prop where
  port : s.port.Sound
  writer : s.writer.Sound
  poll : s.poll.Sound
  polls : s.writer.named = none ↔ s.poll.named = none
  granted : s.granted.length = s.port.next
  status : s.page.link = [] → s.loops ≠ []

theorem sound_local (serial : Bool) : Sound (.local serial) where
  port := HandleCell.sound_empty
  writer := HandleCell.sound_empty
  poll := HandleCell.sound_empty
  polls := Iff.rfl
  granted := rfl
  status h := by cases serial <;> cases h

theorem Sound.link (h : Sound s) {t : List UInt8} (ht : t ≠ []) : Sound (s.link t) :=
  { h with status := fun hblank => absurd hblank ht }

theorem Sound.usbWrite (h : Sound s) (line : List UInt8) : Sound (usbWrite line s) :=
  { h with
    writer := h.writer.use _
    polls := by simpa [SerialSession.usbWrite] using h.polls }

theorem Sound.choose (h : Sound s) (click : Click) : Sound (s.choose click) := by
  cases click with
  | profile v => exact { h with }
  | start | stop | clear => exact h

theorem Sound.usbClose (h : Sound s) (loops : List (ℕ × List UInt8)) :
    Sound (usbClose { s with loops := loops }) where
  port := h.port.release
  writer := h.writer.release
  poll := h.poll.release
  polls := by simp [SerialSession.usbClose, Tab.link]
  granted := by simpa [SerialSession.usbClose, Tab.link] using h.granted
  status hblank := absurd hblank (by simp [SerialSession.usbClose, Tab.link, ascii])

theorem Sound.usbConnect (h : Sound s) (serial : Bool) : Sound (usbConnect serial s) := by
  cases serial with
  | true => exact { h with }
  | false => exact h.link (by decide)

theorem Sound.usbChosen (h : Sound s) (r : Except (List UInt8) ℕ) : Sound (usbChosen r s) := by
  cases r with
  | ok p =>
    exact
      { h with
        port := h.port.acquire
        granted := by simp [SerialSession.usbChosen, h.granted, HandleCell.acquire] }
  | error message =>
    have hcount : Sound { s with choosing := s.choosing - 1 } := { h with }
    exact hcount.link (by simp [ascii])

theorem Sound.usbStart (h : Sound s) (hlink : s.page.link ≠ []) (reads : Bool) :
    Sound (usbStart reads s) := by
  have hacquired : Sound
      { s with
        writer := s.writer.acquire
        poll := s.poll.acquire
        loops := s.loops ++ if reads then [(s.writer.next, [])] else [] } :=
    { h with
      writer := h.writer.acquire
      poll := h.poll.acquire
      polls := by simp [HandleCell.acquire]
      status := fun hblank => absurd hblank hlink }
  exact (hacquired.usbWrite []).usbWrite (ascii "reflow profile")

theorem Sound.usbOpened (h : Sound s) (p : ℕ) (r : Opening) : Sound (usbOpened p r s) := by
  have herased : Sound { s with opening := s.opening.erase p } := { h with }
  have hshown : Sound (Tab.link (ascii "conectado pela porta USB")
      { s with opening := s.opening.erase p, usb := false, openPorts := s.openPorts ++ [p] }) :=
    { herased with status := fun hblank => absurd hblank (by simp [Tab.link, ascii]) }
  have hstart := hshown.usbStart (by simp [Tab.link, ascii])
  cases r with
  | refused message => exact herased.link (by simp [ascii])
  | noWriter => exact hshown
  | noReader =>
    simp only [SerialSession.usbOpened]
    split_ifs
    · exact hstart false
    · exact hshown
  | ready =>
    simp only [SerialSession.usbOpened]
    split_ifs
    · exact hstart true
    · exact hshown

theorem Sound.usbRead (h : Sound s) {loop : ℕ} (hloop : loop ∈ s.loops.map Prod.fst)
    (text : List UInt8) : Sound (usbRead loop text s) := by
  have hloops : s.loops ≠ [] := by
    rintro hnil
    rw [hnil] at hloop
    cases hloop
  exact { h with status := fun _ => by simpa [SerialSession.usbRead] using hloops }

theorem Sound.step (h : Sound s) {e : Event} (he : (serialTab serial).admits s e) :
    Sound ((serialTab serial).step s e) := by
  cases e with
  | connect => exact h.usbConnect serial
  | chosen r => exact h.usbChosen r
  | opened p r => exact h.usbOpened p r
  | chunk loop text => exact h.usbRead he text
  | ended loop => exact h.usbClose _
  | disconnect => exact h.usbClose s.loops
  | closed refusal =>
    have hcount : Sound { s with closing := s.closing - 1 } := { h with }
    cases refusal with
    | none => exact hcount
    | some message => exact hcount.link (by simp [ascii])
  | interval timer =>
    have hfired : Sound { s with poll := s.poll.fire timer () } :=
      { h with poll := h.poll.fire he () }
    exact hfired.usbWrite _
  | click click => exact (h.choose click).usbWrite _

theorem sound_of_reachable (h : (serialTab serial).Reachable s) : Sound s :=
  h.invariant (fun _ hinit => hinit ▸ sound_local serial) fun _ _ _ hs he => hs.step he

end Sound

/-- In whatever order its calls are answered, the page closes no port, releases no writer and
clears no interval twice and writes to no writer that it has released; and while its status
line is blank it reads a port. -/
theorem handles_live_once (h : (serialTab serial).Reachable s) :
    (∀ n, Life (s.port.history n) ∧ Life (s.writer.history n) ∧ Life (s.poll.history n)) ∧
      (s.page.link = [] → s.loops ≠ []) := by
  have hsound := sound_of_reachable h
  exact ⟨fun n => ⟨hsound.port.lives n, hsound.writer.lives n, hsound.poll.lives n⟩,
    hsound.status⟩

/-- The disconnect event and the end of the read loop close the port one after the other. -/
def unplugged : List Event :=
  [.connect, .chosen (.ok 0), .opened 0 .ready, .click .start, .interval 0, .disconnect,
    .ended 0, .closed none]

theorem handles_live_once_unplugged :
    (∀ n, Life (((serialTab true).run (.local true) unplugged).port.history n) ∧
      Life (((serialTab true).run (.local true) unplugged).writer.history n) ∧
      Life (((serialTab true).run (.local true) unplugged).poll.history n)) ∧
      (((serialTab true).run (.local true) unplugged).page.link = [] →
        ((serialTab true).run (.local true) unplugged).loops ≠ []) :=
  handles_live_once (Machine.Reachable.run (.start rfl) (by decide))

section Kept

/-- The page names every port it has opened and not closed since, every writer whose lock it
holds and every interval that runs. -/
structure Kept (s : Tab) : Prop where
  openPorts : ∀ p ∈ s.openPorts, s.device = some p
  writer : s.writer.Tidy
  poll : s.poll.Tidy

/-- No other port is chosen while one is open, and what is opened is the port that the page
names, with no writer left from before. -/
def Clear (s : Tab) : Event → Prop
  | .chosen (.ok q) => ∀ p ∈ s.openPorts, p = q
  | .opened p .noWriter => s.device = some p
  | .opened p .noReader | .opened p .ready => s.device = some p ∧ s.writer.named = none
  | _ => True

instance : ∀ s e, Decidable (Clear s e)
  | s, .chosen (.ok q) => inferInstanceAs (Decidable (∀ p ∈ s.openPorts, p = q))
  | s, .opened p .noWriter => inferInstanceAs (Decidable (s.device = some p))
  | s, .opened p .noReader | s, .opened p .ready =>
    inferInstanceAs (Decidable (s.device = some p ∧ s.writer.named = none))
  | _, .chosen (.error _) | _, .opened _ (.refused _) | _, .connect | _, .chunk _ _ | _, .ended _
  | _, .disconnect | _, .closed _ | _, .interval _ | _, .click _ =>
    inferInstanceAs (Decidable True)

theorem kept_local (serial : Bool) : Kept (.local serial) :=
  ⟨by simp [Tab.local, Tab.link], HandleCell.tidy_empty, HandleCell.tidy_empty⟩

theorem kept_usbWrite_iff (h : Sound s) (line : List UInt8) :
    Kept (usbWrite line s) ↔ Kept s := by
  have hwriter := h.writer.tidy_use_iff (line ++ ascii "\r\n")
  exact ⟨fun hk => ⟨hk.openPorts, hwriter.mp hk.writer, hk.poll⟩,
    fun hk => ⟨hk.openPorts, hwriter.mpr hk.writer, hk.poll⟩⟩

theorem Kept.choose (hk : Kept s) (click : Click) : Kept (s.choose click) := by
  cases click with
  | profile v => exact ⟨hk.openPorts, hk.writer, hk.poll⟩
  | start | stop | clear => exact hk

theorem Kept.usbClose (hk : Kept s) (loops : List (ℕ × List UInt8)) :
    Kept (usbClose { s with loops := loops }) where
  openPorts p hp := by
    obtain ⟨hmem, hother⟩ := List.mem_filter.mp hp
    exact absurd (hk.openPorts p hmem) (of_decide_eq_true hother)
  writer := hk.writer.release
  poll := hk.poll.release

theorem device_usbChosen (h : Sound s) (q : ℕ) : (usbChosen (.ok q) s).device = some q := by
  simp [usbChosen, Tab.device, HandleCell.acquire, ← h.granted]

theorem kept_usbChosen_iff (h : Sound s) (hk : Kept s) (q : ℕ) :
    Kept (usbChosen (.ok q) s) ↔ ∀ p ∈ s.openPorts, p = q := by
  have hdevice := device_usbChosen h q
  constructor
  · intro hafter p hp
    exact Option.some.inj ((hafter.openPorts p hp).symm.trans hdevice)
  · intro hsame
    refine ⟨fun p hp => ?_, hk.writer, hk.poll⟩
    rw [hdevice, hsame p hp]

theorem kept_usbStart_iff (h : Sound s) (hk : s.writer.Tidy ∧ s.poll.Tidy)
    (reads : Bool) : Kept (usbStart reads s) ↔
      (∀ p ∈ s.openPorts, s.device = some p) ∧ s.writer.named = none := by
  have hwriter := h.writer.acquire
  have hwrites : (usbStart reads s).writer.Tidy ↔ s.writer.acquire.Tidy :=
    ((hwriter.use _).tidy_use_iff _).trans (hwriter.tidy_use_iff _)
  have htidy := h.writer.tidy_acquire_iff hk.1
  constructor
  · intro hafter
    exact ⟨hafter.openPorts, htidy.mp (hwrites.mp hafter.writer)⟩
  · rintro ⟨hports, hnone⟩
    exact ⟨hports, hwrites.mpr (htidy.mpr hnone),
      (h.poll.tidy_acquire_iff hk.2).mpr (h.polls.mp hnone)⟩

theorem kept_usbOpened_iff (h : Sound s) (hk : Kept s) (p : ℕ) (r : Opening) :
    Kept (usbOpened p r s) ↔ Clear s (.opened p r) := by
  set shown := Tab.link (ascii "conectado pela porta USB")
    { s with opening := s.opening.erase p, usb := false, openPorts := s.openPorts ++ [p] }
    with hshown
  have hdevice : shown.device = s.device := rfl
  have hports : (∀ q ∈ shown.openPorts, shown.device = some q) ↔ s.device = some p := by
    have hopen : shown.openPorts = s.openPorts ++ [p] := rfl
    rw [hdevice, hopen, List.forall_mem_append, List.forall_mem_singleton]
    exact and_iff_right hk.openPorts
  have hshows : Kept shown ↔ s.device = some p :=
    ⟨fun hafter => hports.mp hafter.openPorts, fun hnamed => ⟨hports.mpr hnamed, hk.writer, hk.poll⟩⟩
  have hstarts (reads : Bool) :
      Kept (if s.port.named.isSome then usbStart reads shown else shown) ↔
        s.device = some p ∧ s.writer.named = none := by
    have hsound : Sound shown := h.usbOpened p .noWriter
    split_ifs with hsome
    · rw [kept_usbStart_iff hsound ⟨hk.writer, hk.poll⟩, hports]
      rfl
    · have hnone : s.device = none := by
        rw [Tab.device, Option.not_isSome_iff_eq_none.mp hsome, Option.bind_none]
      simp [hshows, hnone]
  cases r with
  | refused message => exact iff_of_true ⟨hk.openPorts, hk.writer, hk.poll⟩ trivial
  | noWriter => exact hshows
  | noReader => exact hstarts false
  | ready => exact hstarts true

theorem kept_step_iff (h : Sound s) (hk : Kept s) {e : Event}
    (he : (serialTab serial).admits s e) :
    Kept ((serialTab serial).step s e) ↔ Clear s e := by
  cases e with
  | connect =>
    refine iff_of_true ?_ trivial
    cases serial with
    | true => exact ⟨hk.openPorts, hk.writer, hk.poll⟩
    | false => exact ⟨hk.openPorts, hk.writer, hk.poll⟩
  | chosen r =>
    cases r with
    | ok q => exact kept_usbChosen_iff h hk q
    | error message => exact iff_of_true ⟨hk.openPorts, hk.writer, hk.poll⟩ trivial
  | opened p r => exact kept_usbOpened_iff h hk p r
  | chunk loop text => exact iff_of_true ⟨hk.openPorts, hk.writer, hk.poll⟩ trivial
  | ended loop => exact iff_of_true (hk.usbClose _) trivial
  | disconnect => exact iff_of_true (hk.usbClose s.loops) trivial
  | closed refusal =>
    refine iff_of_true ?_ trivial
    cases refusal with
    | none => exact ⟨hk.openPorts, hk.writer, hk.poll⟩
    | some message => exact ⟨hk.openPorts, hk.writer, hk.poll⟩
  | interval timer =>
    have hfired : Sound { s with poll := s.poll.fire timer () } :=
      { h with poll := h.poll.fire he () }
    exact iff_of_true ((kept_usbWrite_iff hfired _).mpr
      ⟨hk.openPorts, hk.writer, hk.poll.fire he ()⟩) trivial
  | click click =>
    exact iff_of_true ((kept_usbWrite_iff (h.choose click) _).mpr (hk.choose click)) trivial

/-- A port that opens is lost unless it is the port that the page names. -/
theorem device_of_kept_usbOpened {p : ℕ} {r : Opening} (hr : ∀ message, r ≠ .refused message)
    (hk : Kept (usbOpened p r s)) : s.device = some p := by
  have hopen : p ∈ (usbOpened p r s).openPorts ∧ (usbOpened p r s).device = s.device := by
    cases r with
    | refused message => exact absurd rfl (hr message)
    | noWriter => exact ⟨List.mem_concat_self, rfl⟩
    | noReader | ready =>
      simp only [usbOpened]
      split_ifs <;> exact ⟨List.mem_concat_self, rfl⟩
  exact hopen.2 ▸ hk.openPorts p hopen.1

/-- The page loses no open port, no lock and no interval in exactly the runs in which no
connection is made on top of another. A port that opens after a second one was chosen is lost
unless the two are the same. -/
theorem nothing_lost_iff {events : List Event}
    (h : (serialTab serial).Admitted (.local serial) events) :
    ((∀ t ∈ (serialTab serial).visited (.local serial) events, Kept t) ↔
      ((serialTab serial).restrict Clear).Admitted (.local serial) events) ∧
    ∀ before p q r, events = before ++ [.chosen (.ok p), .chosen (.ok q), .opened p r] →
      (∀ message, r ≠ .refused message) → Kept ((serialTab serial).run (.local serial) events) →
        p = q := by
  refine ⟨Machine.forall_visited_iff (fun _ _ hs he => hs.step he)
    (fun _ _ hs hk he => kept_step_iff hs hk he) (sound_local serial) (kept_local serial) h, ?_⟩
  rintro before p q r rfl hr hk
  have hsound := sound_of_reachable (Machine.Reachable.run (.start rfl)
    (Machine.admitted_append.mp h).1)
  rw [Machine.run_append] at hk
  have hnamed := device_of_kept_usbOpened hr hk
  exact Option.some.inj (hnamed.symm.trans (device_usbChosen (hsound.usbChosen (.ok p)) q))

/-- The button is clicked twice before the first port has opened. -/
def clickedTwice (p q : ℕ) : List Event :=
  [.connect, .connect, .chosen (.ok p), .chosen (.ok q), .opened p .noWriter]

/-- The port is chosen again when it is open already, and opens no second time. -/
def chosenAgain : List Event :=
  [.connect, .connect, .chosen (.ok 0), .opened 0 .ready, .chosen (.ok 0),
    .opened 0 (.refused (ascii "already open"))]

theorem nothing_lost_iff_chosenAgain :
    (∀ t ∈ (serialTab true).visited (.local true) chosenAgain, Kept t) ∧
      ¬Kept ((serialTab true).run (.local true) (clickedTwice 0 1)) := by
  refine ⟨(nothing_lost_iff (by decide)).1.mpr (by decide), fun hk => ?_⟩
  exact absurd ((nothing_lost_iff (by decide)).2 [.connect, .connect] 0 1 .noWriter rfl
    (fun _ => Opening.noConfusion) hk) (by decide)

end Kept

section Notice

/-- The answers that `usbConnect` says something of. -/
def Event.AnswersConnect : Event → Prop
  | .chosen (.error _) | .opened _ _ => True
  | _ => False

structure SaysClosed (s : Tab) : Prop where
  loops : s.loops = []
  writer : s.writer.named = none
  link : ascii "desconectado" <+: s.page.link

theorem saysClosed_usbClose (h : s.loops = []) : SaysClosed (usbClose s) :=
  ⟨h, HandleCell.named_release _, List.prefix_rfl⟩

theorem SaysClosed.usbWrite (h : SaysClosed s) (line : List UInt8) :
    SaysClosed (usbWrite line s) :=
  { h with writer := (HandleCell.named_use _ _).trans h.writer }

theorem SaysClosed.choose (h : SaysClosed s) (click : Click) : SaysClosed (s.choose click) := by
  cases click with
  | profile v => exact { h with }
  | start | stop | clear => exact h

theorem SaysClosed.step (h : SaysClosed s) {e : Event} (he : (serialTab true).admits s e)
    (hno : ¬e.AnswersConnect) : SaysClosed ((serialTab true).step s e) := by
  have hempty : ∀ loop, loop ∉ s.loops.map Prod.fst := by simp [h.loops]
  cases e with
  | connect => exact { h with }
  | chosen r =>
    cases r with
    | ok p => exact { h with }
    | error message => exact absurd trivial hno
  | opened p r => exact absurd trivial hno
  | chunk loop text => exact absurd he (hempty loop)
  | ended loop => exact absurd he (hempty loop)
  | disconnect => exact saysClosed_usbClose h.loops
  | closed refusal =>
    cases refusal with
    | none => exact { h with }
    | some message =>
      have hhead : ascii "desconectado" <+: ascii "desconectado (a porta nao fechou: " := by decide
      exact { h with link := hhead.trans ⟨message ++ ascii ")", (List.append_assoc _ _ _).symm⟩ }
  | interval timer =>
    have hfired : SaysClosed { s with poll := s.poll.fire timer () } := { h with }
    exact hfired.usbWrite _
  | click click => exact (h.choose click).usbWrite _

theorem SaysClosed.run (h : SaysClosed s) {events : List Event}
    (he : (serialTab true).Admitted s events) (hno : ∀ e ∈ events, ¬e.AnswersConnect) :
    SaysClosed ((serialTab true).run s events) := by
  induction events generalizing s with
  | nil => exact h
  | cons e events ih =>
    obtain ⟨hfirst, hrest⟩ := List.forall_mem_cons.mp hno
    exact ih (h.step he.1 hfirst) he.2 hrest

/-- Once the last read loop has ended, whatever it still read before, the page says that it
is disconnected until another attempt to connect is answered. -/
theorem disconnect_notice_stays {loop : ℕ} (hlast : s.loops.map Prod.fst = [loop])
    {events : List Event} (h : (serialTab true).Admitted s (.ended loop :: events))
    (hno : ∀ e ∈ events, ¬e.AnswersConnect) :
    SaysClosed ((serialTab true).run s (.ended loop :: events)) := by
  have hnone : s.loops.filter (fun l => l.1 ≠ loop) = [] := by
    obtain ⟨l, hloops, rfl⟩ := List.map_eq_singleton_iff.mp hlast
    simp [hloops]
  have hend : SaysClosed ((serialTab true).step s (.ended loop)) :=
    saysClosed_usbClose (s := { s with loops := s.loops.filter fun l => l.1 ≠ loop }) hnone
  exact hend.run h.2 hno

/-- The page has connected, and a frame that nobody has read yet waits in the port. -/
def connected : Tab :=
  (serialTab true).run (.local true) [.connect, .chosen (.ok 0), .opened 0 .ready]

theorem disconnect_notice_stays_buffered :
    SaysClosed ((serialTab true).run
      ((serialTab true).step connected (.chunk 0 (cmdJson Appliance.blank ++ [0x0D, 0x0A])))
      [.ended 0, .disconnect, .closed (some (ascii "busy")), .click .stop]) :=
  disconnect_notice_stays (by decide) (by decide) (by simp [Event.AnswersConnect])

end Notice

end ReflowOven.SerialSession
