import ReflowOven.GuardedMachines
import ReflowOven.OvenLifecycle
import ReflowOven.PublishedFrames
import ReflowOven.RegisterReads
import ReflowOven.TelemetryJson

/-!
# The display

What `display_ui.c` writes on the screen, and its thread beside the control thread. A frame
goes through the telemetry channel in two steps, with the channel locked from the first to the
second: the message is replaced, and the subscriber is told of it unless its queue is full. The
thread takes one notification at a time and then reads whatever the channel holds; a read that
does not get the lock in time is given up, while every publish is taken to get it.
-/

namespace ReflowOven.DisplayScreen

variable {F : Type}

structure Screen where
  profile : List UInt8
  temp : List UInt8
  setpoint : List UInt8
  stage : List UInt8
  duty : ℕ
  state : List UInt8
  deriving DecidableEq

def uiBuild : Screen where
  profile := ascii "reflow oven"
  temp := ascii "--.- C"
  setpoint := ascii "sp --"
  stage := ascii "stage -/-"
  duty := 0
  state := ascii "idle"

def uiUpdate (t : ReflowTelemetry) (s : Screen) : Screen where
  profile := ((reflowProfileGet t.profileIdx.toNat).map fun prof =>
    (CString.ofBuffer prof.name).bytes).getD s.profile
  temp :=
    if t.tempValid ≠ 0 then
      signedText (t.tempMc.toInt.tdiv 1000) ++ 0x2E ::
        (decimalText (t.tempMc.toInt.natAbs % 1000 / 100) ++ ascii " C")
    else ascii "--.- C"
  setpoint :=
    if t.setpointMc.toInt ≠ 0 then
      ascii "sp " ++ signedText (t.setpointMc.toInt.tdiv 1000) ++ ascii " C"
    else ascii "sp --"
  stage := stageName t ++ ascii "  " ++
    decimalText (if t.nStages ≠ 0 then t.stageIdx.toNat + 1 else 0) ++
      0x2F :: (decimalText t.nStages.toNat ++ ascii "  " ++
        decimalText (t.totalMs.toNat / 1000) ++ ascii "s")
  duty := t.dutyPermille.toNat
  state :=
    if t.fault ≠ ReflowFault.none.toU8 then ascii "FAULT: " ++ reflowFaultStr t.fault
    else reflowStateStr t.state ++ ascii "  " ++ decimalText (t.dutyPermille.toNat / 10) ++
      ascii "%"

/-- The length of the subscriber's queue. -/
def displaySubLen : ℕ := 4

/-- The thread before its start, after it gave up, and in its loop: at the wait, or between the
wait and the read. -/
inductive Phase
  | delayed
  | gone
  | waits
  | reads
  deriving DecidableEq

/-- `due` are the frames the control thread has still to publish; it goes on when there are
none. `locked` while the subscriber is yet to be told. -/
structure Bench (F : Type) where
  world : World F
  due : List ReflowTelemetry
  chan : ReflowTelemetry
  locked : Bool
  queued : ℕ
  phase : Phase
  missed : Bool
  shown : List ReflowTelemetry
  screen : Screen

inductive Step
  | oven (input : LoopInput)
  | write
  | notify
  | start (ready : Bool)
  | wait
  | read (ok : Bool)

variable [CFloat F]

def Bench.boot (b : Boot) : Bench F where
  world := bootController b
  due := (bootController b : World F).frames.reverse
  chan := OvenLifecycle.channelInit
  locked := false
  queued := 0
  phase := .delayed
  missed := false
  shown := []
  screen := uiBuild

def bench (cfg : CoreConfig) : Machine (Bench F) Step where
  init s := ∃ b, s = .boot b
  admits
    | s, .oven _ => s.due = [] ∧ s.locked = false
    | s, .write => s.due ≠ [] ∧ s.locked = false
    | s, .notify => s.locked = true
    | s, .start _ => s.phase = .delayed
    | s, .wait => s.phase = .waits ∧ 0 < s.queued
    | s, .read ok => s.phase = .reads ∧ (ok = true → s.locked = false)
  step
    | s, .oven input =>
      let w := (controllerThread cfg).step s.world input
      { s with world := w, due := newFrames s.world w }
    | s, .write =>
      match s.due with
      | [] => s
      | t :: due => { s with due := due, chan := t, locked := true }
    | s, .notify =>
      { s with
        locked := false
        -- the observer of a thread that has gone is disabled
        queued := if s.phase = .gone then s.queued else min displaySubLen (s.queued + 1) }
    | s, .start ready => { s with phase := if ready then .waits else .gone }
    | s, .wait => { s with queued := s.queued - 1, phase := .reads }
    | s, .read ok =>
      if ok then
        { s with phase := .waits, missed := false, shown := s.shown ++ [s.chan]
                 screen := uiUpdate s.chan s.screen }
      else { s with phase := .waits, missed := true }

/-- Nothing is on its way to the screen. -/
def Bench.CaughtUp (s : Bench F) : Prop :=
  s.due = [] ∧ s.locked = false ∧ s.queued = 0 ∧ s.phase = .waits ∧ s.missed = false

/-- What the channel has held is what has been written of the record; the thread has read it in
order, and while it has not read the newest message it will be told, or has missed it. -/
structure Follows (s : Bench F) : Prop where
  record : ∃ before, OvenLifecycle.channelInit :: s.world.frames.reverse =
    before ++ s.chan :: s.due ∧ ReadsOf (before ++ [s.chan]) s.shown
  screen : s.screen = s.shown.foldl (fun screen t => uiUpdate t screen) uiBuild
  told : s.phase = .gone ∨ s.locked = true ∨ 0 < s.queued ∨ s.phase = .reads ∨
    s.missed = true ∨ s.shown.getLast? = some s.chan ∨ s.due = s.world.frames.reverse

theorem follows_boot (b : Boot) : Follows (.boot b : Bench F) where
  record := ⟨[], rfl, .done _⟩
  screen := rfl
  told := by simp [Bench.boot]

variable {cfg : CoreConfig} {s : Bench F}

theorem Follows.oven (h : Follows s) (hdue : s.due = []) (input : LoopInput) :
    Follows ((bench cfg).step s (.oven input)) := by
  obtain ⟨new, hnew⟩ := step_frames cfg s.world input
  have hframes := newFrames_eq new hnew
  have hgrown : ((controllerThread cfg).step s.world input).frames.reverse =
      s.world.frames.reverse ++ new.reverse := by rw [hnew, List.reverse_append]
  obtain ⟨before, hrecord, hreads⟩ := h.record
  rw [hdue] at hrecord
  refine ⟨⟨before, ?_, hreads⟩, h.screen, ?_⟩
  · simp only [bench]
    rw [hframes, hgrown, ← List.cons_append, hrecord, List.append_assoc, List.singleton_append]
  · obtain hgone | hlocked | hqueued | hphase | hmissed | hshown | hnone := h.told
    · exact .inl hgone
    · exact .inr (.inl hlocked)
    · exact .inr (.inr (.inl hqueued))
    · exact .inr (.inr (.inr (.inl hphase)))
    · exact .inr (.inr (.inr (.inr (.inl hmissed))))
    · exact .inr (.inr (.inr (.inr (.inr (.inl hshown)))))
    · refine .inr (.inr (.inr (.inr (.inr (.inr ?_)))))
      simp only [bench]
      rw [hframes, hgrown, ← hnone, hdue, List.nil_append]

theorem Follows.step (h : Follows s) {e : Step} (he : (bench cfg).admits s e) :
    Follows ((bench cfg).step s e) := by
  obtain ⟨before, hrecord, hreads⟩ := h.record
  cases e with
  | oven input => exact h.oven he.1 input
  | write =>
    obtain ⟨t, due, hdue⟩ := List.exists_cons_of_ne_nil he.1
    simp only [bench, hdue]
    rw [hdue] at hrecord
    refine ⟨⟨before ++ [s.chan], by simp [hrecord], ?_⟩, h.screen, .inr (.inl rfl)⟩
    exact hreads.sublist (List.sublist_append_left _ _)
  | notify =>
    refine ⟨⟨before, hrecord, hreads⟩, h.screen, ?_⟩
    by_cases hgone : s.phase = .gone
    · exact .inl hgone
    · refine .inr (.inr (.inl ?_))
      simp [bench, hgone, displaySubLen]
  | start ready =>
    refine ⟨⟨before, hrecord, hreads⟩, h.screen, ?_⟩
    cases ready with
    | false => exact .inl rfl
    | true =>
      have hphase : s.phase = .delayed := he
      have htold := h.told
      simp only [hphase, reduceCtorEq, false_or] at htold
      exact .inr (htold.imp_right (Or.imp_right .inr))
  | wait => exact ⟨⟨before, hrecord, hreads⟩, h.screen, .inr (.inr (.inr (.inl rfl)))⟩
  | read ok =>
    cases ok with
    | false =>
      exact ⟨⟨before, hrecord, hreads⟩, h.screen, .inr (.inr (.inr (.inr (.inl rfl))))⟩
    | true =>
      have hone : ReadsOf [s.chan] [s.chan] := .read (.done _)
      refine ⟨⟨before, hrecord, hreads.append hone⟩, ?_, ?_⟩
      · simp [bench, h.screen]
      · refine .inr (.inr (.inr (.inr (.inr (.inl ?_)))))
        exact List.getLast?_concat

/-- The screen is what the frames read so far make of it, and these read the published frames
in order, each of them whole; and once nothing is on its way to the screen it shows the newest
frame, although the queue lets notifications go when the thread is slow. -/
theorem display_catches_up (cfg : CoreConfig) (b : Boot) {steps : List Step}
    (h : (bench cfg).Admitted (.boot b : Bench F) steps) :
    let s := (bench cfg).run (.boot b : Bench F) steps
    ReadsOf (OvenLifecycle.channelInit :: s.world.frames.reverse) s.shown ∧
      s.screen = s.shown.foldl (fun screen t => uiUpdate t screen) uiBuild ∧
      (s.CaughtUp → ∀ t ∈ s.world.frames.head?, ∃ before, s.screen = uiUpdate t before) := by
  intro s
  have hfollows : Follows s :=
    Machine.run_invariant (M := bench cfg) (fun _ _ h he => h.step he) (follows_boot b) h
  obtain ⟨before, hrecord, hreads⟩ := hfollows.record
  refine ⟨?_, hfollows.screen, ?_⟩
  · rw [hrecord]
    exact hreads.sublist (List.Sublist.append_left (List.singleton_sublist.mpr
      List.mem_cons_self) before)
  · rintro ⟨hdue, hlocked, hqueued, hphase, hmissed⟩ t ht
    obtain ⟨older, hframes⟩ := List.head?_eq_some_iff.mp ht
    rw [hdue, hframes, List.reverse_cons, ← List.cons_append] at hrecord
    have hchan : t = s.chan := List.singleton_inj.mp (List.append_inj_right' hrecord rfl)
    have htold := hfollows.told
    simp only [hdue, hlocked, hqueued, hphase, hmissed, hframes, reduceCtorEq, Bool.false_eq_true,
      lt_irrefl, false_or, List.nil_eq, List.reverse_eq_nil_iff, or_false] at htold
    obtain ⟨earlier, hshown⟩ := List.getLast?_eq_some_iff.mp htold
    refine ⟨earlier.foldl (fun screen t => uiUpdate t screen) uiBuild, ?_⟩
    rw [hfollows.screen, hshown, List.foldl_append, hchan]
    rfl

/-- The frame of a sensor that is missing at boot, and then a read that comes in time. -/
def firstFault : List Step := [.write, .notify, .start true, .wait, .read true]

theorem display_catches_up_fault :
    let s := (bench .stock).run (.boot ⟨true, true, false, 0, 0, 0, 0⟩ : Bench ℚ) firstFault
    s.CaughtUp ∧ ∀ t ∈ s.world.frames.head?, ∃ before, s.screen = uiUpdate t before := by
  intro s
  have hcaught : s.CaughtUp := ⟨rfl, rfl, rfl, rfl, rfl⟩
  have hadmitted : (bench .stock).Admitted (.boot ⟨true, true, false, 0, 0, 0, 0⟩ : Bench ℚ)
      firstFault := ⟨⟨by decide, rfl⟩, rfl, rfl, ⟨rfl, by decide⟩, ⟨rfl, fun _ => rfl⟩, trivial⟩
  exact ⟨hcaught, (display_catches_up .stock _ hadmitted).2.2 hcaught⟩

end ReflowOven.DisplayScreen
