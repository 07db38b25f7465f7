import ReflowOven.FaultLatch
import ReflowOven.PublishedFrames
import ReflowOven.SelectionPanel

/-!
# The encoder, the command queue and the oven

Detents post `SELECT_PROFILE` into the queue of the control thread, the thread drains the
queue one command at a time, and every frame it publishes reaches the listener of the
panel before the next step. The encoder is the only source of commands, so the oven never
runs. `turned` sums the accepted detents and is read by no step.

The panel stops waiting for its last command after two disagreeing frames, or at a frame
that happens to name it, also while commands are still queued. A detent accepted then
counts from a profile the queue is about to leave.
-/

namespace ReflowOven.EncoderSelection

variable {F : Type}

structure Station (F : Type) where
  panel : Panel
  queue : List ReflowCmd
  world : World F
  origin : ℕ
  turned : ℤ

inductive Event
  | detent (steps : Int32)
  | drain (time : ℤ)
  | iterate (it : Iteration)

/-- The thread moves to `w` and the panel hears what it published on the way. -/
def hear (w : World F) (s : Station F) : Station F :=
  { s with world := w, panel := (newFrames s.world w).foldl telemetryCb s.panel }

def Accepts (s : Station F) : Prop :=
  s.panel.lastState ≠ some ReflowState.running.toU8 ∧ s.queue.length < cmdQueueLen

instance (s : Station F) : Decidable (Accepts s) := by
  simp only [Accepts]
  infer_instance

def onRotate (steps : Int32) (s : Station F) : Station F :=
  if s.panel.lastState = some ReflowState.running.toU8 then s
  else match reflowSelNext s.panel.sel steps reflowProfileCount with
    | none => s
    | some next =>
      let r := reflowCmdPost ⟨ReflowCmdId.selectProfile.toU8, next⟩ s.queue
      if r.1 then
        { s with
          queue := r.2
          panel := { s.panel with sel := reflowSelCommit next s.panel.sel }
          turned := s.turned + steps.toInt }
      else s

/-- The profile the oven has once the queue is drained. -/
def target (s : Station F) : ℤ :=
  (s.queue.getLast?.map ReflowCmd.arg).getD s.world.ctx.profileIdx

/-- A panel that waits shows the last selection, one that does not shows the oven's. -/
structure Tracks (idx : ℕ) (target : ℤ) (sel : ReflowSel) : Prop where
  believing : sel.pending = false → sel.index = idx
  waiting : sel.pending = true → sel.index = sel.want ∧ (sel.want : ℤ) = target

theorem Tracks.telemetry {idx : ℕ} {target : ℤ} {sel : ReflowSel} (h : Tracks idx target sel)
    (idx' : ℕ) : Tracks idx' target (reflowSelTelemetry idx' sel) := by
  obtain ⟨hp, hidx⟩ | ⟨hp, -, hp', hidx, hwant⟩ := reflowSelTelemetry_cases idx' sel
  · exact ⟨fun _ => hidx, fun ht => absurd (hp.symm.trans ht) nofun⟩
  · refine ⟨fun hf => absurd (hp'.symm.trans hf) nofun, fun _ => ?_⟩
    rw [hidx, hwant]
    exact h.waiting hp

theorem Tracks.foldl {idx : ℕ} {target : ℤ} {frames : List ReflowTelemetry}
    (hall : ∀ f ∈ frames, f.profileIdx.toNat = idx) {p : Panel} (h : Tracks idx target p.sel) :
    Tracks idx target (frames.foldl telemetryCb p).sel := by
  induction frames generalizing p with
  | nil => exact h
  | cons f frames ih =>
    obtain ⟨hf, hrest⟩ := List.forall_mem_cons.mp hall
    apply ih hrest
    have hnext := h.telemetry f.profileIdx.toNat
    rw [hf] at hnext
    simpa [telemetryCb, hf] using hnext

/-- What every run keeps, whatever the detents are. -/
structure Following (s : Station F) : Prop where
  coherent : Coherent s.world
  not_running : s.world.ctx.state ≠ .running
  selects : ∀ cmd ∈ s.queue, ∃ i < reflowProfileCount,
    cmd = ⟨ReflowCmdId.selectProfile.toU8, (i : ℤ)⟩
  tracks : Tracks s.world.ctx.profileIdx (target s) s.panel.sel

theorem Following.profileIdx_lt {s : Station F} (h : Following s) :
    s.world.ctx.profileIdx < reflowProfileCount := by
  obtain ⟨prof, -, hget⟩ := h.coherent.profile_selected
  rw [← reflowProfileGet_isSome_iff, hget]
  rfl

theorem Following.index_lt {s : Station F} (h : Following s) :
    s.panel.sel.index < reflowProfileCount := by
  have hidx := h.profileIdx_lt
  cases hp : s.panel.sel.pending with
  | false => rw [h.tracks.believing hp]; exact hidx
  | true =>
    obtain ⟨hindex, hwant⟩ := h.tracks.waiting hp
    rw [hindex]
    cases hlast : s.queue.getLast? with
    | none =>
      simp only [target, hlast, Option.map_none, Option.getD_none] at hwant
      omega
    | some cmd =>
      obtain ⟨i, hi, rfl⟩ := h.selects cmd (List.mem_of_getLast? hlast)
      simp only [target, hlast, Option.map_some, Option.getD_some] at hwant
      omega

/-- An accepted detent queues the index after the one the panel shows. -/
theorem onRotate_cases {s : Station F} (h : Following s) (steps : Int32) :
    ¬Accepts s ∧ onRotate steps s = s ∨ Accepts s ∧ ∃ next : ℕ, next < reflowProfileCount ∧
      (next : ℤ) = (s.panel.sel.index + steps.toInt) % reflowProfileCount ∧
      onRotate steps s = { s with
        queue := s.queue ++ [⟨ReflowCmdId.selectProfile.toU8, next⟩]
        panel := { s.panel with sel := ⟨next, next, true, 0⟩ }
        turned := s.turned + steps.toInt } := by
  have hlt : s.panel.sel.index < 2 ^ 8 := h.index_lt.trans (by decide)
  have hcount : 0 < reflowProfileCount := by decide
  obtain ⟨next, hnext, hbound, hmod⟩ := reflowSelNext_eq hlt hcount steps
  simp only [onRotate]
  split
  · next hstate => exact .inl ⟨fun hacc => hacc.1 hstate, rfl⟩
  · next hstate =>
    rw [hnext]
    by_cases hroom : s.queue.length < cmdQueueLen
    · simp only [reflowCmdPost, BoundedQueue.put_of_room hroom, if_true]
      exact .inr ⟨⟨hstate, hroom⟩, next, hbound, hmod, rfl⟩
    · simp only [reflowCmdPost, BoundedQueue.put_of_full hroom, Bool.false_eq_true, if_false]
      exact .inl ⟨fun hacc => hroom hacc.2, trivial⟩

theorem Following.onRotate {s : Station F} (h : Following s) (steps : Int32) :
    Following (onRotate steps s) := by
  obtain ⟨-, he⟩ | ⟨-, next, hbound, -, he⟩ := onRotate_cases h steps
  · rw [he]
    exact h
  · rw [he]
    refine ⟨h.coherent, h.not_running, ?_, nofun, fun _ => ⟨rfl, ?_⟩⟩
    · intro cmd hmem
      rcases List.mem_append.mp hmem with hmem | hmem
      · exact h.selects cmd hmem
      · exact ⟨next, hbound, List.mem_singleton.mp hmem⟩
    · simp [target]

variable [CFloat F]

def drain (time : ℤ) (s : Station F) : Station F :=
  match s.queue with
  | [] => s
  | cmd :: queue => hear (handleCmd time cmd s.world) { s with queue := queue }

/-- Panel and oven agree, and nothing is queued or running. -/
structure Agreeing (cfg : CoreConfig) (s : Station F) : Prop where
  reachable : (controllerThread cfg).Reachable s.world
  not_running : s.world.ctx.state ≠ .running
  queue : s.queue = []
  index : s.panel.sel.index = s.world.ctx.profileIdx
  want : s.panel.sel.pending = true → s.panel.sel.want = s.world.ctx.profileIdx
  origin : s.origin = s.world.ctx.profileIdx
  turned : s.turned = 0

def station (cfg : CoreConfig) : Machine (Station F) Event where
  init := Agreeing cfg
  admits _ _ := True
  step
    | s, .detent steps => onRotate steps s
    | s, .drain time => drain time s
    | s, .iterate it => hear (iterate cfg it s.world) s

/-- With nothing queued the oven has counted every accepted detent. -/
def Counted (s : Station F) : Prop :=
  s.queue = [] → (s.world.ctx.profileIdx : ℤ) = (s.origin + s.turned) % reflowProfileCount

/-- A detent counts from the last selection: the panel still waits for it, or the oven
has it. -/
def Steady (s : Station F) : Event → Prop
  | .detent _ => Accepts s → s.panel.sel.pending = false → target s = s.world.ctx.profileIdx
  | .drain _ | .iterate _ => True

/-- A drained selection becomes the oven's, is published once, and leaves the last
selection what it was. -/
theorem drain_cases {s : Station F} (h : Following s) (time : ℤ) :
    s.queue = [] ∧ drain time s = s ∨ ∃ (cmd : ReflowCmd) (queue : List ReflowCmd) (i : ℕ),
      s.queue = cmd :: queue ∧ i < reflowProfileCount ∧ cmd.arg = i ∧
      (drain time s).queue = queue ∧ (drain time s).origin = s.origin ∧
      (drain time s).turned = s.turned ∧ (drain time s).world.ctx.profileIdx = i ∧
      (drain time s).world.ctx.state = s.world.ctx.state ∧
      Coherent (drain time s).world ∧
      (drain time s).panel.sel = reflowSelTelemetry i s.panel.sel := by
  cases hq : s.queue with
  | nil =>
    left
    simp [drain, hq]
  | cons cmd queue =>
    right
    obtain ⟨i, hi, rfl⟩ := h.selects cmd (by simp [hq])
    have hi8 : i < 2 ^ 8 := hi.trans (by decide)
    have harg : u8OfInt (i : ℤ) = i := u8OfInt_natCast hi8
    obtain ⟨prof, hget⟩ := Option.isSome_iff_exists.mp ((reflowProfileGet_isSome_iff i).mpr hi)
    have hcmd : handleCmd time ⟨ReflowCmdId.selectProfile.toU8, i⟩ s.world =
        publish time { s.world with ctx := { s.world.ctx with
          profileIdx := i, prof := some prof } } := by
      simp [handleCmd, h.not_running, harg, hget]
    have hcoh := h.coherent.handleCmd time ⟨ReflowCmdId.selectProfile.toU8, i⟩
    have hnew : newFrames s.world (handleCmd time ⟨ReflowCmdId.selectProfile.toU8, i⟩ s.world) =
        [telemetryOf time { s.world.ctx with profileIdx := i, prof := some prof }] := by
      rw [hcmd]
      exact newFrames_eq [_] rfl
    have hdrain : drain time s = hear
        (handleCmd time ⟨ReflowCmdId.selectProfile.toU8, i⟩ s.world) { s with queue := queue } := by
      simp [drain, hq]
    refine ⟨_, queue, i, rfl, hi, rfl, ?_⟩
    rw [hdrain]
    refine ⟨rfl, rfl, rfl, ?_, ?_, hcoh, ?_⟩
    · simp [hear, hcmd]
    · simp [hear, hcmd]
    · have hmod : i % 256 = i := Nat.mod_eq_of_lt hi8
      simp [hear, hnew, telemetryCb, telemetryOf, hmod]

theorem target_of_drain {s : Station F} (h : Following s) (time : ℤ) :
    target (drain time s) = target s := by
  obtain ⟨-, he⟩ | ⟨cmd, queue, i, hq, -, harg, hqueue, -, -, hidx, -⟩ := drain_cases h time
  · rw [he]
  · cases queue with
    | nil => simp [target, hqueue, hidx, hq, harg]
    | cons last queue => simp [target, hqueue, hq, List.getLast?_cons]

theorem Following.drain {s : Station F} (h : Following s) (time : ℤ) :
    Following (drain time s) := by
  have htarget := target_of_drain h time
  obtain ⟨-, he⟩ | ⟨cmd, queue, i, hq, -, -, hqueue, -, -, hidx, hstate, hcoh, hsel⟩ :=
    drain_cases h time
  · rw [he]
    exact h
  · refine ⟨hcoh, hstate ▸ h.not_running, ?_, ?_⟩
    · intro c hc
      rw [hqueue] at hc
      exact h.selects c (hq ▸ List.mem_cons_of_mem _ hc)
    · rw [hidx, htarget, hsel]
      exact h.tracks.telemetry i

theorem Following.iterate {s : Station F} (h : Following s) (cfg : CoreConfig) (it : Iteration) :
    Following (hear (iterate cfg it s.world) s) := by
  obtain ⟨hkept, new, hnew, hall⟩ := iterate_announces cfg it s.world
  have hlt : s.world.ctx.profileIdx < 2 ^ 8 := h.profileIdx_lt.trans (by decide)
  have htarget : target (hear (ReflowOven.iterate cfg it s.world) s) = target s := by
    simp [target, hear, hkept]
  refine ⟨h.coherent.iterate cfg it, (FaultLatch.iterate_quiet cfg it s.world).no_start
    h.not_running, h.selects, ?_⟩
  rw [htarget]
  show Tracks (ReflowOven.iterate cfg it s.world).ctx.profileIdx _
    ((newFrames s.world (ReflowOven.iterate cfg it s.world)).foldl telemetryCb s.panel).sel
  rw [hkept, newFrames_eq _ hnew]
  apply h.tracks.foldl
  intro f hf
  rw [hall f (List.mem_reverse.mp hf)]
  exact UInt8.toNat_ofNat_of_lt' hlt

theorem Following.step {cfg : CoreConfig} {s : Station F} (h : Following s) (e : Event) :
    Following ((station cfg).step s e) := by
  cases e with
  | detent steps => exact h.onRotate steps
  | drain time => exact h.drain time
  | iterate it => exact h.iterate cfg it

theorem Agreeing.following {cfg : CoreConfig} {s : Station F} (h : Agreeing cfg s) :
    Following s where
  coherent := coherent_of_reachable h.reachable
  not_running := h.not_running
  selects := by simp [h.queue]
  tracks :=
    { believing := fun _ => h.index
      waiting := fun hp => by
        simp [target, h.queue, h.index, h.want hp] }

/-- The last selection is the origin plus every accepted detent. -/
def Balanced (s : Station F) : Prop :=
  target s = (s.origin + s.turned) % reflowProfileCount

omit [CFloat F] in
theorem Balanced.counted {s : Station F} (h : Balanced s) : Counted s := by
  intro hq
  rw [← h]
  simp [target, hq]

theorem Agreeing.balanced {cfg : CoreConfig} {s : Station F} (h : Agreeing cfg s) :
    Balanced s := by
  have hlt := h.following.profileIdx_lt
  simp only [Balanced, target, h.queue, h.origin, h.turned, List.getLast?_nil, Option.map_none,
    Option.getD_none, add_zero]
  exact (Int.emod_eq_of_lt (by omega) (by exact_mod_cast hlt)).symm

theorem balanced_drain {s : Station F} (h : Following s) (time : ℤ) :
    Balanced (drain time s) ↔ Balanced s := by
  have htarget := target_of_drain h time
  obtain ⟨-, he⟩ | ⟨_, _, _, -, -, -, -, horigin, hturned, -⟩ := drain_cases h time
  · rw [he]
  · simp only [Balanced, htarget, horigin, hturned]

/-- Only a detent can break the balance, and a detent keeps it exactly when it is steady:
otherwise the index it counts from differs from the last selection. -/
theorem balanced_step_iff {cfg : CoreConfig} {s : Station F} (h : Following s)
    (hb : Balanced s) (e : Event) : Balanced ((station cfg).step s e) ↔ Steady s e := by
  cases e with
  | drain time => exact iff_of_true ((balanced_drain h time).mpr hb) trivial
  | iterate it =>
    have hkept := (iterate_announces cfg it s.world).kept
    have htarget : target (hear (iterate cfg it s.world) s) = target s := by
      simp [target, hear, hkept]
    exact iff_of_true (htarget.trans hb) trivial
  | detent steps =>
    have hindex := h.index_lt
    obtain ⟨hacc, he⟩ | ⟨hacc, next, hbound, hmod, he⟩ := onRotate_cases h steps
    · refine iff_of_true ?_ fun ha => absurd ha hacc
      show Balanced (onRotate steps s)
      rwa [he]
    · have htarget : target (onRotate steps s) = next := by simp [he, target]
      have hbalance : Balanced ((station cfg).step s (.detent steps)) ↔
          target s = s.panel.sel.index := by
        have hstep : (station cfg).step s (.detent steps) = onRotate steps s := rfl
        rw [hstep, Balanced, htarget, hmod, he]
        have hb' : target s = (s.origin + s.turned) % reflowProfileCount := hb
        rw [← add_assoc, ← Int.emod_add_emod (s.origin + s.turned), ← hb']
        rw [reflowProfileCount_eq] at hindex hb' ⊢
        omega
      rw [hbalance]
      cases hp : s.panel.sel.pending with
      | false =>
        rw [h.tracks.believing hp]
        exact ⟨fun ht _ _ => ht, fun hs => hs hacc hp⟩
      | true =>
        obtain ⟨hiw, hwt⟩ := h.tracks.waiting hp
        refine iff_of_true (by rw [hiw, hwt]) fun _ hf => ?_
        exact absurd (hp.symm.trans hf) nofun

theorem following_drains (cfg : CoreConfig) {s : Station F} (h : Following s) (times : List ℤ) :
    Following ((station cfg).run s (times.map .drain)) ∧
      (Balanced ((station cfg).run s (times.map .drain)) ↔ Balanced s) := by
  induction times generalizing s with
  | nil => exact ⟨h, Iff.rfl⟩
  | cons time times ih =>
    obtain ⟨hf, hb⟩ := ih (h.drain time)
    exact ⟨hf, hb.trans (balanced_drain h time)⟩

theorem exists_drained (cfg : CoreConfig) {s : Station F} (h : Following s) :
    ∃ times : List ℤ, ((station cfg).run s (times.map .drain)).queue = [] := by
  induction hn : s.queue.length generalizing s with
  | zero => exact ⟨[], List.length_eq_zero_iff.mp hn⟩
  | succ n ih =>
    obtain ⟨hq, -⟩ | ⟨cmd, queue, i, hq, -, -, hqueue, -⟩ := drain_cases h 0
    · simp [hq] at hn
    · have hlen : (drain 0 s).queue.length = n := by
        simp only [hq, List.length_cons, Nat.add_right_cancel_iff] at hn
        rw [hqueue, hn]
      obtain ⟨times, htimes⟩ := ih (h.drain 0) hlen
      exact ⟨0 :: times, htimes⟩

/-- Balance is what the claim on an empty queue needs, now and after any draining. -/
theorem balanced_iff_counted {cfg : CoreConfig} {s : Station F} (h : Following s) :
    Balanced s ↔ ∀ times : List ℤ, Counted ((station cfg).run s (times.map .drain)) := by
  constructor
  · intro hb times
    exact ((following_drains cfg h times).2.mpr hb).counted
  · intro hall
    obtain ⟨times, hempty⟩ := exists_drained cfg h
    have hcount := hall times hempty
    apply (following_drains cfg h times).2.mp
    simp only [Balanced, target, hempty, List.getLast?_nil, Option.map_none, Option.getD_none]
    exact hcount

/-- In a run from agreement, the oven has counted every accepted detent in each state
passed, and still has once what is queued there is drained, if and only if every detent
of the run is steady. -/
theorem detents_counted_iff_steady (cfg : CoreConfig) {s : Station F} (h : Agreeing cfg s)
    (events : List Event) :
    (∀ t ∈ (station cfg).visited s events, ∀ times : List ℤ,
      Counted ((station cfg).run t (times.map .drain))) ↔
    ((station cfg).restrict Steady).Admitted s events := by
  have hadmitted := Machine.admitted_of_forall (M := station cfg) (fun _ _ => trivial) s events
  have hfollowing := Machine.visited_invariant (M := station cfg) (I := Following)
    (fun _ e hf _ => hf.step e) h.following hadmitted
  rw [← Machine.forall_visited_iff (M := station cfg) (I := Following) (P := Balanced)
    (c := Steady) (fun _ e hf _ => hf.step e) (fun _ e hf hb _ => balanced_step_iff hf hb e)
    h.following h.balanced hadmitted]
  exact forall₂_congr fun t ht => (balanced_iff_counted (hfollowing t ht)).symm

/-- A healthy oven and its panel after boot. -/
def bench : Station ℚ where
  panel := ⟨reflowSelInit, none⟩
  queue := []
  world := bootController ⟨true, true, true, 0, 0, 0, 0⟩
  origin := 0
  turned := 0

theorem agreeing_bench : Agreeing {} bench where
  reachable := .start ⟨⟨true, true, true, 0, 0, 0, 0⟩, rfl⟩
  not_running := nofun
  queue := rfl
  index := rfl
  want := nofun
  origin := rfl
  turned := rfl

def slowTurns : List Event := [.detent 1, .drain 5, .detent (-2), .drain 9]

theorem detents_counted_iff_steady_bench :
    ((station {}).restrict Steady).Admitted bench slowTurns ∧
      ∀ t ∈ (station {}).visited bench slowTurns, ∀ times : List ℤ,
        Counted ((station {}).run t (times.map .drain)) := by
  have hsteady : ((station {}).restrict Steady).Admitted bench slowTurns := by
    refine ⟨⟨trivial, fun _ _ => rfl⟩, ⟨trivial, trivial⟩, ⟨trivial, fun _ _ => ?_⟩,
      ⟨trivial, trivial⟩, trivial⟩
    decide +kernel
  exact ⟨hsteady, (detents_counted_iff_steady {} agreeing_bench _).mpr hsteady⟩

/-- Three quick detents, two of their commands drained, and a fourth detent: the panel has
given up on profile 3, counts from 2, and queues profile 3 once more. -/
theorem fourth_detent_is_lost : ¬∀ (s : Station ℚ), Agreeing {} s → ∀ events : List Event,
    Counted ((station {}).run s events) := by
  intro h
  have hcount := h bench agreeing_bench
    [.detent 1, .detent 1, .detent 1, .drain 1, .drain 2, .detent 1, .drain 3, .drain 4]
  revert hcount
  simp only [Counted]
  decide +kernel

end ReflowOven.EncoderSelection
