import ReflowOven.Appliance
import ReflowOven.CommandAcceptance
import ReflowOven.FrontPanel
import ReflowOven.GateDecision

/-!
# Stopping the oven over the network

The way of a Stop from the bytes of a request to the control thread. A well-formed command with
the token that asks for a stop is routed to `handle_cmd` and posted in the pass that receives
it, if the queue takes it; from then on it is on its way until it is handled.
-/

namespace ReflowOven.RemoteStop

open Appliance CommandQueryGrammar CommandAcceptance GateDecision HttpRequestGrammar Httpd
open FrontPanel (stopCmd handleCmd_stop)
open SerialisedCommands (CommandRequest)

variable {F : Type} {n : ℕ}

/-- A well-formed command that the token authorises. -/
structure Admissible (token : CString) (request : CommandRequest) : Prop where
  enabled : token.bytes ≠ []
  authorised : Authorises token.bytes request.entries
  short : Short request.entries

/-- The parts of the request line are cut out of the buffer as they were written. -/
theorem splitRequest_received (request : CommandRequest) {query : List UInt8}
    (hquery : request.query = some query) : ∃ method target q,
      splitRequest request.received = some (method, target, some q) ∧
        method.bytes = ascii "POST" ∧ target.bytes = cmdTarget ∧ q.bytes = query := by
  obtain ⟨body, hbody⟩ := request.received_bytes
  have htext : request.queryText = 0x3F :: query := by rw [CommandRequest.queryText, hquery]
  have hline : ∃ rest, request.received.bytes =
      ascii "POST" ++ 0x20 :: (cmdTarget ++ 0x3F :: query ++ 0x20 :: rest) := by
    refine ⟨ascii "HTTP/1.1" ++ (crlf ++ (request.header ++ (crlf ++ body))), ?_⟩
    rw [hbody, CommandRequest.requestLine, htext]
    simp only [List.append_assoc, List.cons_append]
  obtain ⟨rest, hrest⟩ := hline
  have hspace : (0x20 : UInt8) ∉ query := fun hmem =>
    (request.queryText_bytes _ (htext ▸ List.mem_cons_of_mem _ hmem)).2 rfl
  exact splitRequest_post hrest hspace

theorem serveRoute_text {token : CString} {request : CommandRequest}
    (h : Admissible token request) {query : List UInt8} (hquery : request.query = some query) :
    ∃ q, serveRoute token request.text = .cmd (some q) ∧ q.bytes = query := by
  obtain ⟨method, target, q, hsplit, hmethod, htarget, hq⟩ := splitRequest_received request hquery
  have hgate : reflowGateCheck (some request.received) (some token) = .allow := by
    rw [reflowGateCheck_received request h.enabled]
    exact gateVerdict_allow_iff.mpr ⟨h.authorised, h.short⟩
  refine ⟨q, ?_, hq⟩
  have hreceived : CString.ofBuffer request.text = request.received := rfl
  simp only [serveRoute, hreceived, hsplit]
  rw [if_neg (not_not.mpr hgate), if_neg (by rw [hmethod]; decide), if_pos ⟨hmethod, htarget⟩]

/-- A query that asks for a stop is posted as one, accepted or not. -/
theorem reflowCmdParse_asksStop {q : CString} (h : AsksStop (segments q.bytes)) :
    ∃ res, reflowCmdParse (some q) ⟨0, 0⟩ = (res, stopCmd) ∧ res ≠ .reject := by
  obtain ⟨c, hacc, he⟩ | ⟨-, ⟨-, he⟩ | ⟨hnone, -⟩⟩ := reflowCmdParse_cases q ⟨0, 0⟩
  · exact ⟨.ok, by rw [he, stop_of_accepts (notMem_segments q.noNul) hacc h]; rfl, by decide⟩
  · exact ⟨.rejectStop, he, by decide⟩
  · exact absurd h hnone

section Pass

variable {cfg : NetConfig} {fd : Fd}

theorem handleCmd_stops (s : Server n) {q : CString} (h : AsksStop (segments q.bytes)) :
    (Httpd.handleCmd cfg fd (some q) true s).2.posted = s.posted ++ [stopCmd] := by
  obtain ⟨res, hparse, hres⟩ := reflowCmdParse_asksStop h
  simp only [Httpd.handleCmd, hparse, if_neg hres, Bool.not_true, Bool.false_eq_true, if_false]
  split_ifs <;> exact sendResponse_posted cfg fd _ _ _ _

variable (input : PassInput n) {i : Fin n}

theorem requestSlot_stops {fds : List Pollfd} {s : Server n} (hfd : (s.clients i).fd = some fd)
    (hsse : (s.clients i).sse = false) (hread : readable fds fd = true) {q : CString}
    (hroute : serveRoute cfg.token (input.recv i) = .cmd (some q))
    (hstop : AsksStop (segments q.bytes)) (htakes : input.post i = true) :
    (requestSlot cfg input fds s i).posted = s.posted ++ [stopCmd] := by
  have hne : input.recv i ≠ [] := by
    intro hnil
    rw [hnil] at hroute
    cases hroute
  have hserve : serve cfg input i fd s =
      (false, (Httpd.handleCmd cfg fd (some q) true s).2) := by
    simp only [serve, if_neg hne, hroute, htakes]
  simp only [requestSlot, hfd, hread, hsse, hserve, Bool.not_true, Bool.not_false,
    Bool.false_eq_true, if_false, if_true]
  rw [clientClose_posted, handleCmd_stops s hstop]

/-- The turn of another slot leaves this one alone. -/
theorem requestSlot_of_ne (fds : List Pollfd) (s : Server n) {j : Fin n} (hj : i ≠ j) :
    (requestSlot cfg input fds s j).clients i = s.clients i := by
  unfold requestSlot
  split
  · rfl
  next fd hfd =>
    have hserve := (serve_clients cfg input j fd s).1 i hj
    dsimp only
    split_ifs
    · rfl
    · exact clientClose_of_ne s hj
    · exact (clientClose_of_ne _ hj).trans hserve
    · exact (setClient_of_ne _ hj _).trans hserve

theorem foldl_requestSlot_of_notMem (fds : List Pollfd) {slots : List (Fin n)} (hi : i ∉ slots)
    (s : Server n) : (slots.foldl (requestSlot cfg input fds) s).clients i = s.clients i := by
  induction slots generalizing s with
  | nil => rfl
  | cons j slots ih =>
    obtain ⟨hj, hslots⟩ := List.ne_and_not_mem_of_not_mem_cons hi
    rw [List.foldl_cons, ih hslots, requestSlot_of_ne input fds s hj]

/-- An open slot keeps its connection when another one is accepted. -/
theorem acceptPhase_of_open (listener : Revents) {s : Server n}
    (hfd : (s.clients i).fd = some fd) :
    (acceptPhase cfg input listener s).clients i = s.clients i := by
  simp only [acceptPhase, acceptClient]
  split_ifs
  · split
    · rfl
    · split
      · rfl
      · next j hj =>
        have hfree := freeSlot_eq_some hj
        have hne : i ≠ j := by
          rintro rfl
          exact absurd (hfd.symm.trans hfree) (by simp)
        exact setClient_of_ne _ hne _
  · rfl

theorem pass_stops {s : Server n} {revents : ℕ → Revents} (hpoll : input.poll = some revents)
    (hfd : (s.clients i).fd = some fd) (hsse : (s.clients i).sse = false)
    (hread : readable (pollfds s revents) fd = true) {q : CString}
    (hroute : serveRoute cfg.token (input.recv i) = .cmd (some q))
    (hstop : AsksStop (segments q.bytes)) (htakes : input.post i = true) :
    stopCmd ∈ (pass cfg s input).posted.drop s.posted.length := by
  set fds := pollfds s revents
  set s₀ := acceptPhase cfg input (revents 0)
    { s with delays := input.delays, sends := input.sends } with hs₀
  have hopen : s₀.clients i = s.clients i := acceptPhase_of_open input _ hfd
  have hstart : s₀.posted = s.posted := acceptPhase_posted cfg _ input _
  obtain ⟨before, after, hslots, hbefore⟩ := List.eq_append_cons_of_mem (List.mem_finRange i)
  have hturns := Posts.foldl (fun t j => requestSlot_posts cfg t input fds j)
  obtain ⟨early, hearly, -⟩ := hturns before s₀
  have hturn : (before.foldl (requestSlot cfg input fds) s₀).clients i = s₀.clients i :=
    foldl_requestSlot_of_notMem input fds hbefore s₀
  set s₁ := before.foldl (requestSlot cfg input fds) s₀
  have hposts : (requestSlot cfg input fds s₁ i).posted = s₁.posted ++ [stopCmd] := by
    have hclient : s₁.clients i = s.clients i := hturn.trans hopen
    exact requestSlot_stops input (by rw [hclient, hfd]) (by rw [hclient, hsse]) hread hroute
      hstop htakes
  obtain ⟨late, hlate, -⟩ := hturns after (requestSlot cfg input fds s₁ i)
  have hpass : (pass cfg s input).posted =
      s.posted ++ (early.map Order.cmd ++ stopCmd :: late.map Order.cmd) := by
    calc (pass cfg s input).posted
        = ((List.finRange n).foldl (requestSlot cfg input fds) s₀).posted := by
          simp only [Httpd.pass, hpoll]
          rw [pushPhase_posted, reclaimPhase_posted]
          rfl
      _ = s₀.posted ++ early.map Order.cmd ++ [stopCmd] ++ late.map Order.cmd := by
          rw [hslots, List.foldl_append, List.foldl_cons, hlate, hposts, hearly]
      _ = s.posted ++ (early.map Order.cmd ++ stopCmd :: late.map Order.cmd) := by
          rw [hstart]
          simp
  rw [hpass, List.drop_left]
  exact List.mem_append_right _ List.mem_cons_self

end Pass

section Runs

variable [CFloat F] {cfg : CoreConfig} {net : NetConfig} {a : Networked F net.maxClients}

/-- A Stop is on its way to the control thread. -/
def Pending (a : Networked F n) : Prop := stopCmd ∈ a.outbox ++ a.queue

/-- A Stop stays on its way until it is handled. -/
theorem Pending.step (h : Pending a) (input : Input net.maxClients) :
    Pending ((appliance cfg net).step a input) ∨
      ((appliance cfg net).step a input).world.ctx.state ≠ .running := by
  cases input with
  | iterate it locks => exact .inl h
  | serve time locks =>
    simp only [appliance]
    split
    · exact .inl h
    · next cmd queue hqueue =>
      by_cases hcmd : cmd = stopCmd
      · subst hcmd
        exact .inr (handleCmd_stop time a.world)
      · left
        simp only [Pending, hqueue, List.mem_append, List.mem_cons] at h
        simp only [Pending, Networked.goTo, List.mem_append]
        exact h.imp_right fun hmem => hmem.resolve_left (Ne.symm hcmd)
  | post cmd =>
    left
    have hqueue := (BoundedQueue.prefix_put cmdQueueLen cmd a.queue).subset
    simp only [Pending, List.mem_append] at h ⊢
    exact h.imp_right fun hmem => hqueue hmem
  | pass input =>
    left
    simp only [Pending, appliance, List.append_assoc, List.mem_append] at h ⊢
    exact h.imp_right .inr
  | deliver =>
    left
    simp only [appliance]
    split
    · exact h
    · next cmd outbox hout =>
      simp only [Pending, hout, List.mem_append, List.mem_cons, List.not_mem_nil,
        or_false] at h ⊢
      tauto

theorem Pending.run (h : Pending a) (inputs : List (Input net.maxClients)) :
    (∃ t ∈ (appliance cfg net).visited a inputs, t.world.ctx.state ≠ .running) ∨
      Pending ((appliance cfg net).run a inputs) := by
  induction inputs generalizing a with
  | nil => exact .inr h
  | cons input inputs ih =>
    obtain hnext | hstopped : Pending ((appliance cfg net).step a input) ∨
        ((appliance cfg net).step a input).world.ctx.state ≠ .running := h.step input
    · obtain ⟨t, ht, hstate⟩ | hlater := ih hnext
      · exact .inl ⟨t, List.mem_cons_of_mem _ ht, hstate⟩
      · exact .inr hlater
    · exact .inl ⟨_, List.mem_cons_of_mem _ (Machine.mem_visited_self _ _), hstopped⟩

/-- The Stop button works over the network: when a pass receives a well-formed command that the
token authorises and that asks for a stop, and the queue takes it, the oven stops running
before that stop is gone, whatever else the threads do. -/
theorem remote_stop_stops (cfg : CoreConfig) (net : NetConfig) {a : Networked F net.maxClients}
    {input : PassInput net.maxClients} {revents : ℕ → Revents} (hpoll : input.poll = some revents)
    {i : Fin net.maxClients} {fd : Fd} (hfd : (a.server.clients i).fd = some fd)
    (hsse : (a.server.clients i).sse = false)
    (hread : readable (pollfds a.server revents) fd = true) {request : CommandRequest}
    (hrequest : Admissible net.token request) (hrecv : input.recv i = request.text)
    {query : List UInt8} (hquery : request.query = some query)
    (hstop : AsksStop (segments query)) (htakes : input.post i = true)
    (inputs : List (Input net.maxClients)) :
    let b := (appliance cfg net).step a (.pass input)
    (∃ t ∈ (appliance cfg net).visited b inputs, t.world.ctx.state ≠ .running) ∨
      stopCmd ∈ ((appliance cfg net).run b inputs).outbox ++
        ((appliance cfg net).run b inputs).queue := by
  intro b
  obtain ⟨q, hroute, rfl⟩ := serveRoute_text hrequest hquery
  rw [← hrecv] at hroute
  have hposted := pass_stops input hpoll hfd hsse hread hroute hstop htakes
  have hpending : Pending b :=
    List.mem_append_left _ (List.mem_append_right _ hposted)
  exact hpending.run inputs

end Runs

def abcSite : NetConfig := { siteConfig with token := abc }

def stopButton : CommandRequest := stop [hostField, tokenField, originField]

theorem stopButton_admissible : Admissible abcSite.token stopButton := by
  have horigins : valuesNamed "origin" stopButton.entries = [ascii "http://10.0.0.1"] := by decide
  refine ⟨by decide, ⟨by decide, ⟨ascii "10.0.0.1", by decide, isIpv4Authority_iff.mp (by decide),
    fun origin horigin => ?_⟩, by decide⟩, by unfold Short; decide⟩
  rw [horigins, List.mem_singleton] at horigin
  exact ⟨ascii "http://", horigin, .inl (by decide)⟩

/-- The visitor of slot 0 presses Stop. -/
def pressesStop : PassInput 4 :=
  { oneVisitor with
    accept := none
    recv := fun _ => stopButton.text
    post := fun _ => true
    delays := []
    sends := [⟨.sent 200, 1⟩] }

/-- An oven that was started at its panel, with a visitor. -/
def attended : Networked ℚ 4 := (appliance .stock abcSite).run switchedOn
  [.iterate (roomIteration 300) fun _ => true, .post ⟨ReflowCmdId.start.toU8, 0⟩,
    .serve 400 fun _ => true, .pass oneVisitor]

theorem remote_stop_stops_attended :
    let b := (appliance .stock abcSite).step attended (.pass pressesStop)
    attended.world.ctx.state = .running ∧
      ((∃ t ∈ (appliance .stock abcSite).visited b [.deliver, .serve 500 fun _ => true],
          t.world.ctx.state ≠ .running) ∨
        stopCmd ∈ ((appliance .stock abcSite).run b [.deliver, .serve 500 fun _ => true]).outbox ++
          ((appliance .stock abcSite).run b [.deliver, .serve 500 fun _ => true]).queue) := by
  have hstop : AsksStop (segments (ascii "id=stop")) :=
    ⟨ascii "id=stop", by decide, ascii "id", ascii "stop", by decide⟩
  have hopen : (attended.server.clients 0).fd = some 7 := by decide +kernel
  exact ⟨by decide +kernel, remote_stop_stops .stock abcSite rfl hopen (by decide +kernel)
    (by decide +kernel) stopButton_admissible rfl rfl hstop rfl _⟩

end ReflowOven.RemoteStop
