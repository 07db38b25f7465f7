import ReflowOven.CommandAuthorisation
import ReflowOven.HttpServer

/-!
# What the web server posts

A pass of the server posts at most one command for each buffer it receives, in the order of
the slots, and only for a buffer whose request is authorised by the configured token. All
else that a pass does leaves the posts alone.
-/

namespace ReflowOven.Httpd

open HttpRequestGrammar GateSoundness CommandAuthorisation

variable {n : ℕ}

/-- The request of the buffer commands `cmd`, with the token. -/
structure Commands (token : CString) (buf : List UInt8) (cmd : ReflowCmd) : Prop where
  enabled : token.bytes ≠ []
  authorised : ∃ line lines fields, IsHead (CString.ofBuffer buf).bytes line lines ∧
    IsRequestLine line (ascii "POST") (ascii "/api/cmd") ∧ List.Forall₂ IsField lines fields ∧
      Authorises token.bytes fields
  parsed : ∃ query res, serveRoute token buf = .cmd query ∧
    reflowCmdParse query ⟨0, 0⟩ = (res, cmd) ∧ res ≠ .reject

theorem commands_of_route {token : CString} {buf : List UInt8} {query : Option CString}
    {res : ReflowCmdParse} {cmd : ReflowCmd} (h : serveRoute token buf = .cmd query)
    (hparse : reflowCmdParse query ⟨0, 0⟩ = (res, cmd)) (hres : res ≠ .reject) :
    Commands token buf cmd := by
  obtain ⟨hgate, method, target, hsplit, hmethod, htarget⟩ := eq_of_serveRoute_eq_cmd h
  obtain ⟨lineEnd, m, t, hline, hparts, hcmd⟩ := allow_cases hgate
  obtain ⟨rfl, rfl⟩ := gateRequestLine_eq hsplit htarget hline hparts
  obtain ⟨-, htoken, lines, fields, hhead, hfields, hauth⟩ := hcmd htarget
  refine ⟨htoken, ⟨_, lines, fields, hhead, ?_, hfields, hauth⟩, query, res, h, hparse, hres⟩
  rw [← hmethod, ← htarget]
  exact isRequestLine_of_gateRequestLine hparts

/-- A command, and the buffer whose request it is. -/
structure Order where
  buf : List UInt8
  cmd : ReflowCmd
  deriving DecidableEq

/-- From `s` to `s'` the posts grow by the commands of some of these buffers, in order. -/
def Posts (token : CString) (bufs : List (List UInt8)) (s s' : Server n) : Prop :=
  ∃ orders : List Order, s'.posted = s.posted ++ orders.map Order.cmd ∧
    (orders.map Order.buf).Sublist bufs ∧ ∀ order ∈ orders, Commands token order.buf order.cmd

section Posts

variable {token : CString} {bufs bufs' : List (List UInt8)} {s s' s'' : Server n}

theorem Posts.none (h : s'.posted = s.posted) : Posts token bufs s s' :=
  ⟨[], by simpa using h, List.nil_sublist _, nofun⟩

theorem Posts.trans (h : Posts token bufs s s') (h' : Posts token bufs' s' s'') :
    Posts token (bufs ++ bufs') s s'' := by
  obtain ⟨orders, hposted, hbufs, hall⟩ := h
  obtain ⟨orders', hposted', hbufs', hall'⟩ := h'
  refine ⟨orders ++ orders', ?_, ?_, List.forall_mem_append.mpr ⟨hall, hall'⟩⟩
  · rw [hposted', hposted, List.map_append, List.append_assoc]
  · rw [List.map_append]
    exact hbufs.append hbufs'

/-- A loop over the slots, each of which posts for its own buffer. -/
theorem Posts.foldl {turn : Server n → Fin n → Server n} {buf : Fin n → List UInt8}
    (hturn : ∀ s i, Posts token [buf i] s (turn s i)) (slots : List (Fin n)) (s : Server n) :
    Posts token (slots.map buf) s (slots.foldl turn s) := by
  induction slots generalizing s with
  | nil => exact .none rfl
  | cons i slots ih => exact (hturn s i).trans (ih _)

end Posts

section Turns

variable (cfg : NetConfig) (fd : Fd) (s : Server n)

theorem sendAll_posted (data : List UInt8) : (sendAll cfg fd data s).2.posted = s.posted := rfl

theorem sendResponse_posted (status ctype body : List UInt8) :
    (sendResponse cfg fd status ctype body s).2.posted = s.posted := by
  simp only [sendResponse]
  split_ifs <;> rfl

theorem sendProfiles_posted : (sendProfiles cfg fd s).2.posted = s.posted := by
  simp only [sendProfiles]
  split_ifs <;> exact sendResponse_posted cfg fd s _ _ _

theorem clientClose_posted (i : Fin n) : (clientClose s i).posted = s.posted := by
  simp only [clientClose]
  split <;> rfl

/-- A command is posted before it is answered. -/
theorem handleCmd_posts {buf : List UInt8} {query : Option CString}
    (h : serveRoute cfg.token buf = .cmd query) (queueTakes : Bool) :
    Posts cfg.token [buf] s (handleCmd cfg fd query queueTakes s).2 := by
  simp only [handleCmd]
  split_ifs with hreject htakes hstop
  · exact .none (sendResponse_posted cfg fd s _ _ _)
  · exact .none (sendResponse_posted cfg fd s _ _ _)
  all_goals
    refine ⟨[⟨buf, (reflowCmdParse query ⟨0, 0⟩).2⟩], ?_, List.Sublist.refl _, ?_⟩
    · rw [sendResponse_posted]
      rfl
    · exact List.forall_mem_singleton.mpr (commands_of_route h rfl hreject)

theorem serve_posts (input : PassInput n) (i : Fin n) :
    Posts cfg.token [input.recv i] s (serve cfg input i fd s).2 := by
  unfold serve
  split_ifs
  · exact .none rfl
  split
  · exact .none rfl
  · exact .none (sendResponse_posted cfg fd s _ _ _)
  · exact .none (sendResponse_posted cfg fd s _ _ _)
  · exact .none (sendProfiles_posted cfg fd s)
  · exact .none (sendResponse_posted cfg fd s _ _ _)
  · dsimp only
    split_ifs
    · exact .none rfl
    · exact .none rfl
  · next query hroute => exact handleCmd_posts cfg fd s hroute _
  · exact .none (sendResponse_posted cfg fd s _ _ _)

theorem requestSlot_posts (input : PassInput n) (fds : List Pollfd) (i : Fin n) :
    Posts cfg.token [input.recv i] s (requestSlot cfg input fds s i) := by
  unfold requestSlot
  split
  · exact .none rfl
  next fd hfd =>
    dsimp only
    split_ifs
    · exact .none rfl
    · exact .none (clientClose_posted s i)
    · obtain ⟨orders, hposted, hrest⟩ := serve_posts cfg fd s input i
      exact ⟨orders, (clientClose_posted _ i).trans hposted, hrest⟩
    · exact serve_posts cfg fd s input i

theorem acceptPhase_posted (input : PassInput n) (listener : Revents) :
    (acceptPhase cfg input listener s).posted = s.posted := by
  simp only [acceptPhase, acceptClient]
  split_ifs
  · split
    · rfl
    · split <;> rfl
  · rfl

theorem reclaimPhase_posted : (reclaimPhase s).posted = s.posted := by
  refine List.foldlRecOn (motive := fun t : Server n => t.posted = s.posted) (List.finRange n)
    reclaimSlot rfl fun t ht i _ => ?_
  simp only [reclaimSlot]
  split
  · exact ht
  · split_ifs
    · exact (clientClose_posted _ i).trans ht
    · exact ht

theorem pushSlot_posted (input : PassInput n) (i : Fin n) :
    (pushSlot cfg input s i).posted = s.posted := by
  have hpush (fd : Fd) : (pushEvent cfg fd (input.pushed i) s).2.posted = s.posted :=
    sendAll_posted cfg fd s _
  unfold pushSlot
  split
  · rfl
  next fd hfd =>
    dsimp only
    split_ifs
    · exact (clientClose_posted _ i).trans (hpush fd)
    · exact hpush fd
    · rfl

theorem pushPhase_posted (input : PassInput n) : (pushPhase cfg input s).posted = s.posted := by
  simp only [pushPhase]
  split_ifs
  · exact List.foldlRecOn (motive := fun t : Server n => t.posted = s.posted) (List.finRange n)
      (pushSlot cfg input) rfl fun t ht i _ => (pushSlot_posted cfg t input i).trans ht
  · rfl

/-- The answers of `recv` in a pass, in the order of the slots; those of slots that are not read
are among them. -/
def received (input : PassInput n) : List (List UInt8) := (List.finRange n).map input.recv

theorem pass_posts (input : PassInput n) :
    Posts cfg.token (received input) s (pass cfg s input) := by
  simp only [pass]
  split
  · exact .none rfl
  · next revents _ =>
    have hstart : (acceptPhase cfg input (revents 0)
        { s with delays := input.delays, sends := input.sends }).posted = s.posted :=
      acceptPhase_posted cfg _ input _
    obtain ⟨orders, hposted, hrest⟩ := Posts.foldl
      (fun t i => requestSlot_posts cfg t input
        (pollfds { s with delays := input.delays, sends := input.sends } revents) i)
      (List.finRange n) (acceptPhase cfg input (revents 0)
        { s with delays := input.delays, sends := input.sends })
    refine ⟨orders, ?_, hrest⟩
    rw [pushPhase_posted, reclaimPhase_posted, ← hstart]
    exact hposted

end Turns

end ReflowOven.Httpd
