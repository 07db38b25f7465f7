import ReflowOven.GateSoundness
import ReflowOven.HttpRouting

/-!
# No command without authorisation

The gate and `serve` each cut up the request line for themselves, the gate up to the first
line break and `serve` up to the first space wherever it is. On a request that `serve`
takes for a command the two agree, so the gate has decided on it as a command.
-/

namespace ReflowOven.CommandAuthorisation

open HttpRequestGrammar GateSoundness

/-- The gate took the request for something other than a command. -/
def PassedUnread (request : CString) : Prop :=
  ∃ lineEnd method target, strstr crlf request.bytes = some lineEnd ∧
    gateRequestLine (request.bytes.take lineEnd) = some (method, target) ∧ target ≠ cmdTarget

/-- A scan that ends before the line does not look past it. -/
theorem takeWhile_eq_of_notMem {p : UInt8 → Bool} {line rest : List UInt8} {c : UInt8}
    (hc : p c = true) (hnot : c ∉ (line ++ c :: rest).takeWhile p) :
    (line ++ c :: rest).takeWhile p = line.takeWhile p := by
  rw [List.takeWhile_append] at hnot ⊢
  split_ifs at hnot ⊢ with hall
  · rw [List.takeWhile_cons_of_pos hc] at hnot
    simp at hnot
  · rfl

theorem eq_of_splitRequest {request method target : CString} {query : Option CString}
    (h : splitRequest request = some (method, target, query)) :
    method.bytes = request.bytes.takeWhile (· ≠ 0x20) ∧
      target.bytes = (request.bytes.dropWhile (· ≠ 0x20)).tail.takeWhile inTarget := by
  simp only [splitRequest] at h
  rw [← takeWhile_target]
  split_ifs at h with hsp hquery
  all_goals
    obtain ⟨rfl, hrest⟩ := Prod.mk.inj (Option.some.inj h)
    obtain ⟨rfl, -⟩ := Prod.mk.inj hrest
    exact ⟨rfl, rfl⟩

/-- The gate sees the method and the target that `serve` routes to the commands. -/
theorem gateRequestLine_eq {request : CString} {method target : CString} {query : Option CString}
    (hsplit : splitRequest request = some (method, target, query))
    (htarget : target.bytes = cmdTarget) {lineEnd : ℕ}
    (hline : strstr crlf request.bytes = some lineEnd) {m t : List UInt8}
    (hgate : gateRequestLine (request.bytes.take lineEnd) = some (m, t)) :
    m = method.bytes ∧ t = target.bytes := by
  obtain ⟨hmethod, htail⟩ := eq_of_splitRequest hsplit
  obtain ⟨heq, -⟩ := eq_append_of_strstr hline
  simp only [gateRequestLine] at hgate
  rw [takeWhile_target] at hgate
  split_ifs at hgate with hsp
  obtain ⟨rfl, rfl⟩ := Prod.mk.inj (Option.some.inj hgate)
  set line := request.bytes.take lineEnd with hl
  set after := request.bytes.drop (lineEnd + crlf.length) with ha
  have hspace := eq_takeWhile_append hsp
  set first := line.takeWhile (· ≠ 0x20) with hfirst
  set rest := (line.dropWhile (· ≠ 0x20)).tail with hrest
  have hreq : request.bytes = first ++ 0x20 :: (rest ++ 0x0D :: 0x0A :: after) := by
    calc request.bytes = line ++ crlf ++ after := heq
      _ = (first ++ 0x20 :: rest) ++ crlf ++ after := by rw [← hspace]
      _ = first ++ 0x20 :: (rest ++ 0x0D :: 0x0A :: after) := by simp [crlf]
  have hno : 0x20 ∉ first := notMem_takeWhile_ne _ _
  rw [hreq, takeWhile_ne_append_cons hno] at hmethod
  rw [hreq, tail_dropWhile_ne_append_cons hno] at htail
  refine ⟨hmethod.symm, ?_⟩
  rw [htail]
  refine (takeWhile_eq_of_notMem (by decide) ?_).symm
  rw [← htail, htarget]
  decide

/-- A request that reaches `handle_cmd` is a complete `POST` to the command target, and its
header fields are authorised by the configured token. -/
theorem authorised_of_route_cmd {token : CString} {buf : List UInt8} {query : Option CString}
    (h : serveRoute token buf = .cmd query) :
    token.bytes ≠ [] ∧ ¬PassedUnread (CString.ofBuffer buf) ∧
      ∃ line lines fields, IsHead (CString.ofBuffer buf).bytes line lines ∧
        IsRequestLine line (ascii "POST") (ascii "/api/cmd") ∧
        List.Forall₂ IsField lines fields ∧ Authorises token.bytes fields := by
  obtain ⟨hgate, method, target, hsplit, hmethod, htarget⟩ := eq_of_serveRoute_eq_cmd h
  obtain ⟨lineEnd, m, t, hline, hparts, hcmd⟩ := allow_cases hgate
  obtain ⟨rfl, rfl⟩ := gateRequestLine_eq hsplit htarget hline hparts
  obtain ⟨-, htoken, lines, fields, hhead, hfields, hauth⟩ := hcmd htarget
  refine ⟨htoken, ?_, _, lines, fields, hhead, ?_, hfields, hauth⟩
  · rintro ⟨lineEnd', m', t', hline', hparts', hother⟩
    obtain ⟨-, rfl⟩ := gateRequestLine_eq hsplit htarget hline' hparts'
    exact hother htarget
  · rw [← hmethod, ← htarget]
    exact isRequestLine_of_gateRequestLine hparts

def stopToken : CString := .ofBuffer (ascii "k3y")

def stopRequest : List UInt8 :=
  ascii "POST /api/cmd?id=stop HTTP/1.1\r\nHost: 10.0.0.2:80\r\nX-Reflow-Token:\tk3y \r\n\r\n"

theorem stopRequest_authorised :
    stopToken.bytes ≠ [] ∧ ¬PassedUnread (CString.ofBuffer stopRequest) ∧
      ∃ line lines fields, IsHead (CString.ofBuffer stopRequest).bytes line lines ∧
        IsRequestLine line (ascii "POST") (ascii "/api/cmd") ∧
        List.Forall₂ IsField lines fields ∧ Authorises stopToken.bytes fields := by
  have hroute : serveRoute stopToken stopRequest = .cmd (some (.ofBuffer (ascii "id=stop"))) := by
    decide +kernel
  exact authorised_of_route_cmd hroute

end ReflowOven.CommandAuthorisation
