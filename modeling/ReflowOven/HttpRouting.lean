import ReflowOven.HttpGate

/-!
# The routes of the web server

What `serve` of `httpd.c` decides from the bytes it received, without what it then sends.
The request line is cut up in place by writing NUL bytes; the gate has read the request
before that.
-/

namespace ReflowOven

/-- The call that ends `serve`. -/
inductive Route
  | drop
  | refuse (gate : ReflowGate)
  | page
  | profiles
  | state
  | events
  | cmd (query : Option CString)
  | notFound
  deriving DecidableEq

/-- Method, target and query of a request line; `none` when it has no space. -/
def splitRequest (request : CString) : Option (CString × CString × Option CString) :=
  if 0x20 ∉ request.bytes then none
  else
    let target := (request.past 0x20).upTo 0x20
    let query := if 0x3F ∈ target.bytes then some (target.past 0x3F) else none
    some (request.upTo 0x20, target.upTo 0x3F, query)

def serveRoute (token : CString) (buf : List UInt8) : Route :=
  let request := CString.ofBuffer buf
  let gate := reflowGateCheck (some request) (some token)
  match splitRequest request with
  | none => .drop
  | some (method, target, query) =>
    if gate ≠ .allow then .refuse gate
    else if method.bytes = ascii "GET" then
      if target.bytes = ascii "/" ∨ target.bytes = ascii "/index.html" then .page
      else if target.bytes = ascii "/api/profiles" then .profiles
      else if target.bytes = ascii "/api/state" then .state
      else if target.bytes = ascii "/api/events" then .events
      else .notFound
    else if method.bytes = ascii "POST" ∧ target.bytes = ascii "/api/cmd" then .cmd query
    else .notFound

theorem eq_of_serveRoute_eq_cmd {token : CString} {buf : List UInt8} {query : Option CString}
    (h : serveRoute token buf = .cmd query) :
    reflowGateCheck (some (CString.ofBuffer buf)) (some token) = .allow ∧
      ∃ method target, splitRequest (CString.ofBuffer buf) = some (method, target, query) ∧
        method.bytes = ascii "POST" ∧ target.bytes = ascii "/api/cmd" := by
  simp only [serveRoute] at h
  cases hsplit : splitRequest (CString.ofBuffer buf) with
  | none => simp [hsplit] at h
  | some parts =>
    obtain ⟨method, target, query'⟩ := parts
    simp only [hsplit] at h
    split_ifs at h with hgate _ _ _ _ _ hcmd
    obtain rfl : query' = query := by simpa using h
    exact ⟨by simpa using hgate, method, target, rfl, hcmd⟩

theorem splitRequest_post {request : CString} {query rest : List UInt8}
    (h : request.bytes = ascii "POST" ++ 0x20 :: (cmdTarget ++ 0x3F :: query ++ 0x20 :: rest))
    (hspace : 0x20 ∉ query) : ∃ method target q,
      splitRequest request = some (method, target, some q) ∧
        method.bytes = ascii "POST" ∧ target.bytes = cmdTarget ∧ q.bytes = query := by
  have hpost : (0x20 : UInt8) ∉ ascii "POST" := by decide
  have hspaces : (0x20 : UInt8) ∉ cmdTarget ++ 0x3F :: query := by
    simp only [List.mem_append, List.mem_cons, not_or]
    exact ⟨by decide, by decide, hspace⟩
  have hmark : (0x3F : UInt8) ∉ cmdTarget := by decide
  have htarget : ((request.past 0x20).upTo 0x20).bytes = cmdTarget ++ 0x3F :: query := by
    simp only [CString.past, CString.upTo]
    rw [h, tail_dropWhile_ne_append_cons hpost, takeWhile_ne_append_cons hspaces]
  refine ⟨request.upTo 0x20, ((request.past 0x20).upTo 0x20).upTo 0x3F,
    ((request.past 0x20).upTo 0x20).past 0x3F, ?_, ?_, ?_, ?_⟩
  · rw [splitRequest, if_neg (by simp [h])]
    simp only [htarget]
    rw [if_pos (by simp)]
  · simp only [CString.upTo]
    rw [h, takeWhile_ne_append_cons hpost]
  · rw [CString.upTo]
    exact (congrArg (List.takeWhile (· ≠ 0x3F)) htarget).trans (takeWhile_ne_append_cons hmark _)
  · rw [CString.past]
    exact (congrArg (fun s => (s.dropWhile (· ≠ 0x3F)).tail) htarget).trans
      (tail_dropWhile_ne_append_cons hmark _)

end ReflowOven
