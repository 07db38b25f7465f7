import Mathlib.Data.List.DropRight
import ReflowOven.CStringScanning

/-!
# The authorisation gate of the command endpoint

The decision of `httpgate.c`. The request is the C string that starts the receive buffer;
a pointer into it is the rest of it from there, and `room` is how far the end of the
header block lies ahead of the pointer.
-/

namespace ReflowOven

def crlf : List UInt8 := [0x0D, 0x0A]

def cmdTarget : List UInt8 := ascii "/api/cmd"

def valueMax : ℕ := 128

def isOws (c : UInt8) : Bool := c = 0x20 ∨ c = 0x09

def lower (c : UInt8) : UInt8 := if c ≥ 0x41 ∧ c ≤ 0x5A then c - 0x41 + 0x61 else c

/-- Case-insensitive compare of a slice with a lowercase literal. -/
def nameIs : List UInt8 → List UInt8 → Bool
  | [], lit => lit = []
  | _ :: _, [] => false
  | c :: s, l :: lit => if lower c ≠ l then false else nameIs s lit

/-- Fixed-iteration comparison against the configured token. -/
def tokenOk (got want : List UInt8) : Bool :=
  let diff : UInt8 := if got.length ^^^ want.length ≠ 0 then 1 else 0
  let diff := (List.range want.length).foldl (fun diff i =>
    let g := if i < got.length then got.getD i 0 else 0
    diff ||| (g ^^^ want.getD i 0)) diff
  diff = 0

/-- The loop of `octet`, with `k` more digits allowed: the digits read and their value. -/
def octetLoop : ℕ → List UInt8 → ℕ → ℕ → ℕ × ℕ
  | 0, _, n, v => (n, v)
  | _ + 1, [], n, v => (n, v)
  | k + 1, c :: s, n, v =>
    if c ≥ 0x30 ∧ c ≤ 0x39 then octetLoop k s (n + 1) (v * 10 + (c.toNat - 0x30)) else (n, v)

/-- The digits of an octet at the start of `s`, 0 on refusal. -/
def octet (s : List UInt8) : ℕ :=
  let r := octetLoop 3 s 0 0
  if r.1 = 0 ∨ r.2 > 255 then 0
  else if r.1 > 1 ∧ s.head? = some 0x30 then 0
  else r.1

/-- One pass of the group loop: what is left after the separator and the octet. -/
def ipv4Group (s : List UInt8) (group : ℕ) : Option (List UInt8) :=
  let rest := if group > 0 then (if s.head? = some 0x2E then some s.tail else none) else some s
  match rest with
  | none => none
  | some s => if octet s = 0 then none else some (s.drop (octet s))

def isIpv4Authority (s : List UInt8) : Bool :=
  match (List.range 4).foldlM ipv4Group s with
  | none => false
  | some [] => true
  | some (c :: port) =>
    if c ≠ 0x3A then false
    else if port = [] ∨ port.length > 5 then false
    else port.all fun c => c ≥ 0x30 ∧ c ≤ 0x39

def originSchemes : List (List UInt8) := [ascii "http://", ascii "https://"]

/-- The authority of an Origin, without its scheme. -/
def originAuthority (s : List UInt8) : Option (List UInt8) :=
  originSchemes.findSome? fun scheme =>
    if s.length > scheme.length ∧ nameIs (s.take scheme.length) scheme then
      some (s.drop scheme.length)
    else none

/-- Values of the fields the gate looks at, where they were seen. -/
structure GateFields where
  token : Option (List UInt8) := none
  origin : Option (List UInt8) := none
  host : Option (List UInt8) := none

inductive ReflowGate
  | allow | badRequest | unauthorized | forbidden | methodNotAllowed | disabled
  deriving DecidableEq, Repr

def trimOws (s : List UInt8) : List UInt8 := (s.dropWhile isOws).rdropWhile isOws

/-- Name and trimmed value of a header line; `none` is a bad request. -/
def headerField (line : List UInt8) : Option (List UInt8 × List UInt8) :=
  if 0x3A ∉ line then none
  else
    let name := line.takeWhile (· ≠ 0x3A)
    if name = [] ∨ (name.getLast?.map isOws).getD false then none
    else some (name, trimOws (line.dropWhile (· ≠ 0x3A)).tail)

/-- A second value, or one that is too long, is a bad request. -/
def storeValue (field : Option (List UInt8)) (val : List UInt8) : Option (List UInt8) :=
  if field.isSome then none else if val.length > valueMax then none else some val

def storeField (f : GateFields) (name val : List UInt8) : Option GateFields :=
  if nameIs name (ascii "x-reflow-token") then
    (storeValue f.token val).map fun v => { f with token := some v }
  else if nameIs name (ascii "origin") then
    (storeValue f.origin val).map fun v => { f with origin := some v }
  else if nameIs name (ascii "host") then
    (storeValue f.host val).map fun v => { f with host := some v }
  else some f

/-- The walk over the header block; `none` is a bad request. -/
def collect (p : List UInt8) (room : ℕ) (f : GateFields) : Option GateFields :=
  if room = 0 then some f
  else match _hk : strstr crlf p with
    | none => none
    | some k =>
      if k > room then none
      else if k = 0 then some f
      else match headerField (p.take k) with
        | none => none
        | some (name, val) =>
          match storeField f name val with
          | none => none
          | some f => collect (p.drop (k + 2)) (room - (k + 2)) f
termination_by p.length
decreasing_by
  have hlen := congrArg List.length (eq_append_of_strstr _hk).1
  simp only [List.length_append, crlf, List.length_cons, List.length_nil] at hlen
  rw [List.length_drop] at hlen ⊢
  omega

/-- What is decided on the fields once the header block is read. -/
def gateFields (token : List UInt8) (f : GateFields) : ReflowGate :=
  match f.host with
  | none | some [] => .badRequest
  | some host =>
    if !isIpv4Authority host then .forbidden
    else
      let originOk := match f.origin with
        | none => true
        | some origin => match originAuthority origin with
          | none => false
          | some auth => auth = host
      if !originOk then .forbidden
      else match f.token with
        | none => .unauthorized
        | some got => if tokenOk got token then .allow else .unauthorized

/-- Method and target of a request line, the target without its query. -/
def gateRequestLine (line : List UInt8) : Option (List UInt8 × List UInt8) :=
  if 0x20 ∉ line then none
  else
    let rest := (line.dropWhile (· ≠ 0x20)).tail
    some (line.takeWhile (· ≠ 0x20), (rest.takeWhile (· ≠ 0x20)).takeWhile (· ≠ 0x3F))

/-- `none` is a NULL pointer. -/
def reflowGateCheck (request token : Option CString) : ReflowGate :=
  match request, token with
  | some request, some token =>
    match strstr crlf request.bytes with
    | none => .badRequest
    | some lineEnd =>
      match gateRequestLine (request.bytes.take lineEnd) with
      | none => .badRequest
      | some (method, target) =>
        if target ≠ cmdTarget then .allow
        else if method ≠ ascii "POST" then .methodNotAllowed
        else if token.bytes = [] then .disabled
        else match strstr (crlf ++ crlf) (request.bytes.drop lineEnd) with
          | none => .badRequest
          | some room =>
            match collect (request.bytes.drop (lineEnd + 2)) room {} with
            | none => .badRequest
            | some f => gateFields token.bytes f
  | _, _ => .badRequest

/-- `none` is the NULL returned for `REFLOW_GATE_ALLOW`. -/
def reflowGateStatus : ReflowGate → Option (List UInt8)
  | .badRequest => some (ascii "400 Bad Request")
  | .unauthorized => some (ascii "401 Unauthorized")
  | .forbidden => some (ascii "403 Forbidden")
  | .methodNotAllowed => some (ascii "405 Method Not Allowed")
  | .disabled => some (ascii "503 Service Unavailable")
  | .allow => none

end ReflowOven
