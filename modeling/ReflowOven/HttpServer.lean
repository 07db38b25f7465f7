import ReflowOven.CommandQuery
import ReflowOven.GuardedMachines
import ReflowOven.HttpRouting
import ReflowOven.ProfilesJson
import ReflowOven.ResourceLifetimes
import ReflowOven.SendBudget
import ReflowOven.TelemetryJson

/-!
# The web server thread

The loop of `httpd_thread` in `httpd.c`, one pass at a time. What the sockets and the
clock answer during a pass is its input; the sends of a pass take their answers from one
list, in order, and so do the readings of the clock. A socket that has no answer left is
in error.
-/

namespace ReflowOven.Httpd

/-- The options of `CONFIG_REFLOW_NET`, and the page that the build generates. -/
structure NetConfig where
  maxClients : ℕ := 4
  pushPeriodMs : ℕ := 1000
  sendBudgetMs : ℕ := 500
  idleBudgetMs : ℕ := 5000
  token : CString := .ofBuffer []
  indexHtml : List UInt8 := []
  maxClients_range : 1 ≤ maxClients ∧ maxClients ≤ 8 := by decide
  pushPeriod_range : 200 ≤ pushPeriodMs ∧ pushPeriodMs ≤ 10000 := by decide
  sendBudget_range : 100 ≤ sendBudgetMs ∧ sendBudgetMs ≤ 10000 := by decide
  idleBudget_range : 1000 ≤ idleBudgetMs ∧ idleBudgetMs ≤ 60000 := by decide

/-- A descriptor that a call returned; a negative one is `none`. -/
abbrev Fd := ℕ

/-- What the sockets of the server saw, in order; `time` is the last reading of the clock. -/
inductive SocketEvent
  | accepted (fd : Fd) (time : ℤ)
  | closed (fd : Fd)
  | sent (fd : Fd) (bytes : List UInt8)
  deriving DecidableEq

/-- `sent` with the return value 0 or more, `EAGAIN`, or any other error. -/
inductive SendResult
  | sent (n : ℕ)
  | again
  | error
  deriving DecidableEq

/-- A result of `zsock_send`, and the time that passes until the clock is read after it. -/
structure SendReply where
  result : SendResult
  ms : ℕ
  deriving DecidableEq

structure Revents where
  pollin : Bool := false
  pollhup : Bool := false
  pollerr : Bool := false
  deriving DecidableEq

structure Client where
  fd : Option Fd := none
  sse : Bool := false
  idle : ReflowIdleBudget := ⟨0, 0, false⟩
  deriving DecidableEq

/-- The answers of one pass. The telemetry is the snapshot when a slot is served, and when
an event is pushed to it. -/
structure PassInput (n : ℕ) where
  poll : Option (ℕ → Revents)
  accept : Option Fd
  recv : Fin n → List UInt8
  post : Fin n → Bool
  served : Fin n → ReflowTelemetry
  pushed : Fin n → ReflowTelemetry
  delays : List ℕ
  sends : List SendReply

structure Server (n : ℕ) where
  clients : Fin n → Client
  lastPush : ℤ
  now : ℤ
  delays : List ℕ
  sends : List SendReply
  log : List SocketEvent
  posted : List ReflowCmd

variable {n : ℕ}

/-- `k_uptime_get()`. -/
def uptime (s : Server n) : ℤ × Server n :=
  let now := s.now + s.delays.headD 0
  (now, { s with now := now, delays := s.delays.tail })

def setClient (s : Server n) (i : Fin n) (cl : Client) : Server n :=
  { s with clients := Function.update s.clients i cl }

structure SendOutcome where
  ok : Bool
  accepted : List UInt8
  now : ℤ
  sends : List SendReply

/-- The loop of `send_all`. -/
def sendLoop : List SendReply → List UInt8 → ReflowSendBudget → ℤ → SendOutcome
  | sends, [], _, now => ⟨true, [], now, sends⟩
  | [], _ :: _, _, now => ⟨false, [], now, []⟩
  | reply :: sends, c :: data, budget, now =>
    let now := now + reply.ms
    match reply.result with
    | .sent k =>
      if k > 0 then
        let r := sendLoop sends ((c :: data).drop k) (reflowSendBudgetProgress budget now) now
        { r with accepted := (c :: data).take k ++ r.accepted }
      else ⟨false, [], now, sends⟩
    | .again =>
      if reflowSendBudgetExpired budget now then ⟨false, [], now, sends⟩
      else sendLoop sends (c :: data) budget now
    | .error => ⟨false, [], now, sends⟩

/-- Whether all of the data was accepted. -/
def sendAll (cfg : NetConfig) (fd : Fd) (data : List UInt8) (s : Server n) : Bool × Server n :=
  let (now, s) := uptime s
  let r := sendLoop s.sends data (reflowSendBudgetStart now cfg.sendBudgetMs) now
  (r.ok, { s with now := r.now, sends := r.sends, log := s.log ++ [.sent fd r.accepted] })

def responseHeader (status ctype : List UInt8) (bodyLen : ℕ) : List UInt8 :=
  ascii "HTTP/1.1 " ++ status ++ ascii "\r\nContent-Type: " ++ ctype ++
  ascii "\r\nContent-Length: " ++ decimalText bodyLen ++
  ascii "\r\nCache-Control: no-store\r\nConnection: close\r\n\r\n"

def sendResponse (cfg : NetConfig) (fd : Fd) (status ctype body : List UInt8) (s : Server n) :
    Bool × Server n :=
  let (ok, s) := sendAll cfg fd (responseHeader status ctype body.length) s
  if !ok then (false, s)
  else if body.length > 0 then sendAll cfg fd body s
  else (true, s)

def sendProfiles (cfg : NetConfig) (fd : Fd) (s : Server n) : Bool × Server n :=
  let body := reflowProfilesJson 256 profileNames reflowProfileCount
  if body = [] then
    sendResponse cfg fd (ascii "500 Internal Server Error") (ascii "text/plain") [] s
  else sendResponse cfg fd (ascii "200 OK") (ascii "application/json") body s

/-- `queueTakes` is what `reflow_cmd_post` reports. -/
def handleCmd (cfg : NetConfig) (fd : Fd) (query : Option CString) (queueTakes : Bool)
    (s : Server n) : Bool × Server n :=
  let (res, cmd) := reflowCmdParse query ⟨0, 0⟩
  if res = .reject then sendResponse cfg fd (ascii "400 Bad Request") (ascii "text/plain") [] s
  else if !queueTakes then
    sendResponse cfg fd (ascii "503 Service Unavailable") (ascii "text/plain") [] s
  else
    let s := { s with posted := s.posted ++ [cmd] }
    if res = .rejectStop then
      sendResponse cfg fd (ascii "400 Bad Request") (ascii "text/plain") [] s
    else sendResponse cfg fd (ascii "204 No Content") (ascii "text/plain") [] s

def eventFrame (t : ReflowTelemetry) : List UInt8 := ProfileTable.eventFrame reflowProfileGet t

def pushEvent (cfg : NetConfig) (fd : Fd) (t : ReflowTelemetry) (s : Server n) :
    Bool × Server n := sendAll cfg fd (eventFrame t) s

def clientClose (s : Server n) (i : Fin n) : Server n :=
  match (s.clients i).fd with
  | none => s
  | some fd =>
    setClient { s with log := s.log ++ [.closed fd] } i
      ⟨none, false, reflowIdleBudgetDisarm (s.clients i).idle⟩

def eventsHeader : List UInt8 :=
  ascii "HTTP/1.1 200 OK\r\n" ++ ascii "Content-Type: text/event-stream\r\n" ++
  ascii "Cache-Control: no-store\r\n" ++ ascii "Connection: keep-alive\r\n\r\n"

/-- Whether to keep the connection in slot `i`, which holds `fd`, open. -/
def serve (cfg : NetConfig) (input : PassInput n) (i : Fin n) (fd : Fd) (s : Server n) :
    Bool × Server n :=
  -- an empty answer of `recv` stands for a closed or failed connection
  if input.recv i = [] then (false, s)
  else
    match serveRoute cfg.token (input.recv i) with
    | .drop => (false, s)
    | .refuse gate =>
      (false, (sendResponse cfg fd ((reflowGateStatus gate).getD []) (ascii "text/plain") [] s).2)
    | .page =>
      (false, (sendResponse cfg fd (ascii "200 OK") (ascii "text/html; charset=utf-8")
        cfg.indexHtml s).2)
    | .profiles => (false, (sendProfiles cfg fd s).2)
    | .state =>
      let r := buildStateJson (input.served i) reflowJsonBufSz
      (false, (sendResponse cfg fd (ascii "200 OK") (ascii "application/json")
        (r.1.take r.2) s).2)
    | .events =>
      let (ok, s) := sendAll cfg fd eventsHeader s
      if !ok then (false, s)
      else pushEvent cfg fd (input.served i) (setClient s i { s.clients i with sse := true })
    | .cmd query => (false, (handleCmd cfg fd query (input.post i) s).2)
    | .notFound =>
      (false, (sendResponse cfg fd (ascii "404 Not Found") (ascii "text/plain") [] s).2)

structure Pollfd where
  fd : Fd
  revents : Revents

/-- The entries of the poll set after the listening socket, as `poll` returns them. -/
def pollfds (s : Server n) (revents : ℕ → Revents) : List Pollfd :=
  (((List.finRange n).filterMap fun i => (s.clients i).fd).zipIdx 1).map fun (fd, j) =>
    ⟨fd, revents j⟩

def freeSlot (s : Server n) : Option (Fin n) :=
  (List.finRange n).find? fun i => (s.clients i).fd.isNone

def acceptClient (cfg : NetConfig) (fd : Fd) (s : Server n) : Server n :=
  match freeSlot s with
  | none => { s with log := s.log ++ [.accepted fd s.now, .closed fd] }
  | some i =>
    let (now, s) := uptime s
    setClient { s with log := s.log ++ [.accepted fd now] } i
      ⟨some fd, false, reflowIdleBudgetStart now cfg.idleBudgetMs⟩

def acceptPhase (cfg : NetConfig) (input : PassInput n) (listener : Revents) (s : Server n) :
    Server n :=
  if listener.pollin then
    match input.accept with
    | none => s
    | some fd => acceptClient cfg fd s
  else s

def readable (fds : List Pollfd) (fd : Fd) : Bool :=
  match fds.find? (·.fd = fd) with
  | none => false
  | some p => p.revents.pollin || p.revents.pollhup || p.revents.pollerr

/-- The body of the loop over requests and disconnects. -/
def requestSlot (cfg : NetConfig) (input : PassInput n) (fds : List Pollfd) (s : Server n)
    (i : Fin n) : Server n :=
  match (s.clients i).fd with
  | none => s
  | some fd =>
    if !readable fds fd then s
    else if (s.clients i).sse then clientClose s i
    else
      let (keep, s) := serve cfg input i fd s
      if !keep then clientClose s i
      else setClient s i
        { s.clients i with idle := reflowIdleBudgetDisarm (s.clients i).idle }

/-- The body of the loop that reclaims slots. -/
def reclaimSlot (s : Server n) (i : Fin n) : Server n :=
  match (s.clients i).fd with
  | none => s
  | some _ =>
    let (now, s) := uptime s
    if reflowIdleBudgetExpired (s.clients i).idle now then clientClose s i else s

/-- The body of the loop that pushes telemetry. -/
def pushSlot (cfg : NetConfig) (input : PassInput n) (s : Server n) (i : Fin n) : Server n :=
  match (s.clients i).fd with
  | none => s
  | some fd =>
    if (s.clients i).sse then
      let (ok, s) := pushEvent cfg fd (input.pushed i) s
      if !ok then clientClose s i else s
    else s

def requestPhase (cfg : NetConfig) (input : PassInput n) (fds : List Pollfd) (s : Server n) :
    Server n := (List.finRange n).foldl (requestSlot cfg input fds) s

def reclaimPhase (s : Server n) : Server n := (List.finRange n).foldl reclaimSlot s

def pushPhase (cfg : NetConfig) (input : PassInput n) (s : Server n) : Server n :=
  let (now, s) := uptime s
  if now - s.lastPush ≥ cfg.pushPeriodMs then
    let (now, s) := uptime s
    (List.finRange n).foldl (pushSlot cfg input) { s with lastPush := now }
  else s

/-- A pass up to the loop that reclaims slots. -/
def passRequests (cfg : NetConfig) (input : PassInput n) (revents : ℕ → Revents) (s : Server n) :
    Server n :=
  let s := { s with delays := input.delays, sends := input.sends }
  requestPhase cfg input (pollfds s revents) (acceptPhase cfg input (revents 0) s)

/-- One pass of the loop. Where `poll` fails it only takes time. -/
def pass (cfg : NetConfig) (s : Server n) (input : PassInput n) : Server n :=
  match input.poll with
  | none => s
  | some revents => pushPhase cfg input (reclaimPhase (passRequests cfg input revents s))

/-- What happened to this descriptor, in order. -/
def history (fd : Fd) (log : List SocketEvent) : List LifeEvent :=
  log.filterMap fun
    | .accepted fd' _ => if fd' = fd then some .opened else none
    | .closed fd' => if fd' = fd then some .closed else none
    | .sent _ _ => none

/-- When the descriptor was last accepted. -/
def acceptedAt (fd : Fd) (log : List SocketEvent) : Option ℤ :=
  (log.filterMap fun
    | .accepted fd' time => if fd' = fd then some time else none
    | .closed _ | .sent _ _ => none).getLast?

/-- The descriptor has been accepted and not closed since. -/
def StillOpen (fd : Fd) (log : List SocketEvent) : Prop :=
  (history fd log).getLast? = some .opened

/-- The thread from the start of its loop; `accept` returns no descriptor that is open. -/
def httpd (cfg : NetConfig) : Machine (Server cfg.maxClients) (PassInput cfg.maxClients) where
  init s := (∀ i, s.clients i = {}) ∧ s.lastPush = s.now ∧ s.log = [] ∧ s.posted = []
  admits s input := ∀ fd, input.accept = some fd → ¬StillOpen fd s.log
  step := pass cfg

end ReflowOven.Httpd
