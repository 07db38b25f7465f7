import ReflowOven.ConnectionPool
import ReflowOven.HttpResponseGrammar

/-!
# What each connection received

The sends on a descriptor between its `accept` and its `close` follow one script: a response
in two parts, or the header of the event stream and a frame for each push. What a client makes
of a script is the grammar of responses and events. A send that fails
is the last one, and its connection is closed in the same step. This is shown for the body of
each loop that sends or closes, with the other slots left alone.
-/

namespace ReflowOven.Httpd

open HttpResponseGrammar

variable {n : ℕ}

section Scripts

/-- One life of a descriptor: what the sends on it accepted, in order, and what was sent to it
after it was closed. -/
structure Connection where
  sends : List (List UInt8)
  closed : Bool
  late : List (List UInt8)
  deriving DecidableEq

/-- The lives of `fd`, the newest first. -/
def connectionStep (fd : Fd) (lives : List Connection) : SocketEvent → List Connection
  | .accepted fd' _ => if fd' = fd then ⟨[], false, []⟩ :: lives else lives
  | .closed fd' => if fd' = fd then lives.modifyHead fun c => { c with closed := true } else lives
  | .sent fd' bytes =>
    if fd' = fd then
      match lives with
      | [] => [⟨[], true, [bytes]⟩]
      | c :: lives =>
        if c.closed then { c with late := c.late ++ [bytes] } :: lives
        else { c with sends := c.sends ++ [bytes] } :: lives
    else lives

def connections (fd : Fd) (log : List SocketEvent) : List Connection :=
  log.foldl (connectionStep fd) []

/-- The parts were sent in order; if the last send was `torn`, it stopped inside its part. -/
inductive Follows : List (List UInt8) → List (List UInt8) → Bool → Prop
  | silent (script : List (List UInt8)) : Follows script [] false
  | whole (part : List UInt8) {script sends : List (List UInt8)} {torn : Bool}
      (h : Follows script sends torn) : Follows (part :: script) (part :: sends) torn
  | torn {part piece : List UInt8} (script : List (List UInt8)) (hpiece : piece <+: part)
      (hne : piece ≠ part) : Follows (part :: script) [piece] true

/-- The bytes that were accepted are a beginning of the script. -/
theorem Follows.flatten {script sends : List (List UInt8)} {torn : Bool}
    (h : Follows script sends torn) : sends.flatten <+: script.flatten := by
  induction h with
  | silent script => exact List.nil_prefix
  | whole part _ ih =>
    rw [List.flatten_cons, List.flatten_cons]
    exact (List.prefix_append_right_inj part).mpr ih
  | torn script hpiece _ =>
    rw [List.flatten_singleton, List.flatten_cons]
    exact hpiece.trans (List.prefix_append _ _)

/-- The parts sent so far were all whole, and the next send follows. -/
theorem Follows.append {script sends rest : List (List UInt8)} {torn : Bool}
    (h : Follows rest sends torn) : Follows (script ++ rest) (script ++ sends) torn := by
  induction script with
  | nil => exact h
  | cons part script ih => exact .whole part ih

/-- The event of a snapshot. -/
def dataFrame (t : ReflowTelemetry) : List UInt8 :=
  ascii "data: " ++ reflowTelemetryJson t ++ ascii "\n\n"

/-- What a connection may be sent: one response whose header counts its body, or the event
stream with the frames of some of the snapshots seen so far, in their order. -/
inductive Script (seen : List ReflowTelemetry) : List (List UInt8) → Prop
  | response {status ctype : List UInt8} (body : List UInt8) (hstatus : status ∈ statusTexts)
      (hctype : ctype ∈ contentTypes) :
      Script seen [responseHeader status ctype body.length, body]
  | stream {frames : List ReflowTelemetry} (hframes : frames.Sublist seen) :
      Script seen (eventsHeader :: frames.map dataFrame)

/-- What a client can hold a connection to: the two parts of one response, or the head of an event
stream and an event for each of some of the snapshots seen so far, in their order. -/
inductive Transcript (seen : List ReflowTelemetry) : List (List UInt8) → Prop
  | response {status ctype head body : List UInt8} (h : IsResponse status ctype head body) :
      Transcript seen [head, body]
  | stream {head : List UInt8} {frames : List ReflowTelemetry} {events : List (List UInt8)}
      (hhead : IsEventsHead head) (hframes : frames.Sublist seen)
      (hevents : List.Forall₂ IsEvent frames events) : Transcript seen (head :: events)

theorem forall₂_isEvent (frames : List ReflowTelemetry) :
    List.Forall₂ IsEvent frames (frames.map dataFrame) := by
  rw [List.forall₂_map_right_iff, List.forall₂_same]
  exact fun t _ => isEvent_json t

/-- What the server prints is what a client expects. -/
theorem Script.transcript {seen : List ReflowTelemetry} {script : List (List UInt8)}
    (h : Script seen script) : Transcript seen script := by
  cases h with
  | response body hstatus hctype => exact .response (responseHeader_isResponse hstatus hctype body)
  | stream hframes => exact .stream eventsHeader_isEventsHead hframes (forall₂_isEvent _)

/-- A connection that was never torn and continued. -/
structure Intact (seen : List ReflowTelemetry) (c : Connection) : Prop where
  late : c.late = []
  follows : ∃ script torn, Script seen script ∧ Follows script c.sends torn ∧
    (torn = true → c.closed = true)

end Scripts

section Sends

/-- From `s` to `s'` the log grows by sends on `fd`, which accepted these pieces. -/
def Speaks (fd : Fd) (pieces : List (List UInt8)) (s s' : Server n) : Prop :=
  s'.log = s.log ++ pieces.map (.sent fd)

theorem Speaks.trans {fd : Fd} {pieces pieces' : List (List UInt8)} {s s' s'' : Server n}
    (h : Speaks fd pieces s s') (h' : Speaks fd pieces' s' s'') :
    Speaks fd (pieces ++ pieces') s s'' := by
  rw [Speaks, h', h, List.map_append, List.append_assoc]

/-- What a send reports and what it accepted: all of the data, or less of it and a failure. -/
inductive Delivered (data : List UInt8) : Bool → List UInt8 → Prop
  | whole : Delivered data true data
  | torn {piece : List UInt8} (hpiece : piece <+: data) (hne : piece ≠ data) :
      Delivered data false piece

theorem Delivered.append {rest : List UInt8} {ok : Bool} {piece : List UInt8}
    (h : Delivered rest ok piece) (data : List UInt8) :
    Delivered (data ++ rest) ok (data ++ piece) := by
  cases h with
  | whole => exact .whole
  | torn hpiece hne =>
    exact .torn ((List.prefix_append_right_inj data).mpr hpiece)
      fun heq => hne (List.append_cancel_left heq)

theorem Delivered.nothing {c : UInt8} {data : List UInt8} : Delivered (c :: data) false [] :=
  .torn List.nil_prefix (List.cons_ne_nil c data).symm

theorem Delivered.follows {part piece : List UInt8} {ok : Bool} (h : Delivered part ok piece)
    (script : List (List UInt8)) : Follows (part :: script) [piece] (!ok) := by
  cases h with
  | whole => exact .whole part (.silent script)
  | torn hpiece hne => exact .torn script hpiece hne

theorem sendLoop_delivered (sends : List SendReply) (data : List UInt8) (b : ReflowSendBudget)
    (now : ℤ) :
    Delivered data (sendLoop sends data b now).ok (sendLoop sends data b now).accepted := by
  induction sends generalizing data b now with
  | nil =>
    cases data with
    | nil => exact .whole
    | cons c data => exact .nothing
  | cons reply sends ih =>
    cases data with
    | nil => exact .whole
    | cons c data =>
      rw [sendLoop]
      cases reply.result with
      | sent k =>
        dsimp only
        split_ifs
        · have h := (ih ((c :: data).drop k) (reflowSendBudgetProgress b (now + reply.ms))
            (now + reply.ms)).append ((c :: data).take k)
          rwa [List.take_append_drop] at h
        · exact .nothing
      | again =>
        dsimp only
        split_ifs
        · exact .nothing
        · exact ih _ _ _
      | error => exact .nothing

theorem sendAll_speaks (cfg : NetConfig) (fd : Fd) (data : List UInt8) (s : Server n) :
    ∃ piece, Delivered data (sendAll cfg fd data s).1 piece ∧
      Speaks fd [piece] s (sendAll cfg fd data s).2 :=
  ⟨_, sendLoop_delivered _ _ _ _, rfl⟩

/-- What `s'` has sent on `fd` since `s` is a beginning of one script. -/
def Answers (seen : List ReflowTelemetry) (fd : Fd) (s s' : Server n) : Prop :=
  ∃ script pieces torn, Script seen script ∧ Follows script pieces torn ∧ Speaks fd pieces s s'

/-- A response is sent until one of its parts fails. -/
theorem sendResponse_speaks (cfg : NetConfig) (fd : Fd) (status ctype body : List UInt8)
    (s : Server n) : ∃ pieces torn,
      Follows [responseHeader status ctype body.length, body] pieces torn ∧
        Speaks fd pieces s (sendResponse cfg fd status ctype body s).2 := by
  obtain ⟨piece, hheader, hspeaks⟩ :=
    sendAll_speaks cfg fd (responseHeader status ctype body.length) s
  simp only [sendResponse]
  cases hok : (sendAll cfg fd (responseHeader status ctype body.length) s).1 with
  | false => exact ⟨[piece], _, hheader.follows [body], hspeaks⟩
  | true =>
    rw [hok] at hheader
    cases hheader
    simp only [Bool.not_true, Bool.false_eq_true, if_false]
    split_ifs with hbody
    · obtain ⟨piece', hdelivered, hspeaks'⟩ := sendAll_speaks cfg fd body
        (sendAll cfg fd (responseHeader status ctype body.length) s).2
      exact ⟨_, _, .whole _ (hdelivered.follows []), hspeaks.trans hspeaks'⟩
    · exact ⟨_, _, .whole _ (.silent [body]), hspeaks⟩

theorem sendResponse_answers (cfg : NetConfig) (fd : Fd) {status ctype : List UInt8}
    (hstatus : status ∈ statusTexts) (hctype : ctype ∈ contentTypes) (body : List UInt8)
    (s : Server n) (seen : List ReflowTelemetry) :
    Answers seen fd s (sendResponse cfg fd status ctype body s).2 := by
  obtain ⟨pieces, torn, hfollows, hspeaks⟩ := sendResponse_speaks cfg fd status ctype body s
  exact ⟨_, pieces, torn, .response body hstatus hctype, hfollows, hspeaks⟩

theorem sendProfiles_answers (cfg : NetConfig) (fd : Fd) (s : Server n)
    (seen : List ReflowTelemetry) : Answers seen fd s (sendProfiles cfg fd s).2 := by
  simp only [sendProfiles]
  split_ifs <;>
    exact sendResponse_answers cfg fd (by simp [statusTexts]) (by simp [contentTypes]) _ s seen

theorem handleCmd_answers (cfg : NetConfig) (fd : Fd) (query : Option CString)
    (queueTakes : Bool) (s : Server n) (seen : List ReflowTelemetry) :
    Answers seen fd s (handleCmd cfg fd query queueTakes s).2 := by
  simp only [handleCmd]
  split_ifs <;>
    exact sendResponse_answers cfg fd (by simp [statusTexts]) (by simp [contentTypes]) _ _ seen

theorem reflowGateStatus_mem {gate : ReflowGate} (h : gate ≠ .allow) :
    (reflowGateStatus gate).getD [] ∈ statusTexts := by
  cases gate with
  | allow => exact absurd rfl h
  | badRequest | unauthorized | forbidden | methodNotAllowed | disabled =>
    simp [reflowGateStatus, statusTexts]

theorem ne_allow_of_refuse {token : CString} {buf : List UInt8} {gate : ReflowGate}
    (h : serveRoute token buf = .refuse gate) : gate ≠ .allow := by
  simp only [serveRoute] at h
  split at h
  · cases h
  · split_ifs at h with hgate
    cases h
    exact hgate

/-- The frame of an event is never truncated. -/
theorem eventFrame_eq_dataFrame (t : ReflowTelemetry) : eventFrame t = dataFrame t := by
  exact (eventFrame_whole (length_stageName_le valid_builtin t)).1

theorem pushEvent_speaks (cfg : NetConfig) (fd : Fd) (t : ReflowTelemetry) (s : Server n) :
    ∃ piece, Delivered (dataFrame t) (pushEvent cfg fd t s).1 piece ∧
      Speaks fd [piece] s (pushEvent cfg fd t s).2 := by
  rw [pushEvent, eventFrame_eq_dataFrame]
  exact sendAll_speaks cfg fd (dataFrame t) s

/-- A connection that is kept was sent the header of the stream and a frame; one that is not
was sent a beginning of one script. -/
theorem serve_speaks (cfg : NetConfig) (input : PassInput n) (i : Fin n) (fd : Fd)
    (s : Server n) :
    ((serve cfg input i fd s).1 = false ∧
        Answers [input.served i] fd s (serve cfg input i fd s).2) ∨
      ((serve cfg input i fd s).1 = true ∧
        Speaks fd [eventsHeader, dataFrame (input.served i)] s (serve cfg input i fd s).2) := by
  have hnothing : Answers [input.served i] fd s s :=
    ⟨_, [], false, .stream (List.nil_sublist _), .silent _, by simp [Speaks]⟩
  have answered {status ctype : List UInt8} (hstatus : status ∈ statusTexts)
      (hctype : ctype ∈ contentTypes) (body : List UInt8) := sendResponse_answers cfg fd hstatus
    hctype body s [input.served i]
  unfold serve
  split_ifs
  · exact .inl ⟨rfl, hnothing⟩
  split
  · exact .inl ⟨rfl, hnothing⟩
  · next gate hroute =>
    have hstatus := reflowGateStatus_mem (ne_allow_of_refuse hroute)
    exact .inl ⟨rfl, answered hstatus (by simp [contentTypes]) _⟩
  · exact .inl ⟨rfl, answered (by simp [statusTexts]) (by simp [contentTypes]) _⟩
  · exact .inl ⟨rfl, sendProfiles_answers cfg fd s _⟩
  · exact .inl ⟨rfl, answered (by simp [statusTexts]) (by simp [contentTypes]) _⟩
  · obtain ⟨piece, hheader, hspeaks⟩ := sendAll_speaks cfg fd eventsHeader s
    dsimp only
    cases hok : (sendAll cfg fd eventsHeader s).1 with
    | false =>
      exact .inl ⟨rfl, _, [piece], _, .stream (List.nil_sublist _), hheader.follows _, hspeaks⟩
    | true =>
      rw [hok] at hheader
      cases hheader
      have hopened : Speaks fd [eventsHeader] s (setClient (sendAll cfg fd eventsHeader s).2 i
          { (sendAll cfg fd eventsHeader s).2.clients i with sse := true }) := hspeaks
      obtain ⟨piece', hframe, hspeaks'⟩ := pushEvent_speaks cfg fd (input.served i)
        (setClient (sendAll cfg fd eventsHeader s).2 i
          { (sendAll cfg fd eventsHeader s).2.clients i with sse := true })
      simp only [Bool.not_true, Bool.false_eq_true, if_false]
      generalize pushEvent cfg fd (input.served i) _ = sent at hframe hspeaks' ⊢
      have hall := hopened.trans hspeaks'
      have hscript : Script [input.served i]
          (eventsHeader :: [input.served i].map dataFrame) := .stream (List.Sublist.refl _)
      cases hsent : sent.1 with
      | false => exact .inl ⟨rfl, _, _, _, hscript, .whole _ (hframe.follows []), hall⟩
      | true =>
        rw [hsent] at hframe
        cases hframe
        exact .inr ⟨rfl, hall⟩
  · exact .inl ⟨rfl, handleCmd_answers cfg fd _ _ s _⟩
  · exact .inl ⟨rfl, answered (by simp [statusTexts]) (by simp [contentTypes]) _⟩

end Sends

section Lives

variable {fd fd' : Fd} {log : List SocketEvent} {c : Connection} {lives : List Connection}

@[simp] theorem connections_append (log' : List SocketEvent) :
    connections fd (log ++ log') = log'.foldl (connectionStep fd) (connections fd log) :=
  List.foldl_append

theorem connections_sent_of_ne (h : fd' ≠ fd) (pieces : List (List UInt8)) :
    connections fd (log ++ pieces.map (.sent fd')) = connections fd log := by
  induction pieces using List.reverseRecOn with
  | nil => simp
  | append_singleton pieces piece ih =>
    rw [List.map_append, ← List.append_assoc, connections_append, ih]
    simp [connectionStep, h]

/-- Sends on an open connection. -/
theorem connections_sent (h : connections fd log = c :: lives) (hopen : c.closed = false)
    (pieces : List (List UInt8)) :
    connections fd (log ++ pieces.map (.sent fd)) =
      { c with sends := c.sends ++ pieces } :: lives := by
  induction pieces using List.reverseRecOn with
  | nil => simp [h]
  | append_singleton pieces piece ih =>
    rw [List.map_append, ← List.append_assoc, connections_append, ih]
    simp [connectionStep, hopen]

theorem connections_closed_of_ne (h : fd' ≠ fd) :
    connections fd (log ++ [.closed fd']) = connections fd log := by
  simp [connectionStep, h]

theorem connections_closed (h : connections fd log = c :: lives) :
    connections fd (log ++ [.closed fd]) = { c with closed := true } :: lives := by
  simp [connectionStep, h]

theorem connections_accepted_of_ne (h : fd' ≠ fd) (time : ℤ) :
    connections fd (log ++ [.accepted fd' time]) = connections fd log := by
  simp [connectionStep, h]

theorem connections_accepted (fd : Fd) (log : List SocketEvent) (time : ℤ) :
    connections fd (log ++ [.accepted fd time]) = ⟨[], false, []⟩ :: connections fd log := by
  simp [connectionStep]

end Lives

section Turns

variable {seen seen' : List ReflowTelemetry}

/-- An open connection between two turns of its slot: nothing was sent before it became an
event stream, and every frame since was whole. -/
structure Waiting (seen : List ReflowTelemetry) (sse : Bool) (c : Connection) : Prop where
  opened : c.closed = false
  late : c.late = []
  sends : ∃ frames : List ReflowTelemetry, frames.Sublist seen ∧
    c.sends = if sse then eventsHeader :: frames.map dataFrame else []

/-- What every pass keeps. -/
structure Talk (seen : List ReflowTelemetry) (s : Server n) : Prop where
  past : ∀ fd, ∀ c ∈ connections fd s.log, Intact seen c
  present : ∀ i fd, (s.clients i).fd = some fd → ∃ c lives,
    connections fd s.log = c :: lives ∧ Waiting seen (s.clients i).sse c

theorem Script.mono (h : seen.Sublist seen') {script : List (List UInt8)}
    (hs : Script seen script) : Script seen' script := by
  cases hs with
  | response body hstatus hctype => exact .response body hstatus hctype
  | stream hframes => exact .stream (hframes.trans h)

theorem Intact.mono (h : seen.Sublist seen') {c : Connection} (hc : Intact seen c) :
    Intact seen' c := by
  obtain ⟨script, torn, hscript, hfollows⟩ := hc.follows
  exact ⟨hc.late, script, torn, hscript.mono h, hfollows⟩

theorem Waiting.mono (h : seen.Sublist seen') {sse : Bool} {c : Connection}
    (hc : Waiting seen sse c) : Waiting seen' sse c := by
  obtain ⟨frames, hframes, hsends⟩ := hc.sends
  exact ⟨hc.opened, hc.late, frames, hframes.trans h, hsends⟩

theorem Talk.mono (h : seen.Sublist seen') {s : Server n} (hs : Talk seen s) : Talk seen' s := by
  refine ⟨fun fd c hc => (hs.past fd c hc).mono h, fun i fd hi => ?_⟩
  obtain ⟨c, lives, hc, hwaiting⟩ := hs.present i fd hi
  exact ⟨c, lives, hc, hwaiting.mono h⟩

/-- Whole parts of a stream. -/
theorem follows_self (script : List (List UInt8)) : Follows script script false := by
  induction script with
  | nil => exact .silent []
  | cons part script ih => exact .whole part ih

theorem Waiting.intact {sse : Bool} {c : Connection} (hc : Waiting seen sse c) (closed : Bool) :
    Intact seen { c with closed := closed } := by
  obtain ⟨frames, hframes, hsends⟩ := hc.sends
  refine ⟨hc.late, eventsHeader :: frames.map dataFrame, false, .stream hframes, ?_, by simp⟩
  dsimp only
  rw [hsends]
  cases sse with
  | false => exact .silent _
  | true => exact follows_self _

/-- The next frame of a stream, whole or torn. -/
theorem Waiting.push {c : Connection} (hc : Waiting seen true c) {t : ReflowTelemetry} {ok : Bool}
    {piece : List UInt8} (h : Delivered (dataFrame t) ok piece) :
    ∃ script, Script (seen ++ [t]) script ∧ Follows script (c.sends ++ [piece]) (!ok) := by
  obtain ⟨frames, hframes, hsends⟩ := hc.sends
  refine ⟨_, .stream (hframes.append_right [t]), ?_⟩
  rw [hsends, if_pos rfl, List.map_append, ← List.cons_append]
  exact (h.follows []).append

/-- A turn of slot `i`, which only concerns the descriptor it holds. -/
theorem Talk.update {s s' : Server n} (hs : Talk seen s) (h : seen.Sublist seen') {i : Fin n}
    {fd : Fd} (hother : ∀ j ≠ i, s'.clients j = s.clients j)
    (hdistinct : ∀ j ≠ i, (s.clients j).fd ≠ some fd)
    (hlog : ∀ fd' ≠ fd, connections fd' s'.log = connections fd' s.log)
    (hpast : ∀ c ∈ connections fd s'.log, Intact seen' c)
    (hpresent : ∀ fd', (s'.clients i).fd = some fd' → fd' = fd ∧ ∃ c lives,
      connections fd s'.log = c :: lives ∧ Waiting seen' (s'.clients i).sse c) :
    Talk seen' s' := by
  constructor
  case past =>
    intro fd' c hc
    by_cases hfd : fd' = fd
    · exact hpast c (hfd ▸ hc)
    · rw [hlog fd' hfd] at hc
      exact (hs.past fd' c hc).mono h
  case present =>
    intro j fd' hj
    by_cases hji : j = i
    · subst hji
      obtain ⟨rfl, hnew⟩ := hpresent fd' hj
      exact hnew
    · rw [hother j hji] at hj ⊢
      obtain ⟨c, lives, hc, hwaiting⟩ := hs.present j fd' hj
      refine ⟨c, lives, ?_, hwaiting.mono h⟩
      rw [hlog fd' fun hfd => hdistinct j hji (hfd ▸ hj), hc]

/-- A turn that sends and then closes. -/
theorem Talk.closes {s s' : Server n} (hs : Talk seen s) (h : seen.Sublist seen') {i : Fin n}
    {fd : Fd} (hfd : (s.clients i).fd = some fd) (hother : ∀ j ≠ i, s'.clients j = s.clients j)
    (hdistinct : ∀ j ≠ i, (s.clients j).fd ≠ some fd) {pieces : List (List UInt8)}
    (hlog : s'.log = s.log ++ pieces.map (.sent fd) ++ [.closed fd])
    (hgone : (s'.clients i).fd = none)
    (hintact : ∀ c, Waiting seen (s.clients i).sse c →
      Intact seen' { c with sends := c.sends ++ pieces, closed := true }) : Talk seen' s' := by
  obtain ⟨c, lives, hc, hwaiting⟩ := hs.present i fd hfd
  have hnew := connections_closed (connections_sent hc hwaiting.opened pieces)
  rw [← hlog] at hnew
  refine hs.update h hother hdistinct (fun fd' hne => ?_) ?_ ?_
  · rw [hlog, connections_closed_of_ne hne.symm, connections_sent_of_ne hne.symm]
  · rw [hnew]
    refine List.forall_mem_cons.mpr ⟨hintact c hwaiting, fun c' hc' => ?_⟩
    exact (hs.past fd c' (hc ▸ List.mem_cons_of_mem c hc')).mono h
  · intro fd' hi
    rw [hgone] at hi
    cases hi

/-- A turn that only closes. -/
theorem Talk.closed_early {s s' : Server n} (hs : Talk seen s) {i : Fin n} {fd : Fd}
    (hfd : (s.clients i).fd = some fd) (hdistinct : ∀ j ≠ i, (s.clients j).fd ≠ some fd)
    (hother : ∀ j ≠ i, s'.clients j = s.clients j) (hlog : s'.log = s.log ++ [.closed fd])
    (hgone : (s'.clients i).fd = none) : Talk seen s' := by
  have hlog' : s'.log = s.log ++ ([] : List (List UInt8)).map (.sent fd) ++ [.closed fd] := by
    rwa [List.map_nil, List.append_nil]
  refine hs.closes (List.Sublist.refl seen) hfd hother hdistinct hlog' hgone fun c hc => ?_
  rw [List.append_nil]
  exact hc.intact true

/-- A turn that sends and leaves the connection open. -/
theorem Talk.goesOn {s s' : Server n} (hs : Talk seen s) (h : seen.Sublist seen') {i : Fin n}
    {fd : Fd} (hfd : (s.clients i).fd = some fd) (hother : ∀ j ≠ i, s'.clients j = s.clients j)
    (hdistinct : ∀ j ≠ i, (s.clients j).fd ≠ some fd) {pieces : List (List UInt8)}
    (hlog : s'.log = s.log ++ pieces.map (.sent fd)) (hkept : (s'.clients i).fd = some fd)
    (hwaits : ∀ c, Waiting seen (s.clients i).sse c →
      Waiting seen' (s'.clients i).sse { c with sends := c.sends ++ pieces }) :
    Talk seen' s' := by
  obtain ⟨c, lives, hc, hwaiting⟩ := hs.present i fd hfd
  have hnew := connections_sent hc hwaiting.opened pieces
  rw [← hlog] at hnew
  refine hs.update h hother hdistinct (fun fd' hne => ?_) ?_ ?_
  · rw [hlog, connections_sent_of_ne hne.symm]
  · rw [hnew]
    refine List.forall_mem_cons.mpr ⟨?_, fun c' hc' => ?_⟩
    · exact (hwaits c hwaiting).intact c.closed
    · exact (hs.past fd c' (hc ▸ List.mem_cons_of_mem c hc')).mono h
  · intro fd' hi
    rw [hkept] at hi
    cases hi
    exact ⟨rfl, _, lives, hnew, hwaits c hwaiting⟩

/-- Closing is the last event of the descriptor. -/
theorem clientClose_eq {s : Server n} {i : Fin n} {fd : Fd} (hfd : (s.clients i).fd = some fd) :
    (clientClose s i).log = s.log ++ [.closed fd] ∧ ((clientClose s i).clients i).fd = none := by
  simp only [clientClose, hfd]
  exact ⟨rfl, by rw [setClient_self]⟩

theorem Sound.distinct {cfg : NetConfig} {s : Server n} (hs : Sound cfg s) {i : Fin n} {fd : Fd}
    (hfd : (s.clients i).fd = some fd) : ∀ j ≠ i, (s.clients j).fd ≠ some fd := by
  intro j hj hfd'
  cases hs.accounted fd with
  | free k hlives hslots => exact hslots i hfd
  | held k hlives hslot => exact hj (hslot.unique hfd' hfd)

theorem serve_clients (cfg : NetConfig) (input : PassInput n) (i : Fin n) (fd : Fd)
    (s : Server n) : (∀ j ≠ i, (serve cfg input i fd s).2.clients j = s.clients j) ∧
      ((serve cfg input i fd s).2.clients i).fd = (s.clients i).fd ∧
      ((serve cfg input i fd s).1 = true →
        ((serve cfg input i fd s).2.clients i).sse = true) := by
  rcases serve_cases cfg input i fd s with ⟨hend, hquiet⟩ | hquiet
  · rw [hquiet.clients]
    exact ⟨fun _ _ => rfl, rfl, fun hkeep => absurd (hend.symm.trans hkeep) (by decide)⟩
  · rw [hquiet.clients]
    exact ⟨fun j hj => setClient_of_ne s hj _, by simp, by simp⟩

theorem requestSlot_talk {cfg : NetConfig} (input : PassInput n) (fds : List Pollfd)
    {s : Server n} (hs : Talk seen s) (hsound : Sound cfg s) (i : Fin n) :
    Talk (seen ++ [input.served i]) (requestSlot cfg input fds s i) := by
  have hsub : seen.Sublist (seen ++ [input.served i]) := List.sublist_append_left _ _
  unfold requestSlot
  split
  · exact hs.mono hsub
  next fd hfd =>
    have hdistinct := hsound.distinct hfd
    dsimp only
    split_ifs with hready hsse hkeep
    · exact hs.mono hsub
    · obtain ⟨hlog, hgone⟩ := clientClose_eq hfd
      have hclosed := hs.closed_early hfd hdistinct (fun j hj => clientClose_of_ne s hj) hlog hgone
      exact hclosed.mono hsub
    · obtain ⟨hother, hsame, -⟩ := serve_clients cfg input i fd s
      obtain ⟨hlog, hgone⟩ := clientClose_eq (hsame.trans hfd)
      rcases serve_speaks cfg input i fd s with
        ⟨-, script, pieces, torn, hscript, hfollows, hspeaks⟩ | h
      · rw [hspeaks] at hlog
        refine hs.closes hsub hfd (fun j hj => ?_) hdistinct hlog hgone fun c hc => ?_
        · rw [clientClose_of_ne _ hj, hother j hj]
        · obtain ⟨frames, -, hsends⟩ := hc.sends
          rw [if_neg hsse] at hsends
          refine ⟨hc.late, script, torn, hscript.mono (List.sublist_append_right _ _), ?_, ?_⟩
          · simpa [hsends] using hfollows
          · exact fun _ => rfl
      · simp [h.1] at hkeep
    · obtain ⟨hother, hsame, hstream⟩ := serve_clients cfg input i fd s
      rcases serve_speaks cfg input i fd s with ⟨hend, -⟩ | ⟨hkept, hspeaks⟩
      · simp [hend] at hkeep
      · refine hs.goesOn hsub hfd (fun j hj => ?_) hdistinct hspeaks ?_ fun c hc => ?_
        · rw [setClient_of_ne _ hj, hother j hj]
        · rw [setClient_self]
          exact hsame.trans hfd
        · obtain ⟨frames, -, hsends⟩ := hc.sends
          rw [if_neg hsse] at hsends
          refine ⟨hc.opened, hc.late, [input.served i], List.sublist_append_right _ _, ?_⟩
          rw [setClient_self, if_pos (hstream hkept), hsends]
          rfl

theorem reclaimSlot_talk {cfg : NetConfig} {s : Server n} (hs : Talk seen s)
    (hsound : Sound cfg s) (i : Fin n) : Talk seen (reclaimSlot s i) := by
  unfold reclaimSlot
  split
  · exact hs
  next fd hfd =>
    have hs' : Talk seen (uptime s).2 := ⟨hs.past, hs.present⟩
    dsimp only
    split_ifs
    · obtain ⟨hlog, hgone⟩ := clientClose_eq (s := (uptime s).2) hfd
      have hother (j : Fin n) (hj : j ≠ i) := clientClose_of_ne (uptime s).2 hj
      exact hs'.closed_early hfd (hsound.distinct hfd) hother hlog hgone
    · exact hs'

theorem pushSlot_talk {cfg : NetConfig} (input : PassInput n) {s : Server n}
    (hs : Talk seen s) (hsound : Sound cfg s) (i : Fin n) :
    Talk (seen ++ [input.pushed i]) (pushSlot cfg input s i) := by
  have hsub : seen.Sublist (seen ++ [input.pushed i]) := List.sublist_append_left _ _
  unfold pushSlot
  split
  · exact hs.mono hsub
  next fd hfd =>
    have hdistinct := hsound.distinct hfd
    have hquiet : Quiet s (pushEvent cfg fd (input.pushed i) s).2 := sendAll_quiet cfg fd _ s
    obtain ⟨piece, hframe, hspeaks⟩ := pushEvent_speaks cfg fd (input.pushed i) s
    dsimp only
    split_ifs with hsse hok
    · obtain ⟨hlog, hgone⟩ :=
        clientClose_eq ((congrArg Client.fd (congrFun hquiet.clients i)).trans hfd)
      rw [hspeaks] at hlog
      refine hs.closes hsub hfd (fun j hj => ?_) hdistinct hlog hgone fun c hc => ?_
      · rw [clientClose_of_ne _ hj, hquiet.clients]
      · rw [hsse] at hc
        obtain ⟨script, hscript, hfollows⟩ := hc.push hframe
        exact ⟨hc.late, script, _, hscript, hfollows, fun _ => rfl⟩
    · refine hs.goesOn hsub hfd (fun j _ => ?_) hdistinct hspeaks ?_ fun c hc => ?_
      · rw [hquiet.clients]
      · rw [hquiet.clients]
        exact hfd
      · rw [Bool.not_eq_true, Bool.not_eq_false'] at hok
        rw [hok] at hframe
        cases hframe
        rw [hsse] at hc
        obtain ⟨frames, hframes, hsends⟩ := hc.sends
        refine ⟨hc.opened, hc.late, frames ++ [input.pushed i], hframes.append_right _, ?_⟩
        rw [hquiet.clients, if_pos hsse, hsends, if_pos rfl, List.map_append]
        rfl
    · exact hs.mono hsub

end Turns

section Passes

variable {seen : List ReflowTelemetry}

theorem waiting_fresh : Waiting seen false ⟨[], false, []⟩ :=
  ⟨rfl, rfl, [], List.nil_sublist _, rfl⟩

/-- A descriptor that no slot held begins a life; the slot that holds it now, if there is
one, is new. -/
theorem Talk.opens {s s' : Server n} (hs : Talk seen s) {fd : Fd}
    (hfree : ∀ j, (s.clients j).fd ≠ some fd) {c : Connection} (hc : Intact seen c)
    (hnew : connections fd s'.log = c :: connections fd s.log)
    (hlog : ∀ fd' ≠ fd, connections fd' s'.log = connections fd' s.log)
    (hclients : ∀ j, s'.clients j = s.clients j ∨
      (s'.clients j).fd = some fd ∧ Waiting seen (s'.clients j).sse c) : Talk seen s' := by
  constructor
  case past =>
    intro fd' c' hc'
    by_cases hfd : fd' = fd
    · subst hfd
      rw [hnew] at hc'
      rcases List.mem_cons.mp hc' with rfl | hc'
      · exact hc
      · exact hs.past fd' c' hc'
    · rw [hlog fd' hfd] at hc'
      exact hs.past fd' c' hc'
  case present =>
    intro j fd' hj
    rcases hclients j with hsame | ⟨hheld, hwaiting⟩
    · rw [hsame] at hj ⊢
      have hne : fd' ≠ fd := fun hfd => hfree j (hfd ▸ hj)
      rw [hlog fd' hne]
      exact hs.present j fd' hj
    · obtain rfl : fd = fd' := Option.some.inj (hheld.symm.trans hj)
      exact ⟨c, _, hnew, hwaiting⟩

/-- A new connection has sent nothing; one too many is closed at once. -/
theorem acceptClient_talk {cfg : NetConfig} {fd : Fd} {s : Server n} (hs : Talk seen s)
    (hsound : Sound cfg s) (hopen : ¬StillOpen fd s.log) :
    Talk seen (acceptClient cfg fd s) := by
  have hfree := ((hsound.accounted fd).free_of_getLast hopen).2
  simp only [acceptClient]
  split
  · have hsplit : s.log ++ [.accepted fd s.now, .closed fd] =
        s.log ++ [.accepted fd s.now] ++ [.closed fd] := List.append_cons _ _ _
    refine hs.opens hfree (waiting_fresh.intact true) ?_ (fun fd' hne => ?_) fun j => .inl rfl
    · dsimp only
      rw [hsplit, connections_closed (connections_accepted fd s.log s.now)]
    · dsimp only
      rw [hsplit, connections_closed_of_ne hne.symm, connections_accepted_of_ne hne.symm]
  next i hi =>
    refine hs.opens hfree (waiting_fresh.intact false)
      (connections_accepted fd s.log (uptime s).1)
      (fun fd' hne => connections_accepted_of_ne hne.symm _) fun j => ?_
    by_cases hji : j = i
    · rw [hji, setClient_self]
      exact .inr ⟨rfl, waiting_fresh⟩
    · exact .inl (setClient_of_ne _ hji _)

/-- Each slot has its turn, with the snapshot that is taken in it. -/
theorem foldl_talk {cfg : NetConfig} {turn : Server n → Fin n → Server n}
    {snapshot : Fin n → ReflowTelemetry}
    (hturn : ∀ seen s i, Talk seen s → Sound cfg s → Talk (seen ++ [snapshot i]) (turn s i))
    (hsound : ∀ s i, Sound cfg s → Sound cfg (turn s i)) {s : Server n} (hs : Talk seen s)
    (h : Sound cfg s) (slots : List (Fin n)) :
    Talk (seen ++ slots.map snapshot) (slots.foldl turn s) := by
  induction slots generalizing seen s with
  | nil => simpa using hs
  | cons i slots ih =>
    rw [List.map_cons, List.append_cons, List.foldl_cons]
    exact ih (hturn seen s i hs h) (hsound s i h)

theorem acceptPhase_talk {cfg : NetConfig} {input : PassInput n} {s : Server n}
    (hs : Talk seen s) (hsound : Sound cfg s)
    (ha : ∀ fd, input.accept = some fd → ¬StillOpen fd s.log) (listener : Revents) :
    Talk seen (acceptPhase cfg input listener s) := by
  simp only [acceptPhase]
  split_ifs
  · split
    · exact hs
    next fd hfd => exact acceptClient_talk hs hsound (ha fd hfd)
  · exact hs

theorem passRequests_talk {cfg : NetConfig} {input : PassInput n} {s : Server n}
    (hs : Talk seen s) (hsound : Sound cfg s)
    (ha : ∀ fd, input.accept = some fd → ¬StillOpen fd s.log) (revents : ℕ → Revents) :
    Talk (seen ++ (List.finRange n).map input.served) (passRequests cfg input revents s) := by
  have hstart : Talk seen { s with delays := input.delays, sends := input.sends } :=
    ⟨hs.past, hs.present⟩
  have hstartSound : Sound cfg { s with delays := input.delays, sends := input.sends } :=
    Quiet.sound (s := s) (.of_eq rfl rfl) hsound
  exact foldl_talk (fun seen s i h h' => requestSlot_talk input _ h h' i)
    (fun s i h => requestSlot_sound input _ h i) (acceptPhase_talk hstart hstartSound ha _)
    (acceptPhase_sound hstartSound ha _) _

theorem reclaimPhase_talk {cfg : NetConfig} {s : Server n} (hs : Talk seen s)
    (hsound : Sound cfg s) : Talk seen (reclaimPhase s) := by
  have h := List.foldlRecOn (motive := fun t => Sound cfg t ∧ Talk seen t) (List.finRange n)
    reclaimSlot ⟨hsound, hs⟩ fun _ h i _ => ⟨reclaimSlot_sound h.1 i, reclaimSlot_talk h.2 h.1 i⟩
  exact h.2

theorem pushPhase_talk {cfg : NetConfig} (input : PassInput n) {s : Server n}
    (hs : Talk seen s) (hsound : Sound cfg s) :
    Talk (seen ++ (List.finRange n).map input.pushed) (pushPhase cfg input s) := by
  simp only [pushPhase]
  split_ifs
  · have hdue : Talk seen { (uptime (uptime s).2).2 with lastPush := (uptime (uptime s).2).1 } :=
      ⟨hs.past, hs.present⟩
    refine foldl_talk (fun seen s i h h' => pushSlot_talk input h h' i)
      (fun s i h => pushSlot_sound input h i) hdue ?_ _
    exact Quiet.sound (s := s) (.of_eq rfl rfl) hsound
  · have htime : Talk seen (uptime s).2 := ⟨hs.past, hs.present⟩
    exact htime.mono (List.sublist_append_left _ _)

/-- The snapshots of a pass, in the order in which they are taken. -/
def snapshots (input : PassInput n) : List ReflowTelemetry :=
  (List.finRange n).map input.served ++ (List.finRange n).map input.pushed

theorem pass_talk {cfg : NetConfig} {input : PassInput n} {s : Server n} (hs : Talk seen s)
    (hsound : Sound cfg s) (ha : ∀ fd, input.accept = some fd → ¬StillOpen fd s.log) :
    Talk (seen ++ snapshots input) (pass cfg s input) := by
  simp only [pass, snapshots]
  split
  · exact hs.mono (List.sublist_append_left _ _)
  · rw [← List.append_assoc]
    exact pushPhase_talk input
      (reclaimPhase_talk (passRequests_talk hs hsound ha _) (passRequests_sound hsound ha _))
      (reclaimPhase_sound (passRequests_sound hsound ha _))

/-- Over every run, what a connection accepted is a beginning of one response, whose head counts
its body, or of an event stream, with the events in the order of their snapshots; where a send
stopped inside its part, the connection is closed; and nothing is sent to it after that. -/
theorem connections_intact {cfg : NetConfig} {s : Server cfg.maxClients}
    (hstart : (httpd cfg).init s) {inputs : List (PassInput cfg.maxClients)}
    (h : (httpd cfg).Admitted s inputs) (fd : Fd) :
    ∀ c ∈ connections fd ((httpd cfg).run s inputs).log, c.late = [] ∧ ∃ script torn,
      Transcript (inputs.flatMap snapshots) script ∧ Follows script c.sends torn ∧
        (torn = true → c.closed = true) ∧ c.sends.flatten <+: script.flatten := by
  have hinit : Sound cfg s ∧ Talk (([] : List (PassInput cfg.maxClients)).flatMap snapshots) s := by
    refine ⟨sound_of_reachable (.start hstart), ?_, ?_⟩
    · simp [hstart.2.2.1, connections]
    · simp [hstart.1]
  have hrun := (httpd cfg).run_invariant_inputs
    (I := fun taken t => Sound cfg t ∧ Talk (taken.flatMap snapshots) t) ?_ hinit h
  · intro c hc
    obtain ⟨hlate, script, torn, hscript, hfollows, hclosed⟩ := hrun.2.past fd c hc
    exact ⟨hlate, script, torn, hscript.transcript, hfollows, hclosed, hfollows.flatten⟩
  · rintro taken t input ⟨hsound, htalk⟩ ha
    refine ⟨pass_sound hsound ha, ?_⟩
    rw [List.flatMap_append, List.flatMap_singleton]
    exact pass_talk htalk hsound ha

/-- A subscriber that stops reading three bytes into its first event. -/
def stalledStream : PassInput 4 :=
  { oneVisitor with
    accept := none
    recv := fun _ => ascii "GET /api/events HTTP/1.1\r\n\r\n"
    delays := []
    sends := [⟨.sent 200, 1⟩, ⟨.sent 3, 1⟩, ⟨.again, 600⟩] }

def stalledServer : Server 4 := (httpd siteConfig).run started [oneVisitor, stalledStream]

theorem connections_intact_stalled :
    connections 7 stalledServer.log = [⟨[eventsHeader, ascii "dat"], true, []⟩] ∧
      ∀ c ∈ connections 7 stalledServer.log, c.late = [] ∧ ∃ script torn,
        Transcript ([oneVisitor, stalledStream].flatMap snapshots) script ∧
          Follows script c.sends torn ∧ (torn = true → c.closed = true) ∧
            c.sends.flatten <+: script.flatten := by
  have hstart : (httpd siteConfig).init started := ⟨fun _ => rfl, rfl, rfl, rfl⟩
  have hvisit : (httpd siteConfig).admits started oneVisitor :=
    fun fd _ => by simp [StillOpen, started]
  have hstall : (httpd siteConfig).admits (pass siteConfig started oneVisitor) stalledStream :=
    fun fd h => by simp [stalledStream] at h
  have hadmitted : (httpd siteConfig).Admitted started [oneVisitor, stalledStream] :=
    ⟨hvisit, hstall, trivial⟩
  exact ⟨by decide +kernel, connections_intact hstart hadmitted 7⟩

end Passes

end ReflowOven.Httpd
