import ReflowOven.Appliance
import ReflowOven.CommandAuthorisation
import ReflowOven.CommandEncodings
import ReflowOven.OperatorPage

/-!
# What the page says of a click

A click of the page is a request to the server, and the answer to it is what the page says.
Whatever the browser sends after the request line, however much of the request the server
receives at once and however much of the answer gets back to the page, the page says nothing
only where the server has posted the command of the click.
-/

namespace ReflowOven.ClickAnswers

open CommandAcceptance CommandAuthorisation CommandEncodings CommandQueryGrammar GateSoundness Httpd
  HttpResponseGrammar OperatorPage

variable {n : ℕ}

/-- The controls of the page that send a command; the selector has a value when it is used. -/
inductive Click
  | start
  | stop
  | clear
  | profile (v : ℕ)

/-- The query that `cmd` makes up. -/
def Click.query : Click → List UInt8
  | .start => ascii "id=start"
  | .stop => ascii "id=stop"
  | .clear => ascii "id=clear"
  | .profile v => ascii "id=profile&arg=" ++ decimalText v

/-- The request line up to its line feed. -/
def Click.requestLine (click : Click) : List UInt8 :=
  ascii "POST" ++ 0x20 :: (cmdTarget ++ 0x3F :: click.query ++ 0x20 :: ascii "HTTP/1.1\r")

/-- The command that the control stands for, if the oven has the profile. -/
def Click.command : Click → Option ReflowCmd
  | .start => some ⟨ReflowCmdId.start.toU8, 0⟩
  | .stop => some ⟨ReflowCmdId.stop.toU8, 0⟩
  | .clear => some ⟨ReflowCmdId.clearFault.toU8, 0⟩
  | .profile v =>
    if v < reflowProfileCount then some ⟨ReflowCmdId.selectProfile.toU8, v⟩ else none

def Click.event : Click → Event
  | .start | .stop | .clear => .click
  | .profile v => .pick v

section Query

theorem percentEncodes_self {plain : UInt8 → Prop} [DecidablePred plain] {s : List UInt8}
    (h : s.all plain = true) : PercentEncodes plain s s := by
  induction s with
  | nil => exact .nil
  | cons c s ih =>
    rw [List.all_cons, Bool.and_eq_true, decide_eq_true_eq] at h
    exact .plain h.1 (ih h.2)

/-- The pairs of a query that fit are what is read of it. -/
theorem reads_of_encodes {pairs : List (List UInt8 × List UInt8)} {q : CString}
    (hnul : ∀ pair ∈ pairs, NulFree pair) (hfits : ∀ pair ∈ pairs, Fits pair)
    (h : EncodesQuery pairs q.bytes) : List.Forall₂ Reads (segments q.bytes) pairs := by
  obtain ⟨segs, hsegs, hquery⟩ := h
  obtain ⟨hviews, hany⟩ := views_of_encodes hsegs hnul
  have hsegments : segments q.bytes = segs := by
    rw [hquery, segments_joined (forall_of_encodes hsegs)]
  refine (forall₂_reads_iff (notMem_segments q.noNul) _).mpr ⟨?_, ?_⟩
  · rw [hsegments, hany]
    simpa using hfits
  · rw [hsegments, hviews, map_tokens hfits]

/-- The pairs of a click. -/
def Click.pairs : Click → List (List UInt8 × List UInt8)
  | .start => [(ascii "id", ascii "start")]
  | .stop => [(ascii "id", ascii "stop")]
  | .clear => [(ascii "id", ascii "clear")]
  | .profile v => [(ascii "id", ascii "profile"), (ascii "arg", decimalText v)]

theorem encodesQuery_click (click : Click) : EncodesQuery click.pairs click.query := by
  have hid : PercentEncodes KeyByte (ascii "id") (ascii "id") := percentEncodes_self (by decide)
  have harg : PercentEncodes KeyByte (ascii "arg") (ascii "arg") :=
    percentEncodes_self (by decide)
  have hname (name : List UInt8) (h : name.all (ValueByte ·) = true) :
      EncodesPair (ascii "id", name) (ascii "id=" ++ name) :=
    ⟨ascii "id", name, rfl, hid, percentEncodes_self h⟩
  cases click with
  | start => exact ⟨[_], .cons (hname (ascii "start") (by decide)) .nil, by decide⟩
  | stop => exact ⟨[_], .cons (hname (ascii "stop") (by decide)) .nil, by decide⟩
  | clear => exact ⟨[_], .cons (hname (ascii "clear") (by decide)) .nil, by decide⟩
  | profile v =>
    have hdigits : (decimalText v).all (ValueByte ·) = true := by
      refine List.all_eq_true.mpr fun c hc => decide_eq_true ?_
      have hdigit := digit_of_mem_decimalText hc
      refine ⟨?_, ?_, ?_⟩ <;>
        · rintro rfl
          exact absurd hdigit (by decide)
    have hpick : EncodesPair (ascii "arg", decimalText v) (ascii "arg=" ++ decimalText v) :=
      ⟨ascii "arg", decimalText v, rfl, harg, percentEncodes_self hdigits⟩
    refine ⟨[_, _], .cons (hname (ascii "profile") (by decide)) (.cons hpick .nil), ?_⟩
    simp [Click.query, List.intercalate, ascii]

theorem nulFree_click (click : Click) : ∀ pair ∈ click.pairs, NulFree pair := by
  intro pair hpair
  cases click with
  | profile v =>
    simp only [Click.pairs, List.mem_cons, List.not_mem_nil, or_false] at hpair
    obtain rfl | rfl := hpair
    · exact ⟨by decide, by decide⟩
    · exact ⟨by simp [ascii], noNul_decimalText v⟩
  | _ =>
    obtain rfl := List.mem_singleton.mp hpair
    exact ⟨by decide, by decide⟩

/-- The identifier of a click. -/
def Click.id : Click → ReflowCmdId
  | .start => .start
  | .stop => .stop
  | .clear => .clearFault
  | .profile _ => .selectProfile

theorem valuesOf_id (click : Click) : valuesOf "id" click.pairs = [commandName click.id] := by
  cases click with
  | profile v => simp [valuesOf, Click.pairs, Click.id, commandName, ascii]
  | start | stop | clear => decide

theorem valuesOf_arg_pick (v : ℕ) : valuesOf "arg" (Click.profile v).pairs = [decimalText v] := by
  simp [valuesOf, Click.pairs, ascii]

/-- The command that the pairs of a click make up is its own. -/
theorem command_of_pairs {click : Click} {id : ReflowCmdId} {arg : Option ℕ}
    (hid : valuesOf "id" click.pairs = [commandName id]) (harg : Argument click.pairs arg)
    (hrange : id = .selectProfile → ∃ v, arg = some v ∧ v < reflowProfileCount) :
    click.command = some (command id arg) := by
  have hname : commandName click.id = commandName id :=
    List.singleton_inj.mp ((valuesOf_id click).symm.trans hid)
  obtain rfl : click.id = id := Option.some.inj
    (((commandId_eq_some_iff _ _).mpr rfl).symm.trans ((commandId_eq_some_iff _ _).mpr hname))
  cases click with
  | profile v =>
    obtain ⟨n, rfl, hn⟩ := hrange rfl
    cases harg with
    | given htext hn' =>
      obtain rfl := List.singleton_inj.mp ((valuesOf_arg_pick v).symm.trans htext)
      obtain ⟨-, -, hvalue, -⟩ := hn'
      obtain rfl : v = n := (foldl_decimalText v).symm.trans hvalue
      exact if_pos hn
  | start | stop | clear => rfl

theorem isIndex_decimalText {v : ℕ} (hv : v ≤ 65535) : IsIndex (decimalText v) v := by
  refine ⟨decimalText_ne_nil v, fun c hc => ?_, foldl_decimalText v, hv⟩
  obtain ⟨hlow, hhigh⟩ := digit_of_mem_decimalText hc
  exact ⟨UInt8.le_iff_toNat_le.mpr hlow, UInt8.le_iff_toNat_le.mpr hhigh⟩

theorem accepts_of_command {click : Click} {c : ReflowCmd} (h : click.command = some c)
    {segs : List (List UInt8)} (hreads : List.Forall₂ Reads segs click.pairs) :
    Accepts segs c := by
  have hid := valuesOf_id click
  cases click with
  | profile v =>
    rw [Click.command, Option.ite_none_right_eq_some] at h
    obtain ⟨hv, hc⟩ := h
    obtain rfl := Option.some.inj hc
    have hindex : IsIndex (decimalText v) v := isIndex_decimalText (by
      rw [reflowProfileCount_eq] at hv
      omega)
    exact .profile hreads hid (.given (valuesOf_arg_pick v) hindex) hv
  | start | stop | clear =>
    obtain rfl := Option.some.inj h
    exact .plain hreads hid (.absent (by decide)) (by decide)

theorem fits_click {click : Click} {c : ReflowCmd} (h : click.command = some c) :
    ∀ pair ∈ click.pairs, Fits pair := by
  intro pair hpair
  cases click with
  | profile v =>
    rw [Click.command, Option.ite_none_right_eq_some] at h
    have hv : v < 10 := by
      rw [reflowProfileCount_eq] at h
      omega
    simp only [Click.pairs, List.mem_cons, List.not_mem_nil, or_false] at hpair
    obtain rfl | rfl := hpair
    · decide
    · rw [decimalText_of_lt hv]
      exact ⟨by simp [ascii], by simp⟩
  | start | stop | clear =>
    obtain rfl := List.mem_singleton.mp hpair
    decide

/-- The query of a click says its command and nothing else. -/
theorem accepts_click_iff (click : Click) {q : CString} (hq : q.bytes = click.query)
    (c : ReflowCmd) : Accepts (segments q.bytes) c ↔ click.command = some c := by
  have hnul := nulFree_click click
  have hencodes : EncodesQuery click.pairs q.bytes := hq ▸ encodesQuery_click click
  constructor
  · intro hacc
    obtain ⟨hfits, -⟩ := spelt_of_accepts hnul hencodes hacc
    have hreads := reads_of_encodes hnul hfits hencodes
    obtain ⟨-, hview⟩ := (forall₂_reads_iff (notMem_segments q.noNul) _).mp hreads
    obtain ⟨id, arg, hleg, rfl⟩ := (accepts_iff_legible (notMem_segments q.noNul) c).mp hacc
    exact command_of_pairs (hview ▸ hleg.id_once) (hview ▸ hleg.argument) hleg.in_range
  · intro hcommand
    exact accepts_of_command hcommand (reads_of_encodes hnul (fits_click hcommand) hencodes)

theorem reflowCmdParse_click (click : Click) {q : CString} (hq : q.bytes = click.query) :
    reflowCmdParse (some q) ⟨0, 0⟩ =
      (click.command.elim .reject fun _ => .ok, click.command.getD ⟨0, 0⟩) := by
  have haccepts := accepts_click_iff click hq
  cases hcommand : click.command with
  | some c => exact reflowCmdParse_of_accepts ((haccepts c).mpr hcommand) _
  | none =>
    have hencodes : EncodesQuery click.pairs q.bytes := hq ▸ encodesQuery_click click
    obtain ⟨c, hacc, -⟩ | ⟨-, ⟨hstop, -⟩ | ⟨-, he⟩⟩ := reflowCmdParse_cases q ⟨0, 0⟩
    · exact absurd ((haccepts c).mp hacc) (by simp [hcommand])
    · have hmem := spelt_of_asksStop (nulFree_click click) hencodes hstop
      cases click with
      | profile v => simp [Click.pairs, ascii] at hmem
      | _ => exact absurd hcommand (by simp [Click.command])
    · exact he

end Query

section Routes

/-- A beginning of a text that has the mark in it has all that stands before the mark. -/
theorem eq_of_prefix_of_mem {α : Type*} {l r p : List α} {c : α} (h : p <+: l ++ c :: r)
    (hl : c ∉ l) (hp : c ∈ p) : ∃ t, p = l ++ c :: t := by
  obtain hshort | ⟨t, rfl⟩ := List.prefix_or_prefix_of_prefix h (List.prefix_append l _)
  · exact absurd (hshort.mem hp) hl
  · have ht : t <+: c :: r := (List.prefix_append_right_inj l).mp h
    cases t with
    | nil => exact absurd (by simpa using hp) hl
    | cons d t =>
      obtain ⟨rfl, -⟩ := List.cons_prefix_cons.mp ht
      exact ⟨t, rfl⟩

theorem notMem_query (click : Click) : 0x0A ∉ click.query ∧ 0x20 ∉ click.query := by
  cases click with
  | profile v =>
    have hdigits {c : UInt8} (hc : ¬(0x30 ≤ c.toNat ∧ c.toNat ≤ 0x39)) : c ∉ decimalText v :=
      fun hmem => hc (digit_of_mem_decimalText hmem)
    have hfeed : (0x0A : UInt8) ∉ decimalText v := hdigits (by decide)
    have hspace : (0x20 : UInt8) ∉ decimalText v := hdigits (by decide)
    simp [Click.query, ascii, hfeed, hspace]
  | start | stop | clear => exact ⟨by decide, by decide⟩

theorem notMem_requestLine (click : Click) : 0x0A ∉ click.requestLine := by
  simp [Click.requestLine, cmdTarget, ascii, (notMem_query click).1]

/-- Where the server gets to with what it has received of a click. -/
theorem serveRoute_click (token : CString) (click : Click) {rest buf : List UInt8}
    (hbuf : buf <+: click.requestLine ++ 0x0A :: rest) :
    serveRoute token buf = .drop ∨
      (∃ gate, gate ≠ .allow ∧ serveRoute token buf = .refuse gate) ∨
      serveRoute token buf = .notFound ∨
      ∃ q, serveRoute token buf = .cmd (some q) ∧ q.bytes = click.query := by
  have hprefix : (CString.ofBuffer buf).bytes <+: click.requestLine ++ 0x0A :: rest :=
    (List.takeWhile_prefix _).trans hbuf
  simp only [serveRoute]
  cases hsplit : splitRequest (CString.ofBuffer buf) with
  | none => exact .inl rfl
  | some parts =>
    obtain ⟨method, target, query⟩ := parts
    dsimp only
    by_cases hgate : reflowGateCheck (some (CString.ofBuffer buf)) (some token) = .allow
    · have hget : method.bytes ≠ ascii "GET" := by
        rw [(eq_of_splitRequest hsplit).1]
        cases hbytes : (CString.ofBuffer buf).bytes with
        | nil => simp [ascii]
        | cons c s =>
          rw [hbytes] at hprefix
          obtain rfl : c = 0x50 := (List.cons_prefix_cons.mp hprefix).1
          rw [List.takeWhile_cons_of_pos (by decide)]
          exact fun h => absurd (List.cons.inj h).1 (by decide)
      rw [if_neg (not_not.mpr hgate), if_neg hget]
      by_cases hcmd : method.bytes = ascii "POST" ∧ target.bytes = ascii "/api/cmd"
      · obtain ⟨lineEnd, -, -, hline, -⟩ := allow_cases hgate
        have hfeed : 0x0A ∈ (CString.ofBuffer buf).bytes := by
          rw [(eq_append_of_strstr hline).1]
          simp [crlf]
        obtain ⟨t, ht⟩ := eq_of_prefix_of_mem hprefix (notMem_requestLine click) hfeed
        have hwhole : (CString.ofBuffer buf).bytes = ascii "POST" ++ 0x20 ::
            (cmdTarget ++ 0x3F :: click.query ++ 0x20 :: (ascii "HTTP/1.1\r" ++ 0x0A :: t)) := by
          rw [ht, Click.requestLine]
          simp only [List.append_assoc, List.cons_append]
        obtain ⟨_, _, q, hparts, -, -, hq⟩ :=
          splitRequest_post hwhole (notMem_query click).2
        rw [hsplit] at hparts
        obtain ⟨-, hrest⟩ := Prod.mk.inj (Option.some.inj hparts)
        obtain ⟨-, rfl⟩ := Prod.mk.inj hrest
        rw [if_pos hcmd]
        exact .inr (.inr (.inr ⟨q, rfl, hq⟩))
      · rw [if_neg hcmd]
        exact .inr (.inr (.inl rfl))
    · rw [if_pos hgate]
      exact .inr (.inl ⟨_, hgate, rfl⟩)

end Routes

section Answers

/-- What the browser makes of an answer that has arrived up to here. -/
def answerOf (received : List UInt8) : Event :=
  if (strstr (crlf ++ crlf) received).isSome then .answer (decimal ((received.drop 9).take 3))
  else .failure

/-- A header that has arrived in part is no answer, or the answer it begins. -/
theorem answerOf_of_prefix {status : List UInt8} (hstatus : status ∈ statusTexts)
    (ctype : List UInt8) {received : List UInt8}
    (h : received <+: responseHeader status ctype 0) :
    answerOf received = .failure ∨ answerOf received = .answer (decimal (status.take 3)) := by
  have hcode : ∀ status ∈ statusTexts,
      (status.take 3).length = 3 ∧ 0x0D ∉ ascii "HTTP/1.1 " ++ status.take 3 := by
    simp [statusTexts, ascii]
  obtain ⟨hlen, hreturn⟩ := hcode status hstatus
  have hheader : ∃ rest, responseHeader status ctype 0 =
      ascii "HTTP/1.1 " ++ status.take 3 ++ rest := by
    refine ⟨status.drop 3 ++ (ascii "\r\nContent-Type: " ++ (ctype ++ (ascii
      "\r\nContent-Length: " ++ (decimalText 0 ++ ascii
        "\r\nCache-Control: no-store\r\nConnection: close\r\n\r\n")))), ?_⟩
    conv_lhs => rw [responseHeader, ← List.take_append_drop 3 status]
    simp only [List.append_assoc]
  obtain ⟨rest, hheader⟩ := hheader
  rw [hheader] at h
  cases hend : strstr (crlf ++ crlf) received with
  | none => exact .inl (by simp [answerOf, hend])
  | some k =>
    right
    obtain hshort | ⟨t, rfl⟩ := List.prefix_or_prefix_of_prefix h (List.prefix_append _ _)
    · refine absurd (hshort.mem ?_) hreturn
      rw [(eq_append_of_strstr hend).1]
      simp [crlf]
    · have htake : ((ascii "HTTP/1.1 " ++ status.take 3 ++ t).drop 9).take 3 = status.take 3 := by
        rw [List.append_assoc, List.drop_left' (by simp [ascii]), List.take_left' hlen]
      rw [answerOf, hend, htake]
      rfl

/-- What the page says after a click and its answer. -/
def said (page : Session) (click : Click) (answer : Event) : List UInt8 :=
  (session.run page [click.event, answer]).page.msg

theorem said_failure (page : Session) (click : Click) :
    said page click .failure = ascii "sem resposta do forno" := by
  cases click <;> rfl

theorem said_answer (page : Session) (click : Click) (status : ℕ) :
    said page click (.answer status) = (notice status).getD [] := by
  cases click <;>
    simp [said, session, Click.event, Session.cmd, Page.say, elim_say]

/-- The click is done, or it is not and the page says so. -/
inductive Told (click : Click) (posted posted' : List ReflowCmd) (told : List UInt8) : Prop
  | done {c : ReflowCmd} (hc : click.command = some c) (hposted : posted' = posted ++ [c])
      (htold : told = [] ∨ told = ascii "sem resposta do forno")
  | refused (hposted : posted' = posted) (htold : told ≠ [])

variable {cfg : NetConfig} {fd : Fd} {s : Server n} {click : Click}

/-- Between `s` and `s'` the server has answered on `fd`, and whatever has arrived of the answer
makes the page tell the truth. -/
def Honest (fd : Fd) (click : Click) (s s' : Server n) : Prop :=
  ∃ pieces, Speaks fd pieces s s' ∧ ∀ page received, received <+: pieces.flatten →
    Told click s.posted s'.posted (said page click (answerOf received))

theorem honest_silent (s : Server n) : Honest fd click s s := by
  refine ⟨[], by simp [Speaks], fun page received hreceived => ?_⟩
  obtain rfl : received = [] := List.prefix_nil.mp hreceived
  refine .refused rfl ?_
  rw [show answerOf [] = .failure from rfl, said_failure]
  decide

/-- A response that goes with a refusal. -/
theorem honest_refusal {status : List UInt8} (hstatus : status ∈ statusTexts)
    (hnotice : (notice (decimal (status.take 3))).getD [] ≠ []) :
    Honest fd click s (sendResponse cfg fd status (ascii "text/plain") [] s).2 := by
  obtain ⟨pieces, torn, hfollows, hspeaks⟩ :=
    sendResponse_speaks cfg fd status (ascii "text/plain") [] s
  refine ⟨pieces, hspeaks, fun page received hreceived => ?_⟩
  have hprefix := hreceived.trans hfollows.flatten
  simp only [List.flatten_cons, List.flatten_nil, List.append_nil, List.length_nil] at hprefix
  refine .refused (sendResponse_posted cfg fd s _ _ _) ?_
  obtain he | he := answerOf_of_prefix hstatus _ hprefix
  · rw [he, said_failure]
    decide
  · rwa [he, said_answer]

/-- The command that is posted before the answer. -/
theorem honest_done {c : ReflowCmd} (hc : click.command = some c) :
    Honest fd click s (sendResponse cfg fd (ascii "204 No Content") (ascii "text/plain") []
      { s with posted := s.posted ++ [c] }).2 := by
  obtain ⟨pieces, torn, hfollows, hspeaks⟩ := sendResponse_speaks cfg fd
    (ascii "204 No Content") (ascii "text/plain") [] { s with posted := s.posted ++ [c] }
  refine ⟨pieces, hspeaks, fun page received hreceived => ?_⟩
  have hprefix := hreceived.trans hfollows.flatten
  simp only [List.flatten_cons, List.flatten_nil, List.append_nil, List.length_nil] at hprefix
  refine .done hc (sendResponse_posted cfg fd _ _ _ _) ?_
  obtain he | he := answerOf_of_prefix (by simp [statusTexts]) _ hprefix
  · rw [he]
    exact .inr (said_failure page click)
  · rw [he]
    exact .inl (said_answer page click 204)

theorem handleCmd_honest {q : CString} (hq : q.bytes = click.query) (queueTakes : Bool) :
    Honest fd click s (Httpd.handleCmd cfg fd (some q) queueTakes s).2 := by
  have hparse := reflowCmdParse_click click hq
  cases hcommand : click.command with
  | none =>
    rw [hcommand] at hparse
    simp only [Httpd.handleCmd, hparse, Option.elim_none, if_true]
    exact honest_refusal (by simp [statusTexts]) (by decide)
  | some c =>
    rw [hcommand] at hparse
    cases queueTakes with
    | false =>
      simp only [Httpd.handleCmd, hparse, Option.elim_some, reduceCtorEq, if_false, Bool.not_false,
        if_true]
      exact honest_refusal (by simp [statusTexts]) (by decide)
    | true =>
      simp only [Httpd.handleCmd, hparse, Option.elim_some, Option.getD_some, reduceCtorEq,
        if_false, Bool.not_true, Bool.false_eq_true]
      exact honest_done hcommand

/-- The page tells the truth about a click. Whatever the browser sends after the request line,
whatever token it has, and however much of the request and of the answer gets through: either
the server has posted the command of the click, and the page says nothing or that there was no
answer; or it has posted nothing, and the page says so. -/
theorem page_tells_the_truth (cfg : NetConfig) (input : PassInput n) (i : Fin n) (fd : Fd)
    (s : Server n) (click : Click) {rest : List UInt8}
    (hrecv : input.recv i <+: click.requestLine ++ 0x0A :: rest) :
    ∃ pieces, Speaks fd pieces s (serve cfg input i fd s).2 ∧
      ∀ page received, received <+: pieces.flatten →
        Told click s.posted (serve cfg input i fd s).2.posted
          (said page click (answerOf received)) := by
  change Honest fd click s (serve cfg input i fd s).2
  simp only [serve]
  by_cases hnil : input.recv i = []
  · rw [if_pos hnil]
    exact honest_silent s
  · rw [if_neg hnil]
    obtain he | ⟨gate, hgate, he⟩ | he | ⟨q, he, hq⟩ := serveRoute_click cfg.token click hrecv
    · simp only [he]
      exact honest_silent s
    · simp only [he]
      refine honest_refusal (reflowGateStatus_mem hgate) ?_
      cases gate with
      | allow => exact absurd rfl hgate
      | badRequest | unauthorized | forbidden | methodNotAllowed | disabled => decide
    · simp only [he]
      exact honest_refusal (by simp [statusTexts]) (by decide)
    · simp only [he]
      exact handleCmd_honest hq _

open Appliance in
theorem page_tells_the_truth_start :
    (serve tokenSite asksStart 0 7 started).2.posted = [⟨ReflowCmdId.start.toU8, 0⟩] ∧
      ∃ pieces, Speaks 7 pieces started (serve tokenSite asksStart 0 7 started).2 ∧
        ∀ page received, received <+: pieces.flatten →
          Told .start started.posted (serve tokenSite asksStart 0 7 started).2.posted
            (said page .start (answerOf received)) := by
  have hrecv : asksStart.recv 0 <+: Click.start.requestLine ++
      0x0A :: ascii "Host: 10.0.0.2\r\nX-Reflow-Token: k3y\r\n\r\n" := ⟨[], by decide⟩
  exact ⟨by decide +kernel, page_tells_the_truth tokenSite asksStart 0 7 started .start hrecv⟩

end Answers

end ReflowOven.ClickAnswers
