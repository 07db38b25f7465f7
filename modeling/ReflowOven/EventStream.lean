import ReflowOven.Appliance
import ReflowOven.LineStreams
import ReflowOven.TelemetryRoundTrip

/-!
# What the page hears over HTTP

The `EventSource` of the page: what has arrived of a connection is cut off its header and read
line by line, a blank line closes an event, and the data of each event is parsed as JSON. An
event that a connection breaks off is never closed. Byte order marks and the fields that only
bear on a reconnection are left out.
-/

namespace ReflowOven.EventStream

open Httpd HttpResponseGrammar JsonReader LineStreams

/-- The line ends of an event stream as line feeds, `cr` after a carriage return. -/
def unified (cr : Bool) : List UInt8 → List UInt8
  | [] => []
  | c :: s =>
    if c = 0x0D then 0x0A :: unified true s
    else if c = 0x0A ∧ cr then unified false s
    else c :: unified false s

/-- The data and the type of the event begun, and the data of the messages so far. -/
structure Interpreter where
  data : List UInt8
  type : List UInt8
  messages : List (List UInt8)

def Interpreter.dispatch (it : Interpreter) : Interpreter where
  data := []
  type := []
  messages :=
    if it.data ≠ [] ∧ (it.type = [] ∨ it.type = ascii "message") then
      it.messages ++ [it.data.dropLast]
    else it.messages

def Interpreter.field (it : Interpreter) (name value : List UInt8) : Interpreter :=
  if name = ascii "data" then { it with data := it.data ++ value ++ [0x0A] }
  else if name = ascii "event" then { it with type := value }
  else it

/-- A comment is a field without a name. -/
def Interpreter.line (it : Interpreter) (l : List UInt8) : Interpreter :=
  if l = [] then it.dispatch
  else
    let value := (l.dropWhile (· ≠ 0x3A)).tail
    it.field (l.takeWhile (· ≠ 0x3A)) (if value.head? = some 0x20 then value.tail else value)

def messages (stream : List UInt8) : List (List UInt8) :=
  ((lines 0x0A (unified false stream)).foldl Interpreter.line ⟨[], [], []⟩).messages

/-- What `onmessage` is given, when this has arrived. -/
def onMessage (received : List UInt8) : List (List UInt8) :=
  match strstr (ascii "\r\n\r\n") received with
  | some k => messages (received.drop (k + 4))
  | none => []

/-- What `update` is given; `none` stands for a message that does not parse. -/
def heard (received : List UInt8) : List (Option Json) := (onMessage received).map readJson

theorem unified_of_notMem {s : List UInt8} (h : 0x0D ∉ s) : unified false s = s := by
  induction s with
  | nil => rfl
  | cons c s ih =>
    obtain ⟨hc, hs⟩ := List.ne_and_not_mem_of_not_mem_cons h
    rw [unified, if_neg (Ne.symm hc), if_neg (by simp), ih hs]

def dataLine (t : ReflowTelemetry) : List UInt8 := ascii "data: " ++ reflowTelemetryJson t

theorem dataFrame_eq (t : ReflowTelemetry) : dataFrame t = dataLine t ++ [0x0A] ++ [0x0A] := by
  simp [dataFrame, dataLine, ascii]

theorem visible_dataLine (t : ReflowTelemetry) : Visible (dataLine t) :=
  visible_append.mpr ⟨by decide, visible_reflowTelemetryJson t⟩

/-- The lines of one event. -/
def eventLines (t : ReflowTelemetry) : List (List UInt8) := [dataLine t, []]

theorem flatten_dataFrames (frames : List ReflowTelemetry) :
    (frames.map dataFrame).flatten = terminated 0x0A (frames.flatMap eventLines) := by
  induction frames with
  | nil => rfl
  | cons t frames ih =>
    rw [List.map_cons, List.flatten_cons, ih, List.flatMap_cons, terminated_append, dataFrame_eq]
    simp [eventLines]

theorem line_data (it : Interpreter) (t : ReflowTelemetry) :
    it.line (dataLine t) = { it with data := it.data ++ reflowTelemetryJson t ++ [0x0A] } := by
  have hline : dataLine t = ascii "data" ++ 0x3A :: 0x20 :: reflowTelemetryJson t := by
    simp [dataLine, ascii]
  have hcolon : (0x3A : UInt8) ∉ ascii "data" := by decide
  rw [Interpreter.line, if_neg (by simp [hline]), hline, takeWhile_ne_append_cons hcolon,
    tail_dropWhile_ne_append_cons hcolon]
  rfl

/-- Each whole frame is one message. -/
theorem foldl_eventLines (frames : List ReflowTelemetry) (ms : List (List UInt8)) :
    (frames.flatMap eventLines).foldl Interpreter.line ⟨[], [], ms⟩ =
      ⟨[], [], ms ++ frames.map reflowTelemetryJson⟩ := by
  induction frames generalizing ms with
  | nil => simp
  | cons t frames ih =>
    have hevent : (eventLines t).foldl Interpreter.line ⟨[], [], ms⟩ =
        ⟨[], [], ms ++ [reflowTelemetryJson t]⟩ := by
      rw [eventLines, List.foldl_cons, line_data]
      simp [Interpreter.line, Interpreter.dispatch]
    rw [List.flatMap_cons, List.foldl_append, hevent, ih, List.map_cons, List.append_assoc]
    rfl

/-- A frame that is broken off is no message. -/
theorem foldl_broken {t : ReflowTelemetry} {p : List UInt8} (hp : p <+: dataFrame t)
    (hne : p ≠ dataFrame t) (ms : List (List UInt8)) :
    ((lines 0x0A p).foldl Interpreter.line ⟨[], [], ms⟩).messages = ms := by
  have hline := notMem_of_visible (visible_dataLine t) (c := 0x0A) (by decide)
  rw [dataFrame_eq] at hp hne
  have hshort := (List.prefix_concat_iff.mp hp).resolve_left hne
  obtain rfl | hdata := List.prefix_concat_iff.mp hshort
  · have hone : dataLine t ++ [0x0A] = terminated 0x0A [dataLine t] ++ [] := by simp
    rw [hone, lines_terminated (List.forall_mem_singleton.mpr hline), lines_of_notMem (by simp)]
    rw [List.append_nil, List.foldl_cons, line_data]
    rfl
  · rw [lines_of_notMem fun hmem => hline (hdata.mem hmem)]
    rfl

theorem notMem_eventLines (frames : List ReflowTelemetry) {c : UInt8} (hc : c < 0x20) :
    ∀ l ∈ frames.flatMap eventLines, c ∉ l := by
  intro l hl
  obtain ⟨t, -, ht⟩ := List.mem_flatMap.mp hl
  simp only [eventLines, List.mem_cons, List.not_mem_nil, or_false] at ht
  obtain rfl | rfl := ht
  · exact notMem_of_visible (visible_dataLine t) hc
  · exact List.not_mem_nil

theorem notMem_dataFrame (t : ReflowTelemetry) : 0x0D ∉ dataFrame t := by
  have hline := notMem_of_visible (visible_dataLine t) (c := 0x0D) (by decide)
  simp [dataFrame_eq, hline]

/-- What has arrived of the frames is the messages of those that have arrived whole. -/
theorem messages_of_cut {frames : List ReflowTelemetry} {k : ℕ} {p : List UInt8}
    (h : Cut (frames.map dataFrame) k p) :
    messages (((frames.map dataFrame).take k).flatten ++ p) =
      (frames.take k).map reflowTelemetryJson := by
  have hp : 0x0D ∉ p ∧ ∀ ms,
      ((lines 0x0A p).foldl Interpreter.line ⟨[], [], ms⟩).messages = ms := by
    obtain ⟨-, rfl⟩ | ⟨part, hpart, hpre, hne⟩ := h
    · exact ⟨List.not_mem_nil, fun ms => rfl⟩
    · obtain ⟨t, -, rfl⟩ := List.mem_map.mp (List.mem_of_getElem? hpart)
      exact ⟨fun hmem => notMem_dataFrame t (hpre.mem hmem), foldl_broken hpre hne⟩
  have hframes : 0x0D ∉ ((frames.take k).map dataFrame).flatten := by
    intro hmem
    obtain ⟨frame, hframe, hmem⟩ := List.mem_flatten.mp hmem
    obtain ⟨t, -, rfl⟩ := List.mem_map.mp hframe
    exact notMem_dataFrame t hmem
  have hstream : 0x0D ∉ ((frames.take k).map dataFrame).flatten ++ p := by
    simp only [List.mem_append, hframes, hp.1, or_self, not_false_eq_true]
  rw [← List.map_take, messages, unified_of_notMem hstream, flatten_dataFrames,
    lines_terminated (notMem_eventLines _ (by decide)), List.foldl_append, foldl_eventLines,
    hp.2, List.nil_append]

theorem header_end :
    strstr (ascii "\r\n\r\n") eventsHeader = some (eventsHeader.length - 4) := by
  decide +kernel

/-- The messages stand behind the header. -/
theorem onMessage_header (stream : List UInt8) :
    onMessage (eventsHeader ++ stream) = messages stream := by
  have hlen : eventsHeader.length - 4 + 4 = eventsHeader.length := by decide
  rw [onMessage, strstr_append_right header_end]
  simp only [hlen, List.drop_left]

/-- Before the header has arrived there are none. -/
theorem onMessage_cut_header {p : List UInt8} (hp : p <+: eventsHeader) (hne : p ≠ eventsHeader) :
    onMessage p = [] := by
  cases hend : strstr (ascii "\r\n\r\n") p with
  | none => rw [onMessage, hend]
  | some k =>
    obtain ⟨rest, hrest⟩ := hp
    have hwhole := strstr_append_right hend rest
    rw [hrest, header_end, Option.some.injEq] at hwhole
    have hat := (strstr_eq_some_iff.mp hend).2.1.length_le
    rw [List.length_drop] at hat
    have hfour : (ascii "\r\n\r\n").length = 4 ∧ 4 ≤ eventsHeader.length := by decide
    have hpre : p <+: eventsHeader := ⟨rest, hrest⟩
    exact absurd (hpre.eq_of_length (Nat.le_antisymm hpre.length_le (by omega))) hne

def objectOf (t : ReflowTelemetry) : Json := telemetryObject t (stageName t)

theorem readJson_reflowTelemetryJson (t : ReflowTelemetry) :
    readJson (reflowTelemetryJson t) = some (objectOf t) := by
  exact readJson_of_plain (plain_builtin t)

/-- The page hears the frames that have arrived whole, and nothing of the one that has not. -/
theorem heard_of_prefix {frames : List ReflowTelemetry} {received : List UInt8}
    (h : received <+: (eventsHeader :: frames.map dataFrame).flatten) :
    ∃ k, heard received = (frames.take k).map (fun t => some (objectOf t)) ∧
      ∀ j ≤ frames.length,
        (eventsHeader :: (frames.take j).map dataFrame).flatten <+: received → j ≤ k := by
  obtain ⟨k, p, rfl, hcut⟩ := exists_cut h
  have hwhole : ∀ j ≤ frames.length, (eventsHeader :: (frames.take j).map dataFrame).flatten <+:
      ((eventsHeader :: frames.map dataFrame).take k).flatten ++ p → j + 1 ≤ k := by
    intro j hj hpre
    refine hcut.le_of_prefix (by simpa using hj) ?_
    rwa [List.take_succ_cons, ← List.map_take]
  cases k with
  | zero =>
    refine ⟨0, ?_, fun j hj hpre => absurd (hwhole j hj hpre) (Nat.not_succ_le_zero j)⟩
    obtain ⟨hk, -⟩ | ⟨part, hpart, hp, hne⟩ := hcut
    · exact absurd hk (by simp)
    · obtain rfl : eventsHeader = part := Option.some.inj hpart
      simp [heard, onMessage_cut_header hp hne]
  | succ k =>
    refine ⟨k, ?_, fun j hj hpre => Nat.le_of_succ_le_succ (hwhole j hj hpre)⟩
    have hframes : Cut (frames.map dataFrame) k p := by
      simpa [Cut] using hcut
    rw [List.take_succ_cons, List.flatten_cons, List.append_assoc, heard, onMessage_header,
      messages_of_cut hframes]
    simp only [List.map_map, Function.comp_def, readJson_reflowTelemetryJson]

/-- No response starts as an event stream does. -/
theorem not_prefix_responseHeader {status ctype : List UInt8} (hstatus : status ∈ statusTexts)
    (hctype : ctype ∈ contentTypes) (bodyLen : ℕ) :
    ¬eventsHeader <+: responseHeader status ctype bodyLen := by
  have hstarts : ∀ status ∈ statusTexts, ∀ ctype ∈ contentTypes,
      let start := ascii "HTTP/1.1 " ++ status ++ ascii "\r\nContent-Type: " ++ ctype
      ¬start <+: eventsHeader ∧ start.length ≤ eventsHeader.length := by
    decide +kernel
  obtain ⟨hstart, hlen⟩ := hstarts status hstatus ctype hctype
  intro hpre
  rw [responseHeader, List.append_assoc _ (decimalText bodyLen), List.append_assoc _ (ascii _)]
    at hpre
  exact hstart (List.prefix_of_prefix_length_le (List.prefix_append _ _) hpre hlen)

theorem prefix_of_head {part sent : List UInt8} {script sends : List (List UInt8)} {torn : Bool}
    (h : Httpd.Follows (part :: script) sends torn) (hsent : sends.head? = some sent) :
    sent <+: part := by
  cases h with
  | silent => cases hsent
  | whole =>
    obtain rfl := Option.some.inj hsent
    exact List.prefix_rfl
  | torn script hpiece =>
    obtain rfl := Option.some.inj hsent
    exact hpiece

section Runs

variable {F : Type} [CFloat F] (cfg : CoreConfig) (net : NetConfig) (b : Boot) (locks : ℕ → Bool)
  {server : Server net.maxClients} {inputs : List (Appliance.Input net.maxClients)}

/-- Over every run of the oven, and whatever has arrived of a connection that was answered with
the event stream: what the page hears are the frames that have arrived whole, each with the
fields it was sent with, and they read what the oven published in order. -/
theorem page_hears_the_oven (hserver : (httpd net).init server)
    (h : (Appliance.appliance cfg net).Admitted
      (.boot b locks server : Appliance.Networked F net.maxClients) inputs) (fd : Fd) :
    let a := (Appliance.appliance cfg net).run
      (.boot b locks server : Appliance.Networked F net.maxClients) inputs
    ∀ c ∈ connections fd a.server.log, c.sends.head? = some eventsHeader →
      ∃ frames torn, Httpd.Follows (eventsHeader :: frames.map dataFrame) c.sends torn ∧
        ReadsOf (Appliance.blank :: a.world.frames.reverse) frames ∧
        ∀ received, received <+: c.sends.flatten →
          ∃ k, heard received = (frames.take k).map (fun t => some (objectOf t)) ∧
            ∀ j ≤ frames.length,
              (eventsHeader :: (frames.take j).map dataFrame).flatten <+: received → j ≤ k := by
  intro a c hc hhead
  have hsound := Appliance.sound_of_admitted b locks hserver h
  obtain ⟨-, script, torn, hscript, hfollows, -⟩ := hsound.talk.past fd c hc
  cases hscript with
  | response body hstatus hctype =>
    exact absurd (prefix_of_head hfollows hhead) (not_prefix_responseHeader hstatus hctype _)
  | @stream frames hframes =>
    refine ⟨frames, torn, hfollows, hsound.reads_published hframes, fun received hreceived => ?_⟩
    exact heard_of_prefix (hreceived.trans hfollows.flatten)

end Runs

open Appliance in
theorem page_hears_the_oven_published :
    ∃ a : Networked ℚ 4, connections 7 a.server.log =
        [⟨[eventsHeader, dataFrame firstFrame], false, []⟩] ∧
      ∀ c ∈ connections 7 a.server.log, c.sends.head? = some eventsHeader →
        ∃ frames torn, Httpd.Follows (eventsHeader :: frames.map dataFrame) c.sends torn ∧
          ReadsOf (blank :: a.world.frames.reverse) frames ∧
          ∀ received, received <+: c.sends.flatten →
            ∃ k, heard received = (frames.take k).map (fun t => some (objectOf t)) ∧
              ∀ j ≤ frames.length,
                (eventsHeader :: (frames.take j).map dataFrame).flatten <+: received → j ≤ k :=
  ⟨_, published_connections,
    page_hears_the_oven .stock tokenSite _ _ started_init published_admitted 7⟩

end ReflowOven.EventStream
