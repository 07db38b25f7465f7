import Mathlib.Data.Bool.AllAny
import ReflowOven.HeaderLines

/-!
# Serialised command requests

A `POST /api/cmd` request as a client writes it, from well-formed parts: a query, header
fields with any white space around their values, and a body. On such a text the scanners of
`httpgate.c` find exactly the parts it was written from.
-/

namespace ReflowOven.SerialisedCommands

open HttpRequestGrammar HeaderLines

/-- A byte that can stand in a header line. -/
def InLine (c : UInt8) : Prop := c ≠ 0x0D ∧ c ≠ 0x0A ∧ c ≠ 0

instance : DecidablePred InLine := fun _ => inferInstanceAs (Decidable (_ ∧ _ ∧ _))

/-- A well-formed header field, with the white space it is written with. -/
structure HeaderField where
  name : List UInt8
  before : List UInt8
  value : List UInt8
  after : List UInt8
  name_ne : name ≠ []
  name_bytes : ∀ c ∈ name, InLine c ∧ c ≠ 0x3A ∧ ¬isOws c
  value_bytes : ∀ c ∈ value, InLine c
  padding : ∀ c ∈ before ++ after, isOws c

theorem padding_space : ∀ c ∈ [0x20] ++ ([] : List UInt8), isOws c :=
  List.all_iff_forall_prop.mp (by decide)

/-- A field with one space before its value. -/
def HeaderField.spaced (name value : List UInt8) (hne : name ≠ [])
    (hname : ∀ c ∈ name, InLine c ∧ c ≠ 0x3A ∧ ¬isOws c) (hvalue : ∀ c ∈ value, InLine c) :
    HeaderField :=
  ⟨name, [0x20], value, [], hne, hname, hvalue, padding_space⟩

def HeaderField.line (field : HeaderField) : List UInt8 :=
  field.name ++ 0x3A :: (field.before ++ field.value ++ field.after)

/-- The name, and the value without the white space around it. -/
def HeaderField.entry (field : HeaderField) : List UInt8 × List UInt8 :=
  (field.name, trimOws field.value)

/-- A request for the command endpoint. -/
structure CommandRequest where
  query : Option (List UInt8)
  fields : List HeaderField
  body : List UInt8
  query_bytes : ∀ q ∈ query, ∀ c ∈ q, 0x20 < c ∧ c ≠ 0x7F

namespace CommandRequest

def queryText (request : CommandRequest) : List UInt8 :=
  match request.query with
  | none => []
  | some q => 0x3F :: q

def requestLine (request : CommandRequest) : List UInt8 :=
  ascii "POST" ++ 0x20 :: (cmdTarget ++ request.queryText ++ 0x20 :: ascii "HTTP/1.1")

def header (request : CommandRequest) : List UInt8 :=
  request.fields.flatMap fun field => field.line ++ crlf

/-- The bytes on the wire. -/
def text (request : CommandRequest) : List UInt8 :=
  request.requestLine ++ crlf ++ request.header ++ crlf ++ request.body

/-- What the gate sees of them: the C string that starts the buffer. -/
def received (request : CommandRequest) : CString := .ofBuffer request.text

def entries (request : CommandRequest) : List (List UInt8 × List UInt8) :=
  request.fields.map HeaderField.entry

end CommandRequest

section Bytes

theorem inLine_of_isOws {c : UInt8} (h : isOws c) : InLine c := by
  have hows : c = 0x20 ∨ c = 0x09 := by simpa [isOws] using h
  rcases hows with rfl | rfl <;> exact ⟨by decide, by decide, by decide⟩

theorem HeaderField.line_bytes (field : HeaderField) : ∀ c ∈ field.line, InLine c := by
  intro c hc
  simp only [line, List.mem_append, List.mem_cons] at hc
  rcases hc with hname | rfl | (hbefore | hvalue) | hafter
  · exact (field.name_bytes c hname).1
  · exact ⟨by decide, by decide, by decide⟩
  · exact inLine_of_isOws (field.padding c (List.mem_append_left _ hbefore))
  · exact field.value_bytes c hvalue
  · exact inLine_of_isOws (field.padding c (List.mem_append_right _ hafter))

theorem HeaderField.line_ne (field : HeaderField) : field.line ≠ [] :=
  List.append_ne_nil_of_right_ne_nil _ (List.cons_ne_nil _ _)

theorem CommandRequest.queryText_bytes (request : CommandRequest) :
    ∀ c ∈ request.queryText, InLine c ∧ c ≠ 0x20 := by
  intro c hc
  simp only [queryText] at hc
  split at hc
  · exact absurd hc List.not_mem_nil
  · next q hq =>
    rcases List.mem_cons.mp hc with rfl | hc
    · decide
    · have hlow := (request.query_bytes q hq c hc).1
      refine ⟨⟨?_, ?_, ?_⟩, ?_⟩ <;> rintro rfl <;> exact absurd hlow (by decide)

theorem CommandRequest.requestLine_bytes (request : CommandRequest) :
    ∀ c ∈ request.requestLine, InLine c := by
  have hpost : ∀ c ∈ ascii "POST", InLine c :=
    List.all_iff_forall_prop.mp (by decide)
  have htarget : ∀ c ∈ cmdTarget, InLine c :=
    List.all_iff_forall_prop.mp (by decide)
  have hversion : ∀ c ∈ 0x20 :: ascii "HTTP/1.1", InLine c :=
    List.all_iff_forall_prop.mp (by decide)
  intro c hc
  simp only [requestLine, List.mem_append, List.mem_cons (a := c) (b := 0x20) (l := _ ++ _)] at hc
  rcases hc with hc | rfl | (hc | hc) | hc
  · exact hpost c hc
  · decide
  · exact htarget c hc
  · exact (request.queryText_bytes c hc).1
  · exact hversion c hc

theorem CommandRequest.zero_notMem_header (request : CommandRequest) : 0 ∉ request.header := by
  intro hzero
  obtain ⟨field, -, hline⟩ := List.mem_flatMap.mp hzero
  rcases List.mem_append.mp hline with hline | hline
  · exact (field.line_bytes 0 hline).2.2 rfl
  · exact absurd hline (by decide)

/-- The NUL that ends the string, if there is one, is in the body. -/
theorem CommandRequest.received_bytes (request : CommandRequest) : ∃ body,
    request.received.bytes =
      request.requestLine ++ (crlf ++ (request.header ++ (crlf ++ body))) := by
  have hhead : ∀ c ∈ request.requestLine ++ crlf ++ request.header ++ crlf, c ≠ 0 := by
    rintro c hc rfl
    simp only [List.mem_append] at hc
    rcases hc with ((hc | hc) | hc) | hc
    · exact (request.requestLine_bytes 0 hc).2.2 rfl
    · exact absurd hc (by decide)
    · exact request.zero_notMem_header hc
    · exact absurd hc (by decide)
  refine ⟨request.body.takeWhile (· ≠ 0), ?_⟩
  simp only [received, CString.ofBuffer, text]
  rw [List.takeWhile_append_of_pos (by simpa using hhead)]
  simp

/-- Such bytes make no line break. -/
theorem unbroken_of_inLine {line : List UInt8} (h : ∀ c ∈ line, InLine c) : Unbroken line :=
  fun hbreak => (h 0x0D (hbreak.subset (by decide))).1 rfl

end Bytes

section Fields

theorem headerField_line (field : HeaderField) : headerField field.line = some field.entry := by
  have hcolon : 0x3A ∉ field.name := fun hc => (field.name_bytes _ hc).2.1 rfl
  have htrimmed : IsTrimmed (field.before ++ field.value ++ field.after) (trimOws field.value) :=
    trimOws_eq_iff.mp (trimOws_pad field.padding)
  refine headerField_eq_some_iff.mpr ⟨_, rfl, hcolon, field.name_ne, ?_, htrimmed⟩
  exact fun c hc => (field.name_bytes c (List.mem_of_getLast? hc)).2.2

/-- The lines of the header. -/
theorem CommandRequest.header_lines (request : CommandRequest) :
    request.header = (request.fields.map HeaderField.line).flatMap (· ++ crlf) := by
  rw [header, List.flatMap_map]

theorem HeaderField.lines_unbroken (fields : List HeaderField) :
    ∀ line ∈ fields.map HeaderField.line, line ≠ [] ∧ Unbroken line := by
  intro line hline
  obtain ⟨field, -, rfl⟩ := List.mem_map.mp hline
  exact ⟨field.line_ne, unbroken_of_inLine field.line_bytes⟩

/-- The lines are read as the entries of their fields. -/
theorem foldlM_lines (fields : List HeaderField) (f : GateFields) :
    (fields.map HeaderField.line).foldlM readLine f =
      (fields.map HeaderField.entry).foldlM (fun f entry => storeField f entry.1 entry.2) f := by
  have hread : ∀ line ∈ fields.map HeaderField.line, (headerField line).isSome := by
    intro line hline
    obtain ⟨field, -, rfl⟩ := List.mem_map.mp hline
    rw [headerField_line]
    rfl
  rw [foldlM_readLine hread, entries, List.filterMap_map]
  have hentry : headerField ∘ HeaderField.line = some ∘ HeaderField.entry := funext headerField_line
  rw [hentry, List.filterMap_eq_map]

end Fields

section Values

/-- What storing the values of one name leaves: none, or a single one that is short enough. -/
def storeAll : Option (List UInt8) → List (List UInt8) → Option (Option (List UInt8))
  | stored, [] => some stored
  | stored, val :: vals => (storeValue stored val).bind fun v => storeAll (some v) vals

theorem valuesNamed_cons (name : String) (entry : List UInt8 × List UInt8)
    (entries : List (List UInt8 × List UInt8)) : valuesNamed name (entry :: entries) =
      if entry.1.map lower = ascii name then entry.2 :: valuesNamed name entries
      else valuesNamed name entries := by
  simp only [valuesNamed, List.filter_cons, decide_eq_true_eq]
  split <;> rfl

/-- The three names are stored independently of each other. -/
theorem foldlM_storeField (entries : List (List UInt8 × List UInt8)) (f : GateFields) :
    entries.foldlM (fun f entry => storeField f entry.1 entry.2) f =
      (storeAll f.token (valuesNamed "x-reflow-token" entries)).bind fun token =>
        (storeAll f.origin (valuesNamed "origin" entries)).bind fun origin =>
          (storeAll f.host (valuesNamed "host" entries)).bind fun host =>
            some ⟨token, origin, host⟩ := by
  induction entries generalizing f with
  | nil => rfl
  | cons entry entries ih =>
    have hdistinct : ascii "x-reflow-token" ≠ ascii "origin" ∧
        ascii "x-reflow-token" ≠ ascii "host" ∧ ascii "origin" ≠ ascii "host" := by decide
    have hstep : storeField f entry.1 entry.2 =
        if entry.1.map lower = ascii "x-reflow-token" then
          (storeValue f.token entry.2).map fun v => { f with token := some v }
        else if entry.1.map lower = ascii "origin" then
          (storeValue f.origin entry.2).map fun v => { f with origin := some v }
        else if entry.1.map lower = ascii "host" then
          (storeValue f.host entry.2).map fun v => { f with host := some v }
        else some f := by
      simp only [storeField, nameIs_iff]
    simp only [List.foldlM_cons, valuesNamed_cons, hstep]
    by_cases htoken : entry.1.map lower = ascii "x-reflow-token"
    · simp only [htoken, hdistinct, if_true, if_false, storeAll]
      cases storeValue f.token entry.2 with
      | none => rfl
      | some v => exact ih _
    · by_cases horigin : entry.1.map lower = ascii "origin"
      · simp only [horigin, hdistinct, Ne.symm hdistinct.1, if_true, if_false, storeAll]
        cases storeValue f.origin entry.2 with
        | none => simp
        | some v => exact ih _
      · by_cases hhost : entry.1.map lower = ascii "host"
        · simp only [hhost, Ne.symm hdistinct.2.1, Ne.symm hdistinct.2.2, if_true, if_false,
            storeAll]
          cases storeValue f.host entry.2 with
          | none => simp
          | some v => exact ih _
        · simp only [htoken, horigin, hhost, if_false]
          exact ih f

/-- Values are stored when there is at most one and it is short enough. -/
theorem storeAll_eq_some_iff {vals : List (List UInt8)} {stored : Option (List UInt8)} :
    storeAll none vals = some stored ↔
      vals = stored.toList ∧ ∀ v ∈ vals, v.length ≤ valueMax := by
  match vals with
  | [] =>
    cases stored with
    | none => simp [storeAll]
    | some v => simp [storeAll]
  | [val] =>
    by_cases hlong : val.length > valueMax
    · simp [storeAll, storeValue, hlong]
    · cases stored with
      | none => simp [storeAll, storeValue, hlong]
      | some v => simp [storeAll, storeValue, hlong, not_lt.mp hlong]
  | val :: val' :: vals =>
    have hnone : storeAll none (val :: val' :: vals) = none := by
      simp only [storeAll]
      cases storeValue none val with
      | none => rfl
      | some v => rfl
    cases stored with
    | none => simp [hnone]
    | some v => simp [hnone]

end Values

end ReflowOven.SerialisedCommands
