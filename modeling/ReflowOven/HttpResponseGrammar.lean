import ReflowOven.AddressLiterals
import ReflowOven.HttpServer
import ReflowOven.SerialisedCommands
import ReflowOven.TelemetryRoundTrip

/-!
# The grammar of HTTP responses

What a client can hold the server to, stated on the bytes and without its printers: a head is a
status line, header lines and an empty line; the head of a response names a type and counts the
body; the head of an event stream counts nothing; an event is one line of data. What `httpd.c`
prints is of this form, and fits the buffer that it is printed into.
-/

namespace ReflowOven.HttpResponseGrammar

open HttpRequestGrammar SerialisedCommands HeaderLines AddressLiterals JsonReader

/-- Three digits, a space and a reason, on one line. -/
def IsStatus (status : List UInt8) : Prop :=
  (∀ c ∈ status, InLine c) ∧ ∃ digits code reason,
    status = digits ++ 0x20 :: reason ∧ digits.length = 3 ∧ IsNumeral digits code

/-- A status line, the lines of these header fields and an empty line, with nothing after it. -/
def IsResponseHead (head status : List UInt8) (fields : List (List UInt8 × List UInt8)) : Prop :=
  IsStatus status ∧ ∃ lines,
    head = ascii "HTTP/1.1 " ++ status ++ crlf ++ lines.flatMap (· ++ crlf) ++ crlf ∧
      (∀ line ∈ lines, line ≠ [] ∧ Unbroken line) ∧ List.Forall₂ IsField lines fields

/-- The status lines and the content types of the server. -/
def statusTexts : List (List UInt8) :=
  [ascii "200 OK", ascii "204 No Content", ascii "400 Bad Request", ascii "401 Unauthorized",
    ascii "403 Forbidden", ascii "404 Not Found", ascii "405 Method Not Allowed",
    ascii "500 Internal Server Error", ascii "503 Service Unavailable"]

def contentTypes : List (List UInt8) :=
  [ascii "text/plain", ascii "application/json", ascii "text/html; charset=utf-8"]

/-- The size of `hdr` in `send_response`. -/
def hdrBufSz : ℕ := 160

/-- A response in two parts. Its head counts the body, lets no other origin read it, and is
shorter than the buffer it is printed into for a body of less than 4 GiB. -/
structure IsResponse (status ctype head body : List UInt8) : Prop where
  status_mem : status ∈ statusTexts
  ctype_mem : ctype ∈ contentTypes
  form : ∃ fields count, IsResponseHead head status fields ∧
    valuesNamed "content-type" fields = [ctype] ∧
    valuesNamed "content-length" fields = [count] ∧ IsNumeral count body.length ∧
    valuesNamed "access-control-allow-origin" fields = []
  fits : body.length < 2 ^ 32 → head.length < hdrBufSz

/-- The head of an event stream, which has no length. -/
def IsEventsHead (head : List UInt8) : Prop :=
  ∃ fields, IsResponseHead head (ascii "200 OK") fields ∧
    valuesNamed "content-type" fields = [ascii "text/event-stream"] ∧
    valuesNamed "content-length" fields = [] ∧
    valuesNamed "access-control-allow-origin" fields = []

/-- One line of data, which a JSON reader takes for the object of `t`, and a blank line. -/
def IsEvent (t : ReflowTelemetry) (frame : List UInt8) : Prop :=
  ∃ json, frame = ascii "data: " ++ json ++ ascii "\n\n" ∧ Visible json ∧
    readJson json = some (telemetryObject t (stageName t))

section Heads

theorem isField_line (field : HeaderField) : IsField field.line field.entry :=
  headerField_eq_some_iff.mp (headerField_line field)

/-- A head that is written field by field. -/
theorem isResponseHead_of_fields {status : List UInt8} (hstatus : IsStatus status)
    (fields : List HeaderField) :
    IsResponseHead (ascii "HTTP/1.1 " ++ status ++ crlf ++
      fields.flatMap (fun field => field.line ++ crlf) ++ crlf) status
      (fields.map HeaderField.entry) := by
  refine ⟨hstatus, fields.map HeaderField.line, ?_, HeaderField.lines_unbroken fields, ?_⟩
  · rw [List.flatMap_map]
  · rw [List.forall₂_map_left_iff, List.forall₂_map_right_iff, List.forall₂_same]
    exact fun field _ => isField_line field

theorem isStatus_of_mem {status : List UInt8} (h : status ∈ statusTexts) : IsStatus status := by
  have hparts : ∀ status ∈ statusTexts, (status.all fun c => decide (InLine c)) = true ∧
      (status.take 3).length = 3 ∧ (status.take 3).all (fun c => decide (IsDigit c)) = true ∧
      status = status.take 3 ++ 0x20 :: status.drop 4 := by
    decide
  obtain ⟨hbytes, hlen, hdigits, hsplit⟩ := hparts status h
  have hcode : IsNumeral (status.take 3)
      ((status.take 3).foldl (fun v c => v * 10 + (c.toNat - 0x30)) 0) :=
    ⟨List.ne_nil_of_length_eq_add_one hlen, List.all_iff_forall_prop.mp hdigits, rfl⟩
  exact ⟨List.all_iff_forall_prop.mp hbytes, _, _, _, hsplit, hlen, hcode⟩

/-- Digits are visible and have no white space around them. -/
theorem decimalText_bytes (n : ℕ) : ∀ c ∈ decimalText n, InLine c ∧ ¬isOws c := by
  intro c hc
  have hlow := (digit_of_mem_decimalText hc).1
  refine ⟨⟨?_, ?_, ?_⟩, fun hows => ?_⟩
  · rintro rfl
    exact absurd hlow (by decide)
  · rintro rfl
    exact absurd hlow (by decide)
  · rintro rfl
    exact absurd hlow (by decide)
  · have hblank : c = 0x20 ∨ c = 0x09 := by simpa [isOws] using hows
    rcases hblank with rfl | rfl <;> exact absurd hlow (by decide)

theorem trimOws_decimalText (n : ℕ) : trimOws (decimalText n) = decimalText n := by
  refine trimOws_eq_iff.mpr ⟨[], [], by simp, by simp, fun c hc => ?_, fun c hc => ?_⟩
  · exact (decimalText_bytes n c (List.mem_of_mem_head? hc)).2
  · exact (decimalText_bytes n c (List.mem_of_getLast? hc)).2

end Heads

section Printers

open Httpd

def contentTypeField (ctype : List UInt8) (h : ∀ c ∈ ctype, InLine c) : HeaderField :=
  .spaced (ascii "Content-Type") ctype (by decide) (List.all_iff_forall_prop.mp (by decide)) h

def contentLengthField (n : ℕ) : HeaderField :=
  .spaced (ascii "Content-Length") (decimalText n) (by decide)
    (List.all_iff_forall_prop.mp (by decide)) fun c hc => (decimalText_bytes n c hc).1

def cacheControlField : HeaderField :=
  .spaced (ascii "Cache-Control") (ascii "no-store") (by decide)
    (List.all_iff_forall_prop.mp (by decide)) (List.all_iff_forall_prop.mp (by decide))

def connectionField (value : List UInt8) (h : ∀ c ∈ value, InLine c) : HeaderField :=
  .spaced (ascii "Connection") value (by decide) (List.all_iff_forall_prop.mp (by decide)) h

/-- Every header is shorter than the buffer it is printed into, whatever the length of a body
of 32 bits: what is sent of it is all of it. -/
theorem responseHeader_fits {status ctype : List UInt8} (hstatus : status ∈ statusTexts)
    (hctype : ctype ∈ contentTypes) {bodyLen : ℕ} (hlen : bodyLen < 2 ^ 32) :
    (responseHeader status ctype bodyLen).length < hdrBufSz := by
  have hstatuses : ∀ status ∈ statusTexts, status.length ≤ 25 := by simp [statusTexts, ascii]
  have hctypes : ∀ ctype ∈ contentTypes, ctype.length ≤ 24 := by simp [contentTypes, ascii]
  have hliterals : (ascii "HTTP/1.1 ").length = 9 ∧ (ascii "\r\nContent-Type: ").length = 16 ∧
      (ascii "\r\nContent-Length: ").length = 18 ∧
      (ascii "\r\nCache-Control: no-store\r\nConnection: close\r\n\r\n").length = 48 := by
    simp [ascii]
  have hdigits : (decimalText bodyLen).length ≤ 10 :=
    (length_decimalText_le_iff (by omega)).mpr (by omega)
  have hstatus' := hstatuses status hstatus
  have hctype' := hctypes ctype hctype
  simp only [responseHeader, List.length_append, hliterals, hdrBufSz]
  omega

theorem responseHeader_isResponse {status ctype : List UInt8} (hstatus : status ∈ statusTexts)
    (hctype : ctype ∈ contentTypes) (body : List UInt8) :
    IsResponse status ctype (responseHeader status ctype body.length) body where
  status_mem := hstatus
  ctype_mem := hctype
  form := by
    have hplain : ∀ ctype ∈ contentTypes,
        (ctype.all fun c => decide (InLine c)) = true ∧ trimOws ctype = ctype := by decide
    obtain ⟨hbytes, htrim⟩ := hplain ctype hctype
    have hhead := isResponseHead_of_fields (isStatus_of_mem hstatus)
      [contentTypeField ctype (List.all_iff_forall_prop.mp hbytes),
        contentLengthField body.length, cacheControlField,
        connectionField (ascii "close") (List.all_iff_forall_prop.mp (by decide))]
    have hprinted : responseHeader status ctype body.length = ascii "HTTP/1.1 " ++ status ++ crlf ++
        [contentTypeField ctype (List.all_iff_forall_prop.mp hbytes),
          contentLengthField body.length, cacheControlField,
          connectionField (ascii "close") (List.all_iff_forall_prop.mp (by decide))].flatMap
            (fun field => field.line ++ crlf) ++ crlf := by
      simp [responseHeader, contentTypeField, contentLengthField, cacheControlField,
        connectionField, HeaderField.spaced, HeaderField.line, ascii, crlf]
    rw [← hprinted] at hhead
    refine ⟨_, trimOws (decimalText body.length), hhead, ?_, rfl, ?_, rfl⟩
    · exact congrArg (fun value => [value]) htrim
    · rw [trimOws_decimalText]
      exact isNumeral_decimalText _
  fits hlen := responseHeader_fits hstatus hctype hlen

theorem eventsHeader_isEventsHead : IsEventsHead eventsHeader := by
  have hhead := isResponseHead_of_fields (isStatus_of_mem (show ascii "200 OK" ∈ statusTexts by decide))
    [contentTypeField (ascii "text/event-stream") (List.all_iff_forall_prop.mp (by decide)),
      cacheControlField,
      connectionField (ascii "keep-alive") (List.all_iff_forall_prop.mp (by decide))]
  exact ⟨_, hhead, by decide, by decide, by decide⟩

theorem isEvent_json (t : ReflowTelemetry) :
    IsEvent t (ascii "data: " ++ reflowTelemetryJson t ++ ascii "\n\n") :=
  ⟨_, rfl, visible_reflowTelemetryJson t, readJson_of_plain (plain_builtin t)⟩

end Printers

end ReflowOven.HttpResponseGrammar
