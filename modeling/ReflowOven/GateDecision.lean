import ReflowOven.SerialisedCommands

/-!
# The exact decision of the gate

On a serialised command the verdict is a function of the values of three header fields. So it
is known exactly when the command is allowed, and nothing that leaves those values alone
changes the verdict.
-/

namespace ReflowOven.GateDecision

open HttpRequestGrammar HeaderLines SerialisedCommands

/-- The names of the fields that the gate looks at. -/
def gateNames : List String := ["x-reflow-token", "origin", "host"]

/-- Every value the gate looks at is short enough. -/
def Short (entries : List (List UInt8 × List UInt8)) : Prop :=
  ∀ name ∈ gateNames, ∀ v ∈ valuesNamed name entries, v.length ≤ valueMax

/-- What the gate decides on the entries of a header block. -/
def gateVerdict (token : List UInt8) (entries : List (List UInt8 × List UInt8)) : ReflowGate :=
  match entries.foldlM (fun f entry => storeField f entry.1 entry.2) {} with
  | none => .badRequest
  | some f => gateFields token f

theorem stored_iff {entries : List (List UInt8 × List UInt8)} {f : GateFields} :
    entries.foldlM (fun f entry => storeField f entry.1 entry.2) {} = some f ↔
      Holds f entries ∧ Short entries := by
  rw [foldlM_storeField]
  simp only [Option.bind_eq_some_iff, storeAll_eq_some_iff]
  constructor
  · rintro ⟨token, ⟨htoken, hshort₁⟩, origin, ⟨horigin, hshort₂⟩, host, ⟨hhost, hshort₃⟩, hf⟩
    obtain rfl := Option.some.inj hf
    refine ⟨⟨htoken, horigin, hhost⟩, fun name hname => ?_⟩
    simp only [gateNames, List.mem_cons, List.not_mem_nil, or_false] at hname
    rcases hname with rfl | rfl | rfl
    · exact hshort₁
    · exact hshort₂
    · exact hshort₃
  · rintro ⟨⟨htoken, horigin, hhost⟩, hshort⟩
    exact ⟨f.token, ⟨htoken, hshort _ (by decide)⟩, f.origin, ⟨horigin, hshort _ (by decide)⟩,
      f.host, ⟨hhost, hshort _ (by decide)⟩, rfl⟩

section Request

theorem gateRequestLine_requestLine (request : CommandRequest) :
    gateRequestLine request.requestLine = some (ascii "POST", cmdTarget) := by
  have hpost : (0x20 : UInt8) ∉ ascii "POST" := by decide
  have hspace : (0x20 : UInt8) ∉ cmdTarget ++ request.queryText := by
    intro hmem
    rcases List.mem_append.mp hmem with htarget | hquery
    · exact absurd htarget (by decide)
    · exact (request.queryText_bytes _ hquery).2 rfl
  have hquery : (cmdTarget ++ request.queryText).takeWhile (· ≠ 0x3F) = cmdTarget := by
    have hmark : (0x3F : UInt8) ∉ cmdTarget := by decide
    simp only [CommandRequest.queryText]
    split
    · rw [List.append_nil]
      exact takeWhile_ne_of_notMem hmark
    · exact takeWhile_ne_append_cons hmark _
  rw [gateRequestLine, if_neg (by simp [CommandRequest.requestLine])]
  simp only [CommandRequest.requestLine, takeWhile_ne_append_cons hpost,
    tail_dropWhile_ne_append_cons hpost, takeWhile_ne_append_cons hspace, hquery]

theorem reflowGateCheck_received (request : CommandRequest) {token : CString}
    (htoken : token.bytes ≠ []) :
    reflowGateCheck (some request.received) (some token) =
      gateVerdict token.bytes request.entries := by
  obtain ⟨body, hbytes⟩ := request.received_bytes
  have hdrop : (request.requestLine ++ (crlf ++ (request.header ++ (crlf ++ body)))).drop
      (request.requestLine.length + 2) = request.header ++ (crlf ++ body) := by
    rw [← List.drop_drop, List.drop_left]
    rfl
  have hstart := strstr_crlf_line (unbroken_of_inLine request.requestLine_bytes)
  simp only [reflowGateCheck, hbytes, hstart, List.take_left, gateRequestLine_requestLine,
    List.drop_left, hdrop]
  rw [if_neg (not_not.mpr rfl), if_neg (not_not.mpr rfl), if_neg htoken]
  have hlines := HeaderField.lines_unbroken request.fields
  rw [request.header_lines, strstr_blank_header hlines]
  simp only [collect_lines hlines, foldlM_lines]
  rfl

end Request

section Decision

theorem ne_nil_of_isIpv4 {host : List UInt8} (h : IsIpv4 host) : host ≠ [] := by
  rintro rfl
  exact absurd (isIpv4Authority_iff.mpr h) (by decide)

/-- An authorised command is allowed. -/
theorem gateFields_of_authorises {token : List UInt8} {f : GateFields}
    {entries : List (List UInt8 × List UInt8)} (h : Authorises token entries)
    (hf : Holds f entries) : gateFields token f = .allow := by
  obtain ⟨host, hhost, hip, horigin⟩ := h.host
  have htoken : f.token = some token :=
    Option.toList_eq_singleton_iff.mp (hf.token.symm.trans h.token)
  have hhost : f.host = some host :=
    Option.toList_eq_singleton_iff.mp (hf.host.symm.trans hhost)
  have hne := ne_nil_of_isIpv4 hip
  obtain ⟨c, cs, rfl⟩ := List.exists_cons_of_ne_nil hne
  have horiginOk : ∀ origin, f.origin = some origin → originAuthority origin = some (c :: cs) := by
    intro origin hsome
    refine originAuthority_eq_some_iff.mpr ⟨hne, horigin origin ?_⟩
    rw [hf.origin, hsome]
    exact List.mem_singleton_self origin
  simp only [gateFields, hhost, isIpv4Authority_iff.mpr hip, htoken, tokenOk_iff.mpr rfl]
  cases hcase : f.origin with
  | none => rfl
  | some origin => simp [horiginOk origin hcase]

theorem gateVerdict_allow_iff {token : List UInt8} {entries : List (List UInt8 × List UInt8)} :
    gateVerdict token entries = .allow ↔ Authorises token entries ∧ Short entries := by
  simp only [gateVerdict]
  constructor
  · intro h
    split at h
    · cases h
    · next f hstored =>
      obtain ⟨hholds, hshort⟩ := stored_iff.mp hstored
      exact ⟨GateSoundness.authorises_of_gateFields h hholds, hshort⟩
  · rintro ⟨hauth, hshort⟩
    obtain ⟨host, hhost, -, -⟩ := hauth.host
    obtain ⟨origin, horigin⟩ : ∃ origin : Option (List UInt8),
        valuesNamed "origin" entries = origin.toList := by
      rcases Nat.le_one_iff_eq_zero_or_eq_one.mp hauth.origin with hnone | hone
      · exact ⟨none, List.length_eq_zero_iff.mp hnone⟩
      · obtain ⟨v, hv⟩ := List.length_eq_one_iff.mp hone
        exact ⟨some v, hv⟩
    have hholds : Holds ⟨some token, origin, some host⟩ entries := ⟨hauth.token, horigin, hhost⟩
    rw [stored_iff.mpr ⟨hholds, hshort⟩]
    exact gateFields_of_authorises hauth hholds

end Decision

section Invariance

/-- The values the gate looks at are the same, in some order. -/
def SameValues (entries entries' : List (List UInt8 × List UInt8)) : Prop :=
  ∀ name ∈ gateNames, (valuesNamed name entries).Perm (valuesNamed name entries')

theorem eq_toList_of_perm {vals vals' : List (List UInt8)} {stored : Option (List UInt8)}
    (h : vals.Perm vals') (hvals : vals = stored.toList) : vals' = stored.toList := by
  subst hvals
  cases stored with
  | none => exact h.nil_eq.symm
  | some v => exact (List.perm_singleton.mp h.symm)

theorem SameValues.stored {entries entries' : List (List UInt8 × List UInt8)} {f : GateFields}
    (h : SameValues entries entries') (hf : Holds f entries ∧ Short entries) :
    Holds f entries' ∧ Short entries' := by
  obtain ⟨⟨htoken, horigin, hhost⟩, hshort⟩ := hf
  refine ⟨⟨?_, ?_, ?_⟩, fun name hname v hv => ?_⟩
  · exact eq_toList_of_perm (h _ (by decide)) htoken
  · exact eq_toList_of_perm (h _ (by decide)) horigin
  · exact eq_toList_of_perm (h _ (by decide)) hhost
  · exact hshort name hname v ((h name hname).mem_iff.mpr hv)

theorem SameValues.symm {entries entries' : List (List UInt8 × List UInt8)}
    (h : SameValues entries entries') : SameValues entries' entries :=
  fun name hname => (h name hname).symm

/-- The verdict depends on those values only. -/
theorem SameValues.verdict {token : List UInt8} {entries entries' : List (List UInt8 × List UInt8)}
    (h : SameValues entries entries') : gateVerdict token entries = gateVerdict token entries' := by
  have hstored : entries.foldlM (fun f entry => storeField f entry.1 entry.2) {} =
      entries'.foldlM (fun f entry => storeField f entry.1 entry.2) {} := by
    apply Option.ext
    intro f
    rw [stored_iff, stored_iff]
    exact ⟨h.stored, h.symm.stored⟩
  rw [gateVerdict, hstored, gateVerdict]

/-- The same field, its name in another letter case or its value with other white space. -/
def Respelt (field field' : HeaderField) : Prop :=
  field.name.map lower = field'.name.map lower ∧ trimOws field.value = trimOws field'.value

/-- Header fields rewritten without touching what the gate looks at: permuted, with a field of
another name added or removed, respelt. -/
inductive Rewritten : List HeaderField → List HeaderField → Prop where
  | permuted {fields fields'} (h : fields.Perm fields') : Rewritten fields fields'
  | added {fields} (field) (h : ∀ name ∈ gateNames, field.name.map lower ≠ ascii name) :
      Rewritten fields (field :: fields)
  | respelt {fields fields'} (h : List.Forall₂ Respelt fields fields') : Rewritten fields fields'
  | symm {fields fields'} (h : Rewritten fields fields') : Rewritten fields' fields
  | trans {fields fields' fields''} (h : Rewritten fields fields')
      (h' : Rewritten fields' fields'') : Rewritten fields fields''

theorem valuesNamed_respelt (name : String) {fields fields' : List HeaderField}
    (h : List.Forall₂ Respelt fields fields') :
    valuesNamed name (fields.map HeaderField.entry) =
      valuesNamed name (fields'.map HeaderField.entry) := by
  induction h with
  | nil => rfl
  | cons hfield _ ih =>
    simp only [List.map_cons, valuesNamed_cons, HeaderField.entry, hfield.1, hfield.2, ih]

theorem Rewritten.sameValues {fields fields' : List HeaderField} (h : Rewritten fields fields') :
    SameValues (fields.map HeaderField.entry) (fields'.map HeaderField.entry) := by
  induction h with
  | permuted h => exact fun name _ => ((h.map _).filter _).map _
  | added field h =>
    intro name hname
    have hother : ¬field.entry.1.map lower = ascii name := h name hname
    rw [List.map_cons, valuesNamed_cons, if_neg hother]
  | respelt h => exact fun name _ => valuesNamed_respelt name h ▸ List.Perm.refl _
  | symm _ ih => exact ih.symm
  | trans _ _ ih ih' => exact fun name hname => (ih name hname).trans (ih' name hname)

end Invariance

/-- The gate allows a serialised command exactly when it is authorised by values of at most
128 bytes; and its verdict on the command is the same for any other query or body and for
header fields rewritten without touching what it looks at. -/
theorem gate_decides_commands (token : CString) (htoken : token.bytes ≠ [])
    (request : CommandRequest) :
    (reflowGateCheck (some request.received) (some token) = .allow ↔
      valuesNamed "x-reflow-token" request.entries = [token.bytes] ∧
      (∃ host, valuesNamed "host" request.entries = [host] ∧ IsIpv4 host ∧
        ∀ origin ∈ valuesNamed "origin" request.entries, IsOriginOf host origin) ∧
      (valuesNamed "origin" request.entries).length ≤ 1 ∧
      ∀ name ∈ gateNames, ∀ v ∈ valuesNamed name request.entries, v.length ≤ 128) ∧
    ∀ request' : CommandRequest, Rewritten request.fields request'.fields →
      reflowGateCheck (some request'.received) (some token) =
        reflowGateCheck (some request.received) (some token) := by
  rw [reflowGateCheck_received request htoken, gateVerdict_allow_iff]
  constructor
  · constructor
    · exact fun h => ⟨h.1.token, h.1.host, h.1.origin, h.2⟩
    · exact fun h => ⟨⟨h.1, h.2.1, h.2.2.1⟩, h.2.2.2⟩
  · intro request' hrewritten
    rw [reflowGateCheck_received request' htoken]
    exact hrewritten.sameValues.symm.verdict

section Instances

def hostField : HeaderField :=
  .spaced (ascii "Host") (ascii "10.0.0.1") (by decide) (List.all_iff_forall_prop.mp (by decide))
    (List.all_iff_forall_prop.mp (by decide))

def tokenField : HeaderField :=
  .spaced (ascii "X-Reflow-Token") (ascii "abc") (by decide) (List.all_iff_forall_prop.mp (by decide))
    (List.all_iff_forall_prop.mp (by decide))

def originField : HeaderField :=
  .spaced (ascii "Origin") (ascii "http://10.0.0.1") (by decide) (List.all_iff_forall_prop.mp (by decide))
    (List.all_iff_forall_prop.mp (by decide))

/-- The same origin, its scheme in upper case. -/
def loudOriginField : HeaderField :=
  .spaced (ascii "Origin") (ascii "HTTP://10.0.0.1") (by decide) (List.all_iff_forall_prop.mp (by decide))
    (List.all_iff_forall_prop.mp (by decide))

def acceptField : HeaderField :=
  ⟨ascii "Accept", [0x20], ascii "*/*", [0x20], by decide,
    List.all_iff_forall_prop.mp (by decide), List.all_iff_forall_prop.mp (by decide),
    List.all_iff_forall_prop.mp (by decide)⟩

def stop (fields : List HeaderField) : CommandRequest where
  query := some (ascii "id=stop")
  fields := fields
  body := []
  query_bytes q hq := by
    obtain rfl := Option.some.inj hq
    exact List.all_iff_forall_prop.mp (by decide)

def abc : CString := ⟨ascii "abc", by decide⟩

/-- A legitimate Stop is allowed, and so it is with another field and in another order. -/
theorem gate_decides_commands_stop :
    reflowGateCheck (some (stop [hostField, tokenField, originField]).received) (some abc) =
      .allow ∧
    reflowGateCheck (some (stop [originField, tokenField, hostField, acceptField]).received)
      (some abc) = .allow := by
  have horigins : valuesNamed "origin" (stop [hostField, tokenField, originField]).entries =
      [ascii "http://10.0.0.1"] := by decide
  have h := gate_decides_commands abc (by decide) (stop [hostField, tokenField, originField])
  have hallow := h.1.mpr ⟨by decide, ⟨ascii "10.0.0.1", by decide,
    isIpv4Authority_iff.mp (by decide), fun origin horigin => ?_⟩, by decide, by decide⟩
  · refine ⟨hallow, (h.2 _ ?_).trans hallow⟩
    have hadded : Rewritten [hostField, tokenField, originField]
        [acceptField, hostField, tokenField, originField] := .added acceptField (by decide)
    exact hadded.trans (.permuted (List.reverse_perm _).symm)
  · rw [horigins, List.mem_singleton] at horigin
    exact ⟨ascii "http://", horigin, .inl (by decide)⟩

/-- An origin whose scheme is written in upper case is taken for the same origin. -/
theorem upper_case_scheme_is_allowed :
    reflowGateCheck (some (stop [hostField, tokenField, loudOriginField]).received) (some abc) =
      .allow ∧
    valuesNamed "host" (stop [hostField, tokenField, loudOriginField]).entries =
      [ascii "10.0.0.1"] ∧
    valuesNamed "origin" (stop [hostField, tokenField, loudOriginField]).entries =
      [ascii "HTTP://10.0.0.1"] ∧
    ascii "HTTP://10.0.0.1" ≠ ascii "http://" ++ ascii "10.0.0.1" ∧
    ascii "HTTP://10.0.0.1" ≠ ascii "https://" ++ ascii "10.0.0.1" := by
  refine ⟨?_, by decide, by decide, by decide, by decide⟩
  rw [reflowGateCheck_received _ (by decide)]
  decide

end Instances

end ReflowOven.GateDecision
