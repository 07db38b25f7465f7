import ReflowOven.GateDecision

/-!
# Folded header lines

A header line that starts with white space continues the line before it. The gate has no
check for one: such a line is read as a field of its own, under a name that no field the gate
looks at has, or it is a bad request because it cannot be read as a field.
-/

namespace ReflowOven.LineFolding

open HttpRequestGrammar GateSoundness HeaderLines GateDecision

section Lines

def isFolded (line : List UInt8) : Bool := line.head?.any isOws

/-- After some lines of the header block, finished or not, comes white space. -/
def Folds (rest : List UInt8) : Prop :=
  ∃ (before : List (List UInt8)) (c : UInt8) (tail : List UInt8),
    rest = before.flatMap (· ++ crlf) ++ c :: tail ∧
    (∀ line ∈ before, line ≠ [] ∧ Unbroken line) ∧ isOws c

variable {line rest : List UInt8} {lines : List (List UInt8)}

theorem folds_iff_of_block (h : IsBlock rest lines) : Folds rest ↔ ∃ l ∈ lines, isFolded l := by
  obtain ⟨⟨body, rfl⟩, hlines⟩ := h
  constructor
  · rintro ⟨before, c, tail, heq, hbefore, hows⟩
    induction before generalizing lines with
    | nil =>
      cases lines with
      | nil =>
        obtain rfl : 0x0D = c := (List.cons.inj heq).1
        exact absurd hows (by decide)
      | cons line lines =>
        obtain ⟨b, bs, rfl⟩ := List.exists_cons_of_ne_nil (hlines line List.mem_cons_self).1
        obtain rfl : b = c := (List.cons.inj heq).1
        exact ⟨b :: bs, List.mem_cons_self, by simpa [isFolded] using hows⟩
    | cons first before ih =>
      obtain ⟨⟨hne, hfirst⟩, hbefore⟩ := List.forall_mem_cons.mp hbefore
      cases lines with
      | nil =>
        have hempty : first ++ (crlf ++ (before.flatMap (· ++ crlf) ++ c :: tail)) =
            [] ++ (crlf ++ body) := by simpa using heq.symm
        exact absurd (first_line_unique hfirst unbroken_nil hempty).1 hne
      | cons line lines =>
        obtain ⟨⟨-, hline⟩, hlines⟩ := List.forall_mem_cons.mp hlines
        have hfirsts : first ++ (crlf ++ (before.flatMap (· ++ crlf) ++ c :: tail)) =
            line ++ (crlf ++ (lines.flatMap (· ++ crlf) ++ crlf ++ body)) := by
          simpa using heq.symm
        obtain ⟨-, hrest⟩ := first_line_unique hfirst hline hfirsts
        obtain ⟨l, hl, hfolded⟩ := ih hlines hrest.symm hbefore
        exact ⟨l, List.mem_cons_of_mem _ hl, hfolded⟩
  · rintro ⟨l, hl, hfolded⟩
    obtain ⟨before, after, rfl⟩ := List.append_of_mem hl
    obtain ⟨c, cs, rfl⟩ := List.exists_cons_of_ne_nil (hlines l hl).1
    refine ⟨before, c, cs ++ (crlf ++ (after.flatMap (· ++ crlf) ++ (crlf ++ body))), by simp, ?_,
      by simpa [isFolded] using hfolded⟩
    exact fun line hline => hlines line (List.mem_append_left _ hline)

end Lines

section Fields

variable {lines : List (List UInt8)}

theorem forall₂_isField_iff {fields : List (List UInt8 × List UInt8)} :
    List.Forall₂ IsField lines fields ↔
      (∀ line ∈ lines, (headerField line).isSome) ∧ fields = entries lines := by
  constructor
  · intro h
    induction h with
    | nil => exact ⟨by simp, rfl⟩
    | cons hfield _ ih =>
      have hread := headerField_eq_some_iff.mpr hfield
      refine ⟨List.forall_mem_cons.mpr ⟨hread ▸ rfl, ih.1⟩, ?_⟩
      rw [entries, List.filterMap_cons, hread, ih.2]
      rfl
  · rintro ⟨h, rfl⟩
    induction lines with
    | nil => exact .nil
    | cons line lines ih =>
      obtain ⟨hline, hlines⟩ := List.forall_mem_cons.mp h
      obtain ⟨field, hfield⟩ := Option.isSome_iff_exists.mp hline
      rw [entries, List.filterMap_cons, hfield]
      exact .cons (headerField_eq_some_iff.mp hfield) (ih hlines)

theorem isSome_headerField_iff {line : List UInt8} :
    (headerField line).isSome ↔ ∃ field, IsField line field := by
  rw [Option.isSome_iff_exists]
  exact exists_congr fun field => headerField_eq_some_iff

/-- A name that starts with white space is none of those the gate looks for. -/
theorem lower_ne_of_folded {line : List UInt8} {field : List UInt8 × List UInt8}
    (h : IsField line field) (hfolded : isFolded line) :
    ∀ name ∈ gateNames, field.1.map lower ≠ ascii name := by
  obtain ⟨raw, rfl, -, hne, -⟩ := h
  obtain ⟨c, cs, hfirst⟩ := List.exists_cons_of_ne_nil hne
  have hows : c = 0x20 ∨ c = 0x09 := by simpa [isFolded, hfirst, isOws] using hfolded
  have hheads : ∀ name ∈ gateNames, (ascii name).head? ≠ some (lower 0x20) ∧
      (ascii name).head? ≠ some (lower 0x09) := by decide
  intro name hname hsame
  have hhead := congrArg List.head? hsame
  rw [hfirst, List.map_cons, List.head?_cons] at hhead
  rcases hows with rfl | rfl
  · exact (hheads name hname).1 hhead.symm
  · exact (hheads name hname).2 hhead.symm

/-- Folded lines do not count for the verdict. -/
theorem gateVerdict_unfolded (token : List UInt8) (lines : List (List UInt8)) :
    gateVerdict token (entries lines) =
      gateVerdict token (entries (lines.filter fun line => !isFolded line)) := by
  apply SameValues.verdict
  intro name hname
  suffices h : valuesNamed name (entries lines) =
      valuesNamed name (entries (lines.filter fun line => !isFolded line)) by rw [h]
  induction lines with
  | nil => rfl
  | cons line lines ih =>
    cases hfolded : isFolded line with
    | true =>
      rw [List.filter_cons_of_neg (by simp [hfolded]), ← ih, entries, List.filterMap_cons]
      cases hread : headerField line with
      | none => rfl
      | some field =>
        have hother := lower_ne_of_folded (headerField_eq_some_iff.mp hread) hfolded name hname
        exact (SerialisedCommands.valuesNamed_cons name field _).trans (if_neg hother)
    | false =>
      rw [List.filter_cons_of_pos (by simp [hfolded]), entries, entries, List.filterMap_cons,
        List.filterMap_cons]
      cases headerField line with
      | none => exact ih
      | some field =>
        rw [entries, entries] at ih
        simp only [SerialisedCommands.valuesNamed_cons, ih]

end Fields

section Verdict

/-- What makes these lines those of a command that the token authorises. -/
structure AuthorisedCommand (token method : List UInt8) (lines : List (List UInt8)) : Prop where
  method : method = ascii "POST"
  token_set : token ≠ []
  fields : ∃ fields, List.Forall₂ IsField lines fields ∧ Authorises token fields ∧ Short fields

theorem authorisedCommand_iff {token method : List UInt8} {lines : List (List UInt8)} :
    AuthorisedCommand token method lines ↔ method = ascii "POST" ∧ token ≠ [] ∧
      (∀ line ∈ lines, (headerField line).isSome) ∧ gateVerdict token (entries lines) = .allow := by
  rw [gateVerdict_allow_iff]
  constructor
  · rintro ⟨hmethod, htoken, fields, hfields, hauth⟩
    obtain ⟨hread, rfl⟩ := forall₂_isField_iff.mp hfields
    exact ⟨hmethod, htoken, hread, hauth⟩
  · rintro ⟨hmethod, htoken, hread, hauth⟩
    exact ⟨hmethod, htoken, _, forall₂_isField_iff.mpr ⟨hread, rfl⟩, hauth⟩

variable {request token : CString} {line rest method : List UInt8} {lines : List (List UInt8)}

/-- The gate allows a request for a command when all lines of its header make up one. -/
theorem reflowGateCheck_allow_iff (hrequest : request.bytes = line ++ (crlf ++ rest))
    (hline : Unbroken line) (htarget : IsRequestLine line method cmdTarget)
    (hblock : IsBlock rest lines) :
    reflowGateCheck (some request) (some token) = .allow ↔
      AuthorisedCommand token.bytes method lines := by
  obtain ⟨⟨body, rfl⟩, hlines⟩ := hblock
  have hdrop : (line ++ (crlf ++ (lines.flatMap (· ++ crlf) ++ crlf ++ body))).drop
      (line.length + 2) = lines.flatMap (· ++ crlf) ++ (crlf ++ body) := by
    rw [← List.drop_drop, List.drop_left, List.append_assoc]
    rfl
  have hblank := strstr_blank_header hlines body
  rw [authorisedCommand_iff]
  simp only [reflowGateCheck, hrequest, strstr_crlf_line hline, List.take_left,
    gateRequestLine_eq_some_iff.mpr htarget, List.drop_left, hdrop]
  rw [if_neg (not_not.mpr rfl)]
  split_ifs with hmethod htoken
  · simp [hmethod]
  · simp [htoken]
  · rw [List.append_assoc, hblank]
    simp only [collect_lines hlines, not_not.mp hmethod, true_and, htoken, not_false_eq_true,
      ne_eq]
    by_cases hread : ∀ line ∈ lines, (headerField line).isSome
    · rw [foldlM_readLine hread, and_iff_right hread]
      rfl
    · have hbad : lines.foldlM readLine {} = none :=
        Option.eq_none_iff_forall_ne_some.mpr fun f hf => hread (isSome_of_foldlM_readLine hf)
      simp [hbad, hread]

/-- A request whose header block is not finished is not allowed. -/
theorem exists_block_of_allow (hrequest : request.bytes = line ++ (crlf ++ rest))
    (hline : Unbroken line) (htarget : IsRequestLine line method cmdTarget)
    (h : reflowGateCheck (some request) (some token) = .allow) : ∃ lines, IsBlock rest lines := by
  obtain ⟨lineEnd, m, t, hend, hparts, hcmd⟩ := allow_cases h
  rw [hrequest, strstr_crlf_line hline] at hend
  obtain rfl := Option.some.inj hend
  rw [hrequest, List.take_left, gateRequestLine_eq_some_iff.mpr htarget] at hparts
  obtain ⟨-, rfl⟩ := Prod.mk.inj (Option.some.inj hparts)
  obtain ⟨-, -, lines, fields, ⟨-, rest', heq, hblock⟩, -, -⟩ := hcmd rfl
  rw [hrequest, List.take_left, List.append_assoc] at heq
  exact ⟨lines, (first_line_unique hline hline heq).2 ▸ hblock⟩

/-- The lines that are not folded make up a command, and every folded line reads as a field. -/
theorem authorisedCommand_folded_iff {token : List UInt8} :
    AuthorisedCommand token method lines ↔
      AuthorisedCommand token method (lines.filter fun line => !isFolded line) ∧
        ∀ line ∈ lines, isFolded line → ∃ field, IsField line field := by
  have hread : (∀ line ∈ lines, (headerField line).isSome) ↔
      (∀ line ∈ lines.filter fun line => !isFolded line, (headerField line).isSome) ∧
        ∀ line ∈ lines, isFolded line → (headerField line).isSome := by
    simp only [List.mem_filter, Bool.not_eq_true']
    constructor
    · exact fun h => ⟨fun line hline => h line hline.1, fun line hline _ => h line hline⟩
    · rintro ⟨hunfolded, hfolded⟩ line hline
      cases hcase : isFolded line with
      | true => exact hfolded line hline hcase
      | false => exact hunfolded line ⟨hline, hcase⟩
  rw [authorisedCommand_iff, authorisedCommand_iff, ← gateVerdict_unfolded, hread]
  simp only [isSome_headerField_iff]
  tauto

end Verdict

/-- A request for a command with a folded line is refused exactly where one of its folded lines
does not read as a field, or the other lines do not make up a command that the token
authorises, or the header block is not finished. -/
theorem folding_refused_iff {request token : CString} {line rest method : List UInt8}
    (hrequest : request.bytes = line ++ (crlf ++ rest)) (hline : Unbroken line)
    (htarget : IsRequestLine line method cmdTarget) :
    (Folds rest → reflowGateCheck (some request) (some token) ≠ .allow) ↔
      ∀ lines, IsBlock rest lines → (∃ l ∈ lines, isFolded l) →
        (∃ l ∈ lines, isFolded l ∧ ¬∃ field, IsField l field) ∨
          ¬AuthorisedCommand token.bytes method (lines.filter fun l => !isFolded l) := by
  constructor
  · intro hrefused lines hblock hfolded
    have hnot := hrefused ((folds_iff_of_block hblock).mpr hfolded)
    rw [ne_eq, reflowGateCheck_allow_iff hrequest hline htarget hblock,
      authorisedCommand_folded_iff] at hnot
    by_contra hboth
    push Not at hboth
    exact hnot ⟨hboth.2, hboth.1⟩
  · intro hcond hfolds hallow
    obtain ⟨lines, hblock⟩ := exists_block_of_allow hrequest hline htarget hallow
    rw [reflowGateCheck_allow_iff hrequest hline htarget hblock,
      authorisedCommand_folded_iff] at hallow
    obtain ⟨hother, hfields⟩ := hallow
    obtain ⟨l, hl, hfolded, hno⟩ | hno :=
      hcond lines hblock ((folds_iff_of_block hblock).mp hfolds)
    · exact hno (hfields l hl hfolded)
    · exact hno hother

section Requests

def startLine : List UInt8 := ascii "POST /api/cmd?id=start HTTP/1.1"

theorem isRequestLine_start : IsRequestLine startLine (ascii "POST") cmdTarget :=
  gateRequestLine_eq_some_iff.mp (by decide)

theorem unbroken_startLine : Unbroken startLine :=
  SerialisedCommands.unbroken_of_inLine (List.all_iff_forall_prop.mp (by decide))

/-- The start line, a header that holds these lines, and an empty body. -/
def startWith (lines : List (List UInt8)) : List UInt8 :=
  startLine ++ (crlf ++ (lines.flatMap (· ++ crlf) ++ crlf))

/-- The token is continued by a line without a colon. -/
def bareLines : List (List UInt8) :=
  [ascii "Host: 10.0.0.1", ascii "X-Reflow-Token: abc", ascii " def"]

/-- The token is continued by a line with a colon in it. -/
def disguisedLines : List (List UInt8) :=
  [ascii "Host: 10.0.0.1", ascii "X-Reflow-Token: abc", ascii " def: ghi"]

theorem isBlock_of_inLine {lines : List (List UInt8)}
    (h : ∀ line ∈ lines, line ≠ [] ∧ line.all fun c => SerialisedCommands.InLine c) :
    IsBlock (lines.flatMap (· ++ crlf) ++ crlf) lines := by
  refine ⟨⟨[], (List.append_nil _).symm⟩, fun line hline => ?_⟩
  obtain ⟨hne, hbytes⟩ := h line hline
  exact ⟨hne, SerialisedCommands.unbroken_of_inLine (List.all_iff_forall_prop.mp hbytes)⟩

theorem folding_refused_iff_bare :
    (∃ l ∈ bareLines, isFolded l ∧ ¬∃ field, IsField l field) ∨
      ¬AuthorisedCommand abc.bytes (ascii "POST") (bareLines.filter fun l => !isFolded l) := by
  have hblock : IsBlock (bareLines.flatMap (· ++ crlf) ++ crlf) bareLines :=
    isBlock_of_inLine (List.all_iff_forall_prop.mp (by decide))
  have hbytes : (CString.ofBuffer (startWith bareLines)).bytes = startWith bareLines := by
    decide
  have hrefused : reflowGateCheck (some (.ofBuffer (startWith bareLines))) (some abc) ≠ .allow := by
    decide +kernel
  exact (folding_refused_iff hbytes unbroken_startLine isRequestLine_start).mp
    (fun _ => hrefused) bareLines hblock (by decide)

/-- A folded line with a colon in it is passed over, and the command is allowed. -/
theorem folded_line_is_allowed :
    (CString.ofBuffer (startWith disguisedLines)).bytes =
      startLine ++ (crlf ++ (disguisedLines.flatMap (· ++ crlf) ++ crlf)) ∧
      Unbroken startLine ∧ IsRequestLine startLine (ascii "POST") cmdTarget ∧
      Folds (disguisedLines.flatMap (· ++ crlf) ++ crlf) ∧
      reflowGateCheck (some (.ofBuffer (startWith disguisedLines))) (some abc) = .allow := by
  have hblock : IsBlock (disguisedLines.flatMap (· ++ crlf) ++ crlf) disguisedLines :=
    isBlock_of_inLine (List.all_iff_forall_prop.mp (by decide))
  exact ⟨by decide, unbroken_startLine, isRequestLine_start,
    (folds_iff_of_block hblock).mpr (by decide), by decide +kernel⟩

end Requests

end ReflowOven.LineFolding
