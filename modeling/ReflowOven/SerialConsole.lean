import Mathlib.Tactic.IntervalCases
import ReflowOven.CommandQueryGrammar
import ReflowOven.EventStream
import ReflowOven.OperatorPage
import ReflowOven.ProfilesJson

/-!
# The page on the serial port

The shell commands of `shell_cmds.c` that print, and the read loop of the page that is connected
to the port. A line of the shell may have the echo, the prompt and colours in front of it and
white space behind it, and the port cuts the text anywhere. Texts are their UTF-8 bytes, so
that the blanks are those of ASCII.
-/

namespace ReflowOven.SerialConsole

open EventStream JsonReader LineStreams OperatorPage

/-- The line that `cmd_json` prints of the telemetry it heard last. -/
def cmdJson (last : ReflowTelemetry) : List UInt8 :=
  (snprintk reflowJsonBufSz (reflowTelemetryJson last)).1

def entryText (i : ℕ) (name : List UInt8) : List UInt8 :=
  ascii "[" ++ decimalText i ++ ascii "] " ++ name

def nameOf (i : ℕ) : List UInt8 := ((profileNames i).map CString.bytes).getD []

/-- The lines that `cmd_profile` prints without an argument. -/
def cmdProfile : List (List UInt8) :=
  (List.range reflowProfileCount).map fun i => entryText i (nameOf i)

/-- `%d.%03d` of milli-degrees. -/
def milliText (mc : ℤ) : List UInt8 :=
  signedText (mc.tdiv 1000) ++ 0x2E ::
    (List.replicate (3 - (decimalText (mc.natAbs % 1000)).length) 0x30 ++
      decimalText (mc.natAbs % 1000))

/-- The lines that `cmd_status` prints. -/
def cmdStatus (last : ReflowTelemetry) : List (List UInt8) :=
  [ascii "state      : " ++ reflowStateStr last.state,
    ascii "fault      : " ++ reflowFaultStr last.fault,
    if last.tempValid ≠ 0 then ascii "temperature: " ++ milliText last.tempMc.toInt ++ ascii " C"
    else ascii "temperature: --  (no valid reading)",
    ascii "setpoint   : " ++ milliText last.setpointMc.toInt ++ ascii " C",
    ascii "duty       : " ++ decimalText (last.dutyPermille.toNat / 10) ++
      0x2E :: (decimalText (last.dutyPermille.toNat % 10) ++ ascii " %"),
    ascii "profile    : " ++ decimalText last.profileIdx.toNat ++ ascii " (" ++
      ((profileNames last.profileIdx.toNat).map CString.bytes).getD (ascii "?") ++ ascii ")",
    ascii "stage      : " ++
      decimalText (if last.nStages ≠ 0 then last.stageIdx.toNat + 1 else 0) ++
      0x2F :: (decimalText last.nStages.toNat ++ ascii ", " ++
        decimalText (last.stageMs.toNat / 1000) ++ ascii " s (total " ++
          decimalText (last.totalMs.toNat / 1000) ++ ascii " s)")]

section Matching

/-- `\s` -/
def isBlank (c : UInt8) : Bool := c = 0x20 ∨ (0x09 ≤ c ∧ c ≤ 0x0D)

/-- Whether `(.+?)\s*$` ends its group after `j` bytes. -/
def closes (t : List UInt8) (j : ℕ) : Bool :=
  (t.take j).all (fun c => c ≠ 0x0A ∧ c ≠ 0x0D) && (t.drop j).all isBlank

/-- The group of `\s+(.+?)\s*$`: most blanks first, then fewest bytes. -/
def groupOf (t : List UInt8) : Option (List UInt8) :=
  (List.range' 1 (t.takeWhile isBlank).length).reverse.findSome? fun i =>
    ((List.range' 1 (t.length - i)).find? (closes (t.drop i))).map fun j => (t.drop i).take j

/-- The groups of the pattern where it matches at the start of a text. -/
def entryAt : List UInt8 → Option (ℕ × List UInt8)
  | [] => none
  | c :: s =>
    if c = 0x5B ∧ s.takeWhile isDigit ≠ [] ∧ (s.dropWhile isDigit).head? = some 0x5D then
      (groupOf (s.dropWhile isDigit).tail).map fun name =>
        (CommandQueryGrammar.decimal (s.takeWhile isDigit), name)
    else none

/-- The leftmost match. -/
def matchEntry : List UInt8 → Option (ℕ × List UInt8)
  | [] => none
  | c :: s => (entryAt (c :: s)).or (matchEntry s)

end Matching

/-- `profs[i] = name`; a number from `2^32 - 1` on is no index of an array. -/
def assignAt (profs : List (Option (List UInt8))) (i : ℕ) (name : List UInt8) :
    List (Option (List UInt8)) :=
  if i < 2 ^ 32 - 1 then
    (profs ++ List.replicate (i + 1 - profs.length) none).set i (some name)
  else profs

def takeEntry (page : Page) (i : ℕ) (name : List UInt8) : Page :=
  let page := { page with profs := assignAt page.profs i name }
  page.addProfiles page.profs

/-- An object of another shape than a frame does not come up here. -/
def shellLine (page : Page) (ln : List UInt8) : Page :=
  if 0x7B ∈ ln then
    ((readJson (ln.dropWhile (· ≠ 0x7B))).bind Frame.ofJson).elim page page.update
  else (matchEntry ln).elim page fun m => takeEntry page m.1 m.2

/-- The read loop, with what `dec` makes of a chunk. -/
def readLoop : Reader UInt8 Page → List UInt8 → Reader UInt8 Page := Reader.read 0x0A shellLine

section Entries

/-- A name that the pattern takes whole. -/
structure Taken (name : List UInt8) : Prop where
  ne : name ≠ []
  first : name.head?.any isBlank = false
  last : name.getLast?.any isBlank = false
  line : name.all (fun c => c ≠ 0x0A ∧ c ≠ 0x0D) = true

variable {before after name : List UInt8}

/-- The group ends with the name and no earlier. -/
theorem closes_taken (h : Taken name) (hafter : ∀ c ∈ after, isBlank c = true) :
    closes (name ++ after) name.length = true ∧
      ∀ j < name.length, closes (name ++ after) j = false := by
  constructor
  · rw [closes, List.take_left, List.drop_left, Bool.and_eq_true]
    exact ⟨h.line, List.all_eq_true.mpr hafter⟩
  · intro j hj
    have hlast := h.last
    rw [List.getLast?_eq_some_getLast h.ne, Option.any_some] at hlast
    have hmem : name.getLast h.ne ∈ (name ++ after).drop j := by
      rw [List.drop_append_of_le_length (by omega)]
      have hne : name.drop j ≠ [] := by simpa using hj
      rw [← List.getLast_drop hne]
      exact List.mem_append_left _ (List.getLast_mem hne)
    rw [closes, Bool.and_eq_false_iff]
    right
    by_contra hall
    rw [Bool.not_eq_false, List.all_eq_true] at hall
    exact absurd (hall _ hmem) (by simp [hlast])

theorem groupOf_taken (h : Taken name) (hafter : ∀ c ∈ after, isBlank c = true) :
    groupOf (0x20 :: (name ++ after)) = some name := by
  obtain ⟨c, cs, rfl⟩ := List.exists_cons_of_ne_nil h.ne
  have hfirst : isBlank c = false := h.first
  have hblanks : (0x20 :: (c :: cs ++ after)).takeWhile isBlank = [0x20] := by
    rw [List.cons_append, List.takeWhile_cons_of_pos (by decide),
      List.takeWhile_cons_of_neg (by simp [hfirst])]
  have hfind : (List.range' 1 ((0x20 :: (c :: cs ++ after)).length - 1)).find?
      (closes (c :: cs ++ after)) = some (c :: cs).length := by
    obtain ⟨hend, hearly⟩ := closes_taken h hafter
    refine List.find?_range'_eq_some.mpr ⟨hend, ?_, fun j _ hj => ?_⟩
    · simp only [List.mem_range'_1, List.length_cons, List.length_append]
      omega
    · rw [hearly j hj]
      rfl
  rw [groupOf, hblanks]
  simp only [List.length_singleton, List.range'_one, List.reverse_singleton,
    List.findSome?_cons, List.drop_succ_cons, List.drop_zero, hfind, Option.map_some,
    List.take_left]

theorem entryAt_entryText (i : ℕ) (h : Taken name) (hafter : ∀ c ∈ after, isBlank c = true) :
    entryAt (entryText i name ++ after) = some (i, name) := by
  have htext : entryText i name ++ after =
      0x5B :: (decimalText i ++ 0x5D :: 0x20 :: (name ++ after)) := by
    simp [entryText, ascii]
  have hdigits : ∀ c ∈ decimalText i, isDigit c = true := fun c hc =>
    (isDigit_iff c).mpr (digit_of_mem_decimalText hc)
  have hclose : ¬isDigit 0x5D = true := by decide
  rw [htext, entryAt, List.takeWhile_append_of_pos hdigits, List.dropWhile_append_of_pos hdigits,
    List.takeWhile_cons_of_neg hclose, List.dropWhile_cons_of_neg hclose, List.append_nil,
    if_pos ⟨rfl, decimalText_ne_nil i, rfl⟩, List.tail_cons, groupOf_taken h hafter]
  exact congrArg (fun n => some (n, name)) (foldl_decimalText i)

/-- Where a digit run that starts before a bracket ends. -/
theorem exists_head_dropWhile (s rest : List UInt8) :
    ∃ d ∈ s ++ [0x5B], ((s ++ 0x5B :: rest).dropWhile isDigit).head? = some d := by
  induction s with
  | nil => exact ⟨0x5B, List.mem_singleton_self _, rfl⟩
  | cons c s ih =>
    by_cases hc : isDigit c = true
    · obtain ⟨d, hd, hhead⟩ := ih
      refine ⟨d, List.mem_cons_of_mem c hd, ?_⟩
      rwa [List.cons_append, List.dropWhile_cons_of_pos hc]
    · refine ⟨c, List.mem_cons_self, ?_⟩
      rw [List.cons_append, List.dropWhile_cons_of_neg hc]
      rfl

/-- No match starts in a text without a closing bracket. -/
theorem matchEntry_append (h : 0x5D ∉ before) (rest : List UInt8) :
    matchEntry (before ++ 0x5B :: rest) = matchEntry (0x5B :: rest) := by
  induction before with
  | nil => rfl
  | cons c s ih =>
    obtain ⟨-, hs⟩ := List.ne_and_not_mem_of_not_mem_cons h
    have hnone : entryAt (c :: (s ++ 0x5B :: rest)) = none := by
      obtain ⟨d, hd, hhead⟩ := exists_head_dropWhile s rest
      refine if_neg fun hat => ?_
      obtain rfl : d = 0x5D := Option.some.inj (hhead.symm.trans hat.2.2)
      rcases List.mem_append.mp hd with hmem | hmem
      · exact hs hmem
      · exact absurd hmem (by decide)
    rw [List.cons_append, matchEntry, hnone, Option.none_or, ih hs]

theorem matchEntry_of_notMem {line : List UInt8} (h : 0x5B ∉ line) : matchEntry line = none := by
  induction line with
  | nil => rfl
  | cons c s ih =>
    obtain ⟨hc, hs⟩ := List.ne_and_not_mem_of_not_mem_cons h
    rw [matchEntry, entryAt, if_neg fun hat => hc hat.1.symm, Option.none_or, ih hs]

theorem matchEntry_entry (i : ℕ) (h : Taken name) (hbefore : 0x5D ∉ before)
    (hafter : ∀ c ∈ after, isBlank c = true) :
    matchEntry (before ++ entryText i name ++ after) = some (i, name) := by
  have hentry := entryAt_entryText i h hafter
  have htext : entryText i name ++ after =
      0x5B :: (decimalText i ++ (ascii "] " ++ name) ++ after) := by
    simp [entryText, ascii]
  rw [htext] at hentry
  rw [List.append_assoc, htext, matchEntry_append hbefore, matchEntry, hentry]
  rfl

end Entries

section Lines

/-- What a line of the console carries. -/
inductive Output
  | json (t : ReflowTelemetry)
  | entry (i : ℕ)
  | other

/-- What the page makes of it. -/
def Output.effect : Output → Page → Page
  | .json t, page => page.update (.ofTelemetry t)
  | .entry i, page => takeEntry page i (nameOf i)
  | .other, page => page

/-- A line as it comes out of the port, its line feed aside. -/
inductive Carries : List UInt8 → Output → Prop
  | json (t : ReflowTelemetry) {before after : List UInt8}
      (hbefore : 0x7B ∉ before ∧ 0x0A ∉ before) (hafter : skipSpace after = [] ∧ 0x0A ∉ after) :
      Carries (before ++ cmdJson t ++ after) (.json t)
  | entry {i : ℕ} (hi : i < reflowProfileCount) {before after : List UInt8}
      (hbefore : 0x7B ∉ before ∧ 0x5D ∉ before ∧ 0x0A ∉ before)
      (hafter : (∀ c ∈ after, isBlank c = true) ∧ 0x0A ∉ after) :
      Carries (before ++ entryText i (nameOf i) ++ after) (.entry i)
  | other {line : List UInt8} (hbrace : 0x7B ∉ line) (hmatch : matchEntry line = none)
      (hline : 0x0A ∉ line) : Carries line .other

theorem cmdJson_eq (t : ReflowTelemetry) : cmdJson t = reflowTelemetryJson t := by
  exact buffer_holds valid_builtin t

theorem readJson_padded (t : ReflowTelemetry) {after : List UInt8} (hafter : skipSpace after = []) :
    readJson (reflowTelemetryJson t ++ after) = some (objectOf t) := by
  obtain ⟨texts, ms, hmembers, htext, hobject⟩ := exists_members (plain_builtin t)
  rw [← reflowTelemetryJson] at htext
  rw [htext, readJson_obj hmembers hafter]
  exact congrArg some hobject.symm

theorem exists_brace (t : ReflowTelemetry) : ∃ s, reflowTelemetryJson t = 0x7B :: s := by
  obtain ⟨texts, ms, -, htext, -⟩ := exists_members (plain_builtin t)
  rw [← reflowTelemetryJson] at htext
  exact ⟨_, htext⟩

theorem taken_nameOf {i : ℕ} (hi : i < reflowProfileCount) :
    Taken (nameOf i) ∧ 0x7B ∉ nameOf i ∧ 0x0A ∉ nameOf i := by
  rw [reflowProfileCount_eq] at hi
  interval_cases i <;>
    exact ⟨⟨by decide, by decide, by decide, by decide⟩, by decide, by decide⟩

theorem Carries.notMem {line : List UInt8} {out : Output} (h : Carries line out) :
    0x0A ∉ line := by
  cases h with
  | json t hbefore hafter =>
    have hjson := notMem_of_visible (visible_reflowTelemetryJson t) (c := 0x0A) (by decide)
    rw [cmdJson_eq]
    simp [hbefore.2, hafter.2, hjson]
  | @entry i hi before after hbefore hafter =>
    have hdigits := notMem_of_visible (visible_decimalText i) (c := 0x0A) (by decide)
    simp [entryText, ascii, hbefore.2.2, hafter.2, hdigits, (taken_nameOf hi).2.2]
  | other _ _ hline => exact hline

theorem shellLine_carries {line : List UInt8} {out : Output} (h : Carries line out)
    (page : Page) : shellLine page line = out.effect page := by
  cases h with
  | @json t before after hbefore hafter =>
    obtain ⟨s, hs⟩ := exists_brace t
    have hall : ∀ c ∈ before, decide (c ≠ 0x7B) = true := by
      intro c hc
      rw [decide_eq_true_eq]
      rintro rfl
      exact hbefore.1 hc
    have hdrop : (before ++ cmdJson t ++ after).dropWhile (· ≠ 0x7B) =
        reflowTelemetryJson t ++ after := by
      rw [cmdJson_eq, List.append_assoc, List.dropWhile_append_of_pos hall, hs]
      rfl
    have hmem : 0x7B ∈ before ++ cmdJson t ++ after := by simp [cmdJson_eq, hs]
    have hframe : (some (objectOf t)).bind Frame.ofJson = some (.ofTelemetry t) :=
      Frame.ofJson_telemetryObject t
    rw [shellLine, if_pos hmem, hdrop, readJson_padded t hafter.1, hframe]
    rfl
  | @entry i hi before after hbefore hafter =>
    obtain ⟨htaken, hbrace, -⟩ := taken_nameOf hi
    have hdigits : 0x7B ∉ decimalText i := fun hmem =>
      absurd (digit_of_mem_decimalText hmem).2 (by decide)
    have hafterBrace : 0x7B ∉ after := fun hmem => absurd (hafter.1 _ hmem) (by decide)
    have hmem : 0x7B ∉ before ++ entryText i (nameOf i) ++ after := by
      simp [entryText, ascii, hbefore.1, hdigits, hbrace, hafterBrace]
    rw [shellLine, if_neg hmem, matchEntry_entry i htaken hbefore.2.1 hafter.1]
    rfl
  | other hbrace hmatch _ =>
    rw [shellLine, if_neg hbrace, hmatch]
    rfl

/-- A text without brackets and line feeds. -/
def Inert (text : List UInt8) : Prop := ∀ c ∈ text, c ≠ 0x7B ∧ c ≠ 0x5B ∧ c ≠ 0x0A

instance (text : List UInt8) : Decidable (Inert text) :=
  List.decidableBAll (fun c => c ≠ 0x7B ∧ c ≠ 0x5B ∧ c ≠ 0x0A) text

theorem inert_append {text text' : List UInt8} (h : Inert text) (h' : Inert text') :
    Inert (text ++ text') := List.forall_mem_append.mpr ⟨h, h'⟩

theorem inert_cons {c : UInt8} {text : List UInt8} (hc : c ≠ 0x7B ∧ c ≠ 0x5B ∧ c ≠ 0x0A)
    (h : Inert text) : Inert (c :: text) := List.forall_mem_cons.mpr ⟨hc, h⟩

theorem Inert.carries {line : List UInt8} (h : Inert line) : Carries line .other :=
  .other (fun hmem => (h _ hmem).1 rfl) (matchEntry_of_notMem fun hmem => (h _ hmem).2.1 rfl)
    fun hmem => (h _ hmem).2.2 rfl

theorem inert_decimalText (n : ℕ) : Inert (decimalText n) := by
  intro c hc
  have hdigit := digit_of_mem_decimalText hc
  refine ⟨?_, ?_, ?_⟩ <;>
    · rintro rfl
      exact absurd hdigit (by decide)

theorem inert_milliText (mc : ℤ) : Inert (milliText mc) := by
  have hsigned : Inert (signedText (mc.tdiv 1000)) := by
    cases mc.tdiv 1000 with
    | ofNat n => exact inert_decimalText n
    | negSucc n => exact inert_cons (by decide) (inert_decimalText (n + 1))
  have hzeros (n : ℕ) : Inert (List.replicate n 0x30) := by
    intro c hc
    obtain rfl := List.eq_of_mem_replicate hc
    decide
  exact inert_append hsigned (inert_cons (by decide)
    (inert_append (hzeros _) (inert_decimalText _)))

/-- The page takes nothing of the state in human text. -/
theorem cmdStatus_carries (last : ReflowTelemetry) :
    List.Forall₂ Carries (cmdStatus last) ((cmdStatus last).map fun _ => .other) := by
  have hstate : Inert (reflowStateStr last.state) := by
    unfold reflowStateStr
    split_ifs <;> decide
  have hfault : Inert (reflowFaultStr last.fault) := by
    unfold reflowFaultStr
    split_ifs <;> decide
  have hname (idx : ℕ) : Inert (((profileNames idx).map CString.bytes).getD (ascii "?")) := by
    by_cases hidx : idx < 4
    · interval_cases idx <;> decide
    · have hnone : profileNames idx = none := by
        rw [profileNames, reflowProfileGet, if_pos (by rw [reflowProfileCount_eq]; omega)]
        rfl
      rw [hnone]
      decide
  rw [List.forall₂_map_right_iff, List.forall₂_same]
  intro line hline
  apply Inert.carries
  simp only [cmdStatus, List.mem_cons, List.not_mem_nil, or_false] at hline
  rcases hline with rfl | rfl | rfl | rfl | rfl | rfl | rfl
  · exact inert_append (by decide) hstate
  · exact inert_append (by decide) hfault
  · split_ifs
    · exact inert_append (inert_append (by decide) (inert_milliText _)) (by decide)
    · decide
  · exact inert_append (inert_append (by decide) (inert_milliText _)) (by decide)
  · exact inert_append (inert_append (by decide) (inert_decimalText _))
      (inert_cons (by decide)
        (inert_append (inert_decimalText _) (by decide)))
  · exact inert_append (inert_append (inert_append (inert_append (by decide)
      (inert_decimalText _)) (by decide)) (hname _)) (by decide)
  · exact inert_append (inert_append (by decide) (inert_decimalText _))
      (inert_cons (by decide)
        (inert_append (inert_append (inert_append (inert_append (inert_append
          (inert_decimalText _) (by decide)) (inert_decimalText _)) (by decide))
            (inert_decimalText _)) (by decide)))

theorem cmdProfile_carries :
    List.Forall₂ Carries cmdProfile ((List.range reflowProfileCount).map .entry) := by
  rw [cmdProfile, List.forall₂_map_left_iff, List.forall₂_map_right_iff, List.forall₂_same]
  intro i hi
  have h : Carries ([] ++ entryText i (nameOf i) ++ []) (.entry i) :=
    .entry (List.mem_range.mp hi) (by simp) (by simp)
  rwa [List.nil_append, List.append_nil] at h

end Lines

section Listing

theorem filterMap_zipIdx (l : List (Option (List UInt8))) (k : ℕ) {n : ℕ} (h : l.length ≤ n) :
    (l.zipIdx k).filterMap (fun p => p.1.map fun name => (p.2, name)) =
      (List.range' k n).filterMap fun i => l[i - k]?.join.map fun name => (i, name) := by
  induction l generalizing k n with
  | nil => simp
  | cons x l ih =>
    obtain ⟨n, rfl⟩ : ∃ m, n = m + 1 := ⟨n - 1, by simp at h; omega⟩
    have hrest : (List.range' (k + 1) n).filterMap
        (fun i => (x :: l)[i - k]?.join.map fun name => (i, name)) =
        (List.range' (k + 1) n).filterMap
          fun i => l[i - (k + 1)]?.join.map fun name => (i, name) := by
      refine List.filterMap_congr fun i hi => ?_
      have hlt := (List.mem_range'_1.mp hi).1
      rw [show i - k = i - (k + 1) + 1 by omega, List.getElem?_cons_succ]
    rw [List.zipIdx_cons, List.range'_succ, List.filterMap_cons, List.filterMap_cons, hrest,
      ih (k + 1) (by simpa using h)]
    simp

/-- The options of a list with holes. -/
theorem numbered_eq (l : List (Option (List UInt8))) {n : ℕ} (h : l.length ≤ n) :
    numbered l = (List.range n).filterMap fun i => l[i]?.join.map fun name => (i, name) := by
  rw [numbered, filterMap_zipIdx l 0 h, List.range_eq_range']
  rfl

variable {profs : List (Option (List UInt8))} {i : ℕ}

theorem length_assignAt (hi : i < 2 ^ 32 - 1) (name : List UInt8) :
    (assignAt profs i name).length = max profs.length (i + 1) := by
  rw [assignAt, if_pos hi, List.length_set, List.length_append, List.length_replicate]
  omega

theorem getElem?_assignAt (hi : i < 2 ^ 32 - 1) (name : List UInt8) (j : ℕ) :
    (assignAt profs i name)[j]?.join = if j = i then some name else profs[j]?.join := by
  have hlen : i < (profs ++ List.replicate (i + 1 - profs.length) none).length := by
    rw [List.length_append, List.length_replicate]
    omega
  rw [assignAt, if_pos hi, List.getElem?_set]
  by_cases hj : j = i
  · rw [if_pos hj.symm, if_pos hlen, if_pos hj, Option.join_some]
  · rw [if_neg (Ne.symm hj), if_neg hj, List.getElem?_append]
    by_cases hprofs : j < profs.length
    · rw [if_pos hprofs]
    · rw [if_neg hprofs, List.getElem?_eq_none (Nat.le_of_not_lt hprofs), List.getElem?_replicate]
      split_ifs <;> rfl

def Output.frame : Output → Option Frame
  | .json t => some (.ofTelemetry t)
  | _ => none

def Output.index : Output → Option ℕ
  | .entry i => some i
  | _ => none

/-- The page once the port is open. -/
def connected : Page := { Page.loaded with link := ascii "conectado pela porta USB" }

/-- The options for the numbers printed. -/
def listed (printed : List ℕ) : List (ℕ × List UInt8) :=
  ((List.range reflowProfileCount).filter (· ∈ printed)).map fun i => (i, nameOf i)

/-- The page as the lines so far make it. -/
structure Shown (outs : List Output) (page : Page) : Prop where
  cells : page.cells = ((outs.filterMap Output.frame).getLast?.map Frame.cells).getD markup
  hist : page.hist = ((outs.filterMap Output.frame).filterMap Frame.reading).rtake maxp
  link : page.link = (outs.filterMap Output.frame).getLast?.elim connected.link fun _ => []
  msg : page.msg = []
  lastProf : page.lastProf =
    ((outs.filterMap Output.frame).getLast?.map fun d => (d.profile : ℤ)).getD (-1)
  length : page.profs.length ≤ reflowProfileCount
  profs : ∀ i, page.profs[i]?.join =
    if i ∈ outs.filterMap Output.index then some (nameOf i) else none
  options : page.prof.options = listed (outs.filterMap Output.index)
  value : ∀ d ∈ (outs.filterMap Output.frame).getLast?, page.prof.value =
    if d.profile ∈ outs.filterMap Output.index then some d.profile else none

variable {outs : List Output} {page : Page}

theorem shown_connected : Shown [] connected := by
  constructor
  case value => simp
  case profs => simp [connected, Page.loaded]
  case options => simp [connected, Page.loaded, listed]
  all_goals simp [connected, Page.loaded]

theorem mem_listed {printed : List ℕ} (h : ∀ i ∈ printed, i < reflowProfileCount) (v : ℕ) :
    v ∈ (listed printed).map Prod.fst ↔ v ∈ printed := by
  have hv := h v
  simpa [listed] using hv

theorem Shown.lt_count (h : Shown outs page) :
    ∀ i ∈ outs.filterMap Output.index, i < reflowProfileCount := by
  intro i hi
  have hprofs := h.profs i
  rw [if_pos hi] at hprofs
  refine Nat.lt_of_lt_of_le ?_ h.length
  by_contra hge
  rw [List.getElem?_eq_none (Nat.le_of_not_lt hge)] at hprofs
  exact absurd hprofs (by simp)

theorem Shown.update_value (h : Shown outs page) (d : Frame) :
    (page.update d).prof.value =
      if d.profile ∈ outs.filterMap Output.index then some d.profile else none := by
  by_cases hprofile : (d.profile : ℤ) ≠ page.lastProf
  · simp only [Page.update, if_pos hprofile, Select.assign, h.options, mem_listed h.lt_count]
  · have hlastProf := h.lastProf
    cases hlast : (outs.filterMap Output.frame).getLast? with
    | none =>
      rw [hlast] at hlastProf
      simp only [Option.map_none, Option.getD_none] at hlastProf
      omega
    | some d' =>
      rw [hlast] at hlastProf
      simp only [Option.map_some, Option.getD_some] at hlastProf
      have hsame : d.profile = d'.profile := by omega
      rw [Page.update, if_neg hprofile, hsame]
      exact h.value d' hlast

theorem Shown.update (h : Shown outs page) (t : ReflowTelemetry) :
    Shown (outs ++ [Output.json t]) (page.update (.ofTelemetry t)) := by
  have hframes : (outs ++ [Output.json t]).filterMap Output.frame =
      outs.filterMap Output.frame ++ [.ofTelemetry t] := by simp [Output.frame]
  have hindices : (outs ++ [Output.json t]).filterMap Output.index =
      outs.filterMap Output.index := by simp [Output.index]
  have hoptions : (page.update (.ofTelemetry t)).prof.options = page.prof.options := by
    simp only [Page.update]
    split_ifs <;> rfl
  constructor
  case cells => simp [hframes, Page.update]
  case hist =>
    have hone : [Frame.ofTelemetry t].filterMap Frame.reading =
        (Frame.ofTelemetry t).reading.toList := by
      cases hd : (Frame.ofTelemetry t).reading <;> simp [hd]
    rw [hframes, List.filterMap_append, hone, ← chart_rtake, ← h.hist]
    rfl
  case link => simp [hframes, Page.update]
  case msg => exact h.msg
  case lastProf => simp [hframes, Page.update]
  case length => exact h.length
  case profs =>
    rw [hindices]
    exact h.profs
  case options => rw [hindices, hoptions, h.options]
  case value =>
    intro d hd
    rw [hframes, List.getLast?_concat] at hd
    obtain rfl := Option.some.inj hd
    rw [hindices]
    exact h.update_value _

theorem numbered_listed {printed : List ℕ} (hlength : profs.length ≤ reflowProfileCount)
    (hprofs : ∀ i, profs[i]?.join = if i ∈ printed then some (nameOf i) else none) :
    numbered profs = listed printed := by
  rw [numbered_eq profs hlength, listed, ← List.filterMap_eq_map', List.filterMap_filter]
  refine List.filterMap_congr fun j _ => ?_
  rw [hprofs]
  by_cases hj : j ∈ printed <;> simp [hj]

theorem Shown.takeEntry (h : Shown outs page) {i : ℕ} (hi : i < reflowProfileCount) :
    Shown (outs ++ [Output.entry i]) (takeEntry page i (nameOf i)) := by
  have hframes : (outs ++ [Output.entry i]).filterMap Output.frame =
      outs.filterMap Output.frame := by simp [Output.frame]
  have hindices : (outs ++ [Output.entry i]).filterMap Output.index =
      outs.filterMap Output.index ++ [i] := by simp [Output.index]
  have hsmall : i < 2 ^ 32 - 1 := by
    rw [reflowProfileCount_eq] at hi
    omega
  have hlength : (assignAt page.profs i (nameOf i)).length ≤ reflowProfileCount := by
    rw [length_assignAt hsmall]
    exact Nat.max_le.mpr ⟨h.length, hi⟩
  have hprofs (j : ℕ) : (assignAt page.profs i (nameOf i))[j]?.join =
      if j ∈ outs.filterMap Output.index ++ [i] then some (nameOf j) else none := by
    rw [getElem?_assignAt hsmall, h.profs]
    by_cases hj : j = i
    · rw [if_pos hj, if_pos (by rw [hj]; exact List.mem_concat_self), hj]
    · rw [if_neg hj]
      simp only [List.mem_append, List.mem_singleton, hj, or_false]
  have hnumbered := numbered_listed hlength hprofs
  have hlt : ∀ j ∈ outs.filterMap Output.index ++ [i], j < reflowProfileCount := by
    intro j hj
    rcases List.mem_append.mp hj with hj | hj
    · exact h.lt_count j hj
    · exact List.mem_singleton.mp hj ▸ hi
  constructor
  case cells => rw [hframes]; exact h.cells
  case hist => rw [hframes]; exact h.hist
  case link => rw [hframes]; exact h.link
  case msg => exact h.msg
  case lastProf => rw [hframes]; exact h.lastProf
  case length => exact hlength
  case profs =>
    rw [hindices]
    exact hprofs
  case options =>
    rw [hindices, ← hnumbered]
    simp only [SerialConsole.takeEntry, Page.addProfiles, foldl_appendChild]
    split_ifs <;> rfl
  case value =>
    intro d hd
    have hlastProf := h.lastProf
    rw [hframes] at hd
    rw [Option.mem_def.mp hd, Option.map_some, Option.getD_some] at hlastProf
    simp only [SerialConsole.takeEntry, Page.addProfiles, foldl_appendChild, hnumbered, hlastProf,
      if_pos (Int.natCast_nonneg _), Int.toNat_natCast, Select.assign, List.nil_append,
      mem_listed hlt, hindices]

theorem Shown.effect (h : Shown outs page) {line : List UInt8} {out : Output}
    (hline : Carries line out) : Shown (outs ++ [out]) (out.effect page) := by
  cases hline with
  | json t _ _ => exact h.update t
  | entry hi _ _ => exact h.takeEntry hi
  | other _ _ _ =>
    have hframes : (outs ++ [Output.other]).filterMap Output.frame =
        outs.filterMap Output.frame := by simp [Output.frame]
    have hindices : (outs ++ [Output.other]).filterMap Output.index =
        outs.filterMap Output.index := by simp [Output.index]
    obtain ⟨hcells, hhist, hlink, hmsg, hlastProf, hlength, hprofs, hoptions, hvalue⟩ := h
    rw [← hframes] at hcells hhist hlink hlastProf hvalue
    rw [← hindices] at hprofs hoptions hvalue
    exact ⟨hcells, hhist, hlink, hmsg, hlastProf, hlength, hprofs, hoptions, hvalue⟩

theorem Shown.foldl_effect (h : Shown outs page) {ls : List (List UInt8)} {outs' : List Output}
    (hls : List.Forall₂ Carries ls outs') :
    Shown (outs ++ outs') (ls.foldl shellLine page) := by
  induction hls generalizing outs page with
  | nil => simpa using h
  | @cons line out ls outs' hline _ ih =>
    have hrest := ih (h.effect hline)
    rwa [List.append_assoc, List.singleton_append, ← shellLine_carries hline] at hrest

theorem foldl_readLoop {ls : List (List UInt8)} (hls : ∀ l ∈ ls, 0x0A ∉ l) {tail : List UInt8}
    (htail : 0x0A ∉ tail) {chunks : List (List UInt8)}
    (hchunks : chunks.flatten = terminated 0x0A ls ++ tail) (page : Page) :
    chunks.foldl readLoop ⟨[], page⟩ = ⟨tail, ls.foldl shellLine page⟩ := by
  have hread := foldl_read 0x0A shellLine page [] chunks
  rwa [List.nil_append, hchunks, rest_terminated hls, lines_terminated hls, lines_of_notMem htail,
    rest_of_notMem htail, List.append_nil] at hread

theorem notMem_of_carries {ls : List (List UInt8)} {outs : List Output}
    (h : List.Forall₂ Carries ls outs) : ∀ l ∈ ls, 0x0A ∉ l :=
  ((List.forall₂_and_left ls outs).mp (h.imp fun _ _ hline => ⟨hline.notMem, hline⟩)).1

/-- However the port cuts the console's text, with echo, prompts, colours and lines of other
origin in between, the page takes every line that is whole: it shows the last frame, keeps the
last readings, offers exactly the profiles listed, each under its number, and selects that of
the last frame once it is listed. The line that has not ended is left for later. -/
theorem page_shows_the_console {ls : List (List UInt8)} {outs : List Output}
    (h : List.Forall₂ Carries ls outs) {tail : List UInt8} (htail : 0x0A ∉ tail)
    {chunks : List (List UInt8)} (hchunks : chunks.flatten = terminated 0x0A ls ++ tail) :
    ∃ page, chunks.foldl readLoop ⟨[], connected⟩ = ⟨tail, page⟩ ∧ Shown outs page :=
  ⟨_, foldl_readLoop (notMem_of_carries h) htail hchunks connected,
    shown_connected.foldl_effect h⟩

/-- The prompt of the shell in its colour. -/
def prompt : List UInt8 := 0x1B :: ascii "[1;32muart:~$ "

def promptedLines : List (List UInt8) :=
  cmdProfile ++ cmdStatus Appliance.blank ++ [prompt ++ cmdJson Appliance.blank ++ [0x0D]]

theorem promptedLines_carry : List.Forall₂ Carries promptedLines
    ((List.range reflowProfileCount).map .entry ++
      (cmdStatus Appliance.blank).map (fun _ => .other) ++ [.json Appliance.blank]) := by
  have hjson : Carries (prompt ++ cmdJson Appliance.blank ++ [0x0D]) (.json Appliance.blank) :=
    .json _ (by decide) (by decide)
  exact List.rel_append (List.rel_append cmdProfile_carries (cmdStatus_carries _))
    (.cons hjson .nil)

theorem page_shows_the_console_prompted :
    ∃ page, [(terminated 0x0A promptedLines ++ prompt).take 50,
        (terminated 0x0A promptedLines ++ prompt).drop 50].foldl readLoop ⟨[], connected⟩ =
          ⟨prompt, page⟩ ∧
        Shown ((List.range reflowProfileCount).map .entry ++
          (cmdStatus Appliance.blank).map (fun _ => .other) ++ [.json Appliance.blank]) page :=
  page_shows_the_console promptedLines_carry (by decide) (by simp)

end Listing

end ReflowOven.SerialConsole
