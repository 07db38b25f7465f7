import Mathlib.Data.Bool.AllAny
import Mathlib.Data.List.Induction
import Mathlib.Data.List.ReduceOption
import ReflowOven.JsonReader
import ReflowOven.ProfilesJson

/-!
# What the profile list says

The text of a list of names is composed from the texts of its entries, and reads back as an
object that holds the names. The formatter leaves the text of an initial segment of its table,
and says whether the segment is all of it. It is where that leaves room for the wider of the
two closing texts.
-/

namespace ReflowOven

open JsonReader

section Names

/-- What the loop over a name appends for one byte. -/
def escapeByte (c : UInt8) : List UInt8 :=
  if c = 0x22 ∨ c = 0x5C then [0x5C, c]
  else if c < 0x20 then
    ascii "\\u00" ++ [hexChar (c >>> 4 &&& 0x0F), hexChar (c &&& 0x0F)]
  else [c]

def quoted (name : CString) : List UInt8 := 0x22 :: (name.bytes.flatMap escapeByte ++ [0x22])

theorem exists_ofNat_of_lt {c b : UInt8} (h : c < b) : ∃ n < b.toNat, c = UInt8.ofNat n :=
  ⟨c.toNat, h, by simp⟩

theorem readUnit_hexChar {c : UInt8} (h : c < 0x20) :
    readUnit 0x30 0x30 (hexChar (c >>> 4 &&& 0x0F)) (hexChar (c &&& 0x0F)) = some [c] := by
  have hall : ∀ n < 32, readUnit 0x30 0x30 (hexChar (UInt8.ofNat n >>> 4 &&& 0x0F))
      (hexChar (UInt8.ofNat n &&& 0x0F)) = some [UInt8.ofNat n] := by decide
  obtain ⟨n, hn, rfl⟩ := exists_ofNat_of_lt h
  exact hall n hn

theorem spells_escapeByte (c : UInt8) : Spells (escapeByte c) [c] := by
  unfold escapeByte
  split
  · next h =>
    apply spells_escaped
    · rcases h with rfl | rfl <;> decide
    · rw [escaped, if_pos (by tauto)]
  · next h =>
    rw [not_or] at h
    split
    · next hlow => exact spells_unit (readUnit_hexChar hlow)
    · next hlow => exact spells_plain h.1 h.2 hlow

theorem denotes_quoted (name : CString) : Denotes (quoted name) (.str name.bytes) := by
  have h := Spells.flatMap spells_escapeByte name.bytes
  rw [List.flatMap_singleton'] at h
  exact denotes_str h

theorem zero_notMem_escapeByte {c : UInt8} (hc : c ≠ 0) : 0 ∉ escapeByte c := by
  unfold escapeByte
  split
  · simpa using hc.symm
  · split
    · next h =>
      have hall : ∀ n < 32, 0 ∉ ascii "\\u00" ++ [hexChar (UInt8.ofNat n >>> 4 &&& 0x0F),
          hexChar (UInt8.ofNat n &&& 0x0F)] := by decide
      obtain ⟨n, hn, rfl⟩ := exists_ofNat_of_lt h
      exact hall n hn
    · simpa using hc.symm

theorem zero_notMem_quoted (name : CString) : 0 ∉ quoted name := by
  have hbytes : 0 ∉ name.bytes.flatMap escapeByte := by
    intro h
    obtain ⟨c, hc, h⟩ := List.mem_flatMap.mp h
    exact zero_notMem_escapeByte (fun h => name.noNul (h ▸ hc)) h
  simp [quoted, hbytes]

end Names

section Lists

/-- The text of a list of names. -/
def listText (names : List CString) (truncated : Bool) : List UInt8 :=
  jsonHead ++ separated (names.map quoted) ++ if truncated then jsonTailTruncated else jsonTail

/-- The object that a list of names is sent as. -/
def listObject (names : List CString) (truncated : Bool) : Json :=
  .obj ((ascii "profiles", .arr (names.map fun name => .str name.bytes)) ::
    if truncated then [(ascii "truncated", .bool true)] else [])

theorem isMember_profiles (names : List CString) :
    IsMember (ascii "\"profiles\":[" ++ (separated (names.map quoted) ++ [0x5D]))
      (ascii "profiles", .arr (names.map fun name => .str name.bytes)) := by
  have hkey : Spells (ascii "profiles") (ascii "profiles") :=
    spells_self (List.all_iff_forall_prop.mp (by decide))
  refine ⟨ascii "profiles", _, rfl, hkey, denotes_arr ?_⟩
  rw [List.forall₂_map_left_iff, List.forall₂_map_right_iff, List.forall₂_same]
  exact fun name _ => denotes_quoted name

theorem isMember_truncated :
    IsMember (ascii "\"truncated\":true") (ascii "truncated", .bool true) := by
  have hkey : Spells (ascii "truncated") (ascii "truncated") :=
    spells_self (List.all_iff_forall_prop.mp (by decide))
  exact ⟨ascii "truncated", ascii "true", rfl, hkey, denotes_true⟩

theorem readJson_listText (names : List CString) (truncated : Bool) :
    readJson (listText names truncated) = some (listObject names truncated) := by
  apply readJson_of_denotes
  have hprofiles := isMember_profiles names
  cases truncated with
  | false =>
    have h := denotes_obj (.cons hprofiles .nil)
    rw [separated_singleton] at h
    simpa [listText, listObject, jsonHead, jsonTail, ascii] using h
  | true =>
    have h := denotes_obj (.cons hprofiles (.cons isMember_truncated .nil))
    rw [separated_cons_cons, separated_singleton] at h
    simpa [listText, listObject, jsonHead, jsonTailTruncated, ascii] using h

theorem zero_notMem_separated {texts : List (List UInt8)} (h : ∀ text ∈ texts, 0 ∉ text) :
    0 ∉ separated texts := by
  induction texts with
  | nil => simp [separated]
  | cons text texts ih =>
    have htail := ih fun text ht => h text (List.mem_cons_of_mem _ ht)
    have hhead := h text List.mem_cons_self
    cases texts with
    | nil => rwa [separated_singleton]
    | cons text' texts =>
      rw [separated_cons_cons]
      simp [hhead, htail]

/-- A list text holds no NUL, so it is the string it is stored as. -/
theorem zero_notMem_listText (names : List CString) (truncated : Bool) :
    0 ∉ listText names truncated := by
  have hhead : 0 ∉ jsonHead := by decide
  have htail : 0 ∉ if truncated then jsonTailTruncated else jsonTail := by
    cases truncated <;> decide
  have hnames : 0 ∉ separated (names.map quoted) := by
    apply zero_notMem_separated
    intro text h
    obtain ⟨name, -, rfl⟩ := List.mem_map.mp h
    exact zero_notMem_quoted name
  simp only [listText, List.mem_append, hhead, hnames, htail, or_self, not_false_iff]

end Lists

section Writers

variable {cap : ℕ} {o o' : JsonOut cap} {s t : List UInt8} {reserve : ℕ}

/-- The buffer has room for the closing text and its NUL. -/
def JsonOut.Reserves (o : JsonOut cap) (reserve : ℕ) : Prop := o.text.length + reserve < cap

theorem put_of_room (o : JsonOut cap) (s : List UInt8) (reserve : ℕ)
    (h : o.text.length + s.length + reserve < cap) :
    ∃ o', put o s reserve = some o' ∧ o'.text = o.text ++ s := by
  rw [put, dif_neg (by omega)]
  exact ⟨_, rfl, rfl⟩

theorem text_of_put (h : put o s reserve = some o') : o'.text = o.text ++ s := by
  rw [put] at h
  split at h
  · cases h
  · cases h
    rfl

theorem reserves_of_put (h : put o s reserve = some o') : o'.Reserves reserve := by
  have htext := text_of_put h
  rw [put] at h
  split at h
  · cases h
  · next hroom =>
    have := o.room
    rw [JsonOut.Reserves, htext, List.length_append]
    omega

theorem length_of_put_none (h : put o s reserve = none) :
    cap ≤ (o.text ++ s).length + reserve := by
  rw [put] at h
  split at h
  · next hroom =>
    rw [List.length_append]
    omega
  · cases h

theorem put_nil (h : o.Reserves reserve) : put o [] reserve = some o := by
  rw [put, dif_neg (by simp only [JsonOut.Reserves, List.length_nil] at *; omega)]
  simp only [List.append_nil]

/-- Two writes in a row are one write of both texts. -/
theorem put_bind_put (o : JsonOut cap) (s t : List UInt8) (reserve : ℕ) :
    ((put o s reserve).bind fun o => put o t reserve) = put o (s ++ t) reserve := by
  have hroom := o.room
  by_cases h : s.length + reserve + 1 > cap - o.text.length
  · rw [put, dif_pos h, put, dif_pos (by rw [List.length_append]; omega)]
    rfl
  · rw [put, dif_neg h, Option.bind_some]
    simp only [put, List.length_append, List.append_assoc]
    split
    · rw [dif_pos (by omega)]
    · rw [dif_neg (by omega)]

theorem putJsonChar_eq (o : JsonOut cap) (c : UInt8) (reserve : ℕ) :
    putJsonChar o c reserve = put o (escapeByte c) reserve := by
  unfold putJsonChar escapeByte
  split
  · exact put_bind_put o [0x5C] [c] reserve
  · split
    · rfl
    · rfl

theorem foldlM_putJsonChar (h : o.Reserves reserve) (s : List UInt8) :
    s.foldlM (fun o c => putJsonChar o c reserve) o = put o (s.flatMap escapeByte) reserve := by
  induction s generalizing o with
  | nil => exact (put_nil h).symm
  | cons c s ih =>
    rw [List.foldlM_cons, putJsonChar_eq, List.flatMap_cons, ← put_bind_put]
    cases hput : put o (escapeByte c) reserve with
    | none => rfl
    | some o' => exact ih (reserves_of_put hput)

/-- A quoted name is written whole or not at all. -/
theorem putJsonString_eq (o : JsonOut cap) (name : CString) (reserve : ℕ) :
    putJsonString o name reserve = put o (quoted name) reserve := by
  have hquoted : quoted name = [0x22] ++ (name.bytes.flatMap escapeByte ++ [0x22]) := rfl
  rw [putJsonString, hquoted, ← put_bind_put, putCh]
  cases hput : put o [0x22] reserve with
  | none => rfl
  | some o' =>
    rw [Option.bind_some, Option.bind_some, foldlM_putJsonChar (reserves_of_put hput)]
    exact put_bind_put o' _ _ reserve

end Writers

section Table

/-- The names at the indices of a list, up to the first index without a profile. -/
def tableNames (lookup : ℕ → Option CString) (idxs : List ℕ) : List CString :=
  ((idxs.map lookup).takeWhile Option.isSome).reduceOption

variable {lookup : ℕ → Option CString} {i : ℕ} {idxs : List ℕ} {name : CString}

theorem tableNames_cons_none (h : lookup i = none) : tableNames lookup (i :: idxs) = [] := by
  simp [tableNames, h]

theorem tableNames_cons_some (h : lookup i = some name) :
    tableNames lookup (i :: idxs) = name :: tableNames lookup idxs := by
  simp [tableNames, h]

variable {cap : ℕ} {reserve : ℕ}

/-- The comma and the name that one turn of the loop writes. -/
def entryText (done : List CString) (name : CString) : List UInt8 :=
  if done.length > 0 then 0x2C :: quoted name else quoted name

theorem separated_append_quoted (done : List CString) (name : CString) :
    separated ((done ++ [name]).map quoted) =
      separated (done.map quoted) ++ entryText done name := by
  induction done with
  | nil => simp [separated, entryText]
  | cons first done ih =>
    cases done with
    | nil => simp [separated_cons_cons, entryText]
    | cons second done =>
      have hentry : entryText (first :: second :: done) name = entryText (second :: done) name :=
        rfl
      simp only [List.cons_append, List.map_cons, separated_cons_cons] at ih ⊢
      rw [ih, hentry, List.append_assoc, List.cons_append]

theorem put_entryText (done : List CString) (o : JsonOut cap) :
    ((if done.length > 0 then putCh o 0x2C reserve else some o).bind fun o =>
      putJsonString o name reserve) = put o (entryText done name) reserve := by
  simp only [putJsonString_eq, entryText]
  split
  · exact put_bind_put o [0x2C] (quoted name) reserve
  · rfl

/-- One turn of the loop, as one write. -/
theorem emitProfiles_succ (h : lookup i = some name) (k : ℕ) (done : List CString)
    (o : JsonOut cap) :
    emitProfiles lookup reserve (k + 1) i done.length o =
      match put o (entryText done name) reserve with
      | none => (o, true)
      | some o' => emitProfiles lookup reserve k (i + 1) (done ++ [name]).length o' := by
  rw [emitProfiles, h, ← put_entryText, List.length_append, List.length_singleton]
  cases (if done.length > 0 then putCh o 0x2C reserve else some o) with
  | none => rfl
  | some o' => rfl

theorem length_separated_quoted_le (done names : List CString) :
    (separated (done.map quoted)).length ≤ (separated ((done ++ names).map quoted)).length := by
  induction names using List.reverseRecOn with
  | nil => rw [List.append_nil]
  | append_singleton names name ih =>
    rw [← List.append_assoc, separated_append_quoted, List.length_append]
    omega

/-- What the loop leaves with `done` written and `names` to go: an initial segment of them, and
room for the closing text. The flag says that a name was left out, which is where all of them
would leave no such room. -/
structure Emitted (reserve : ℕ) (done names segment : List CString) (o : JsonOut cap)
    (truncated : Bool) : Prop where
  initial : segment <+: names
  text : o.text = jsonHead ++ separated ((done ++ segment).map quoted)
  reserves : o.Reserves reserve
  left_out : truncated = true ↔ segment ≠ names
  full : truncated = true ↔
    cap ≤ (jsonHead ++ separated ((done ++ names).map quoted)).length + reserve

section Emitted

variable {done names segment : List CString} {o : JsonOut cap} {truncated : Bool}

/-- The end of the table. -/
theorem Emitted.all (ho : o.Reserves reserve)
    (htext : o.text = jsonHead ++ separated (done.map quoted)) :
    Emitted reserve done [] [] o false where
  initial := List.nil_prefix
  text := by rw [List.append_nil, htext]
  reserves := ho
  left_out := by simp
  full := by
    rw [List.append_nil, ← htext]
    exact iff_of_false Bool.false_ne_true (Nat.not_le.mpr ho)

/-- A name that does not fit, and neither do the names after it with it. -/
theorem Emitted.cut (ho : o.Reserves reserve)
    (htext : o.text = jsonHead ++ separated (done.map quoted))
    (hput : put o (entryText done name) reserve = none) :
    Emitted reserve done (name :: names) [] o true where
  initial := List.nil_prefix
  text := by rw [List.append_nil, htext]
  reserves := ho
  left_out := by simp
  full := by
    refine iff_of_true rfl ?_
    have hfull := length_of_put_none hput
    have hmore := length_separated_quoted_le (done ++ [name]) names
    rw [htext, List.append_assoc, ← separated_append_quoted, List.length_append] at hfull
    rw [List.append_assoc, List.singleton_append] at hmore
    rw [List.length_append]
    omega

/-- A name that was written before the rest. -/
theorem Emitted.cons (h : Emitted reserve (done ++ [name]) names segment o truncated) :
    Emitted reserve done (name :: names) (name :: segment) o truncated where
  initial := by
    rw [List.cons_prefix_cons]
    exact ⟨rfl, h.initial⟩
  text := by
    have htext := h.text
    rwa [List.append_assoc, List.singleton_append] at htext
  reserves := h.reserves
  left_out := by
    rw [ne_eq, List.cons.injEq, and_iff_right rfl]
    exact h.left_out
  full := by
    have hfull := h.full
    rwa [List.append_assoc, List.singleton_append] at hfull

end Emitted

theorem exists_segment_emitProfiles (lookup : ℕ → Option CString) (done : List CString)
    {o : JsonOut cap} (ho : o.Reserves reserve)
    (htext : o.text = jsonHead ++ separated (done.map quoted)) (k i : ℕ) :
    ∃ segment o' truncated, emitProfiles lookup reserve k i done.length o = (o', truncated) ∧
      Emitted reserve done (tableNames lookup (List.range' i k)) segment o' truncated := by
  induction k generalizing i done o with
  | zero => exact ⟨[], o, false, rfl, .all ho htext⟩
  | succ k ih =>
    rw [List.range'_succ]
    cases hlookup : lookup i with
    | none =>
      rw [tableNames_cons_none hlookup]
      exact ⟨[], o, false, by rw [emitProfiles, hlookup], .all ho htext⟩
    | some name =>
      rw [tableNames_cons_some hlookup, emitProfiles_succ hlookup k done]
      cases hput : put o (entryText done name) reserve with
      | none => exact ⟨[], o, true, rfl, .cut ho htext hput⟩
      | some o' =>
        have htext' : o'.text = jsonHead ++ separated ((done ++ [name]).map quoted) := by
          rw [text_of_put hput, htext, separated_append_quoted, List.append_assoc]
        obtain ⟨segment, r, truncated, hrun, hemitted⟩ :=
          ih (done ++ [name]) (reserves_of_put hput) htext' (i + 1)
        exact ⟨name :: segment, r, truncated, hrun, hemitted.cons⟩

theorem jsonTail_fits (truncated : Bool) :
    (if truncated then jsonTailTruncated else jsonTail).length ≤ jsonTailTruncated.length := by
  cases truncated <;> decide

theorem exists_put_jsonHead (hcap : reflowProfilesJsonMin ≤ cap) (hpos : 0 < cap) :
    ∃ o, put (⟨[], hpos⟩ : JsonOut cap) jsonHead jsonTailTruncated.length = some o ∧
      o.text = jsonHead := by
  have hmin : reflowProfilesJsonMin = jsonHead.length + jsonTailTruncated.length + 1 := by
    rw [reflowProfilesJsonMin, List.length_append]
  apply put_of_room
  simp only [List.length_nil]
  omega

/-- From the least capacity on, the buffer holds the text of an initial segment of the table.
It is all of the table where that would leave room for the wider closing text. -/
theorem exists_segment_reflowProfilesJson {cap : ℕ} (hcap : reflowProfilesJsonMin ≤ cap)
    (lookup : ℕ → Option CString) (count : ℕ) :
    ∃ segment truncated, reflowProfilesJson cap lookup count = listText segment truncated ∧
      segment <+: tableNames lookup (List.range count) ∧
      (truncated = true ↔ segment ≠ tableNames lookup (List.range count)) ∧
      (truncated = true ↔ cap ≤ (listText (tableNames lookup (List.range count)) true).length) := by
  have hpos : 0 < cap := Nat.lt_of_lt_of_le (Nat.succ_pos _) hcap
  obtain ⟨o, hput, hhead⟩ := exists_put_jsonHead hcap hpos
  have ho := reserves_of_put hput
  obtain ⟨segment, r, truncated, hrun, hinitial, hr, hroom, hleft, hfull⟩ :=
    exists_segment_emitProfiles lookup [] ho (by simpa [separated] using hhead) count 0
  have htail := jsonTail_fits truncated
  obtain ⟨o', hput', htext'⟩ := put_of_room r
    (if truncated then jsonTailTruncated else jsonTail) 0
    (by rw [JsonOut.Reserves] at hroom; omega)
  rw [List.range_eq_range']
  refine ⟨segment, truncated, ?_, hinitial, hleft, ?_⟩
  · rw [reflowProfilesJson, dif_neg (by omega)]
    rw [List.length_nil] at hrun
    simp only [hput, hrun, hput', htext', hr, List.nil_append, listText]
  · rw [listText, List.length_append]
    exact hfull

/-- The list the server sends is the whole table. -/
example : reflowProfilesJson 256 profileNames reflowProfileCount =
    listText (tableNames profileNames (List.range reflowProfileCount)) false := by decide

end Table

end ReflowOven
