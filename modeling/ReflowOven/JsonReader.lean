import Mathlib.Data.List.Forall2
import ReflowOven.CTextFormatting
import ReflowOven.PercentCoding

/-!
# Reading JSON

A reader for JSON texts over bytes: objects, arrays, strings with their escapes, integers and
the three literals, with white space between the tokens. Bytes from 0x80 on stand for
themselves inside a string. The `Denotes` lemmas compose the text of a value from the texts of
its parts, so that what a writer wrote is read back without running the reader.
-/

namespace ReflowOven.JsonReader

inductive Json
  | null
  | bool (b : Bool)
  | num (n : ℤ)
  | str (s : List UInt8)
  | arr (elements : List Json)
  | obj (members : List (List UInt8 × Json))

section Reader

def isSpace (c : UInt8) : Bool := c = 0x20 ∨ c = 0x09 ∨ c = 0x0A ∨ c = 0x0D

def skipSpace (s : List UInt8) : List UInt8 := s.dropWhile isSpace

/-- UTF-8 of a code unit; surrogates have none. -/
def unitText (n : ℕ) : Option (List UInt8) :=
  if n < 0x80 then some [UInt8.ofNat n]
  else if n < 0x800 then some [UInt8.ofNat (0xC0 + n / 64), UInt8.ofNat (0x80 + n % 64)]
  else if 0xD800 ≤ n ∧ n < 0xE000 then none
  else some [UInt8.ofNat (0xE0 + n / 4096), UInt8.ofNat (0x80 + n / 64 % 64),
    UInt8.ofNat (0x80 + n % 64)]

/-- The code unit of four hexadecimal digits, as text. -/
def readUnit (a b c d : UInt8) : Option (List UInt8) :=
  match hexValue a, hexValue b, hexValue c, hexValue d with
  | some a, some b, some c, some d => unitText (((a * 16 + b) * 16 + c) * 16 + d)
  | _, _, _, _ => none

/-- The byte that a one-letter escape stands for. -/
def escaped (c : UInt8) : Option UInt8 :=
  if c = 0x22 ∨ c = 0x5C ∨ c = 0x2F then some c
  else if c = 0x62 then some 0x08
  else if c = 0x66 then some 0x0C
  else if c = 0x6E then some 0x0A
  else if c = 0x72 then some 0x0D
  else if c = 0x74 then some 0x09
  else none

/-- The bytes of a string up to its closing quote, and what follows it. -/
def readString : List UInt8 → Option (List UInt8 × List UInt8)
  | [] => none
  | c :: s =>
    if c = 0x22 then some ([], s)
    else if c = 0x5C then
      match s with
      | [] => none
      | e :: s =>
        if e = 0x75 then
          match s with
          | a :: b :: c :: d :: s =>
            (readUnit a b c d).bind fun text => (readString s).map fun r => (text ++ r.1, r.2)
          | _ => none
        else (escaped e).bind fun c => (readString s).map fun r => (c :: r.1, r.2)
    else if c < 0x20 then none
    else (readString s).map fun r => (c :: r.1, r.2)

def isDigit (c : UInt8) : Bool := 0x30 ≤ c ∧ c ≤ 0x39

/-- An integer without leading zeros; a fraction or an exponent is not read. -/
def readNatural (s : List UInt8) : Option (ℕ × List UInt8) :=
  let digits := s.takeWhile isDigit
  let rest := s.dropWhile isDigit
  if digits = [] ∨ (digits.length > 1 ∧ digits.head? = some 0x30) then none
  else if rest.head? = some 0x2E ∨ rest.head? = some 0x65 ∨ rest.head? = some 0x45 then none
  else some (digits.foldl (fun n c => n * 10 + (c.toNat - 0x30)) 0, rest)

def readNumber (s : List UInt8) : Option (Json × List UInt8) :=
  if s.head? = some 0x2D then (readNatural s.tail).map fun r => (.num (-r.1), r.2)
  else (readNatural s).map fun r => (.num r.1, r.2)

def readScalar (s : List UInt8) : Option (Json × List UInt8) :=
  if ascii "true" <+: s then some (.bool true, s.drop 4)
  else if ascii "false" <+: s then some (.bool false, s.drop 5)
  else if ascii "null" <+: s then some (.null, s.drop 4)
  else readNumber s

mutual

/-- The value at the start of a text, and what follows it. The first argument bounds the
depth and the number of elements; the length of the text is enough. -/
def readValue : ℕ → List UInt8 → Option (Json × List UInt8)
  | 0, _ => none
  | fuel + 1, s =>
    match skipSpace s with
    | [] => none
    | c :: s =>
      if c = 0x22 then (readString s).map fun r => (.str r.1, r.2)
      else if c = 0x5B then
        if (skipSpace s).head? = some 0x5D then some (.arr [], (skipSpace s).tail)
        else (readElements fuel s).map fun r => (.arr r.1, r.2)
      else if c = 0x7B then
        if (skipSpace s).head? = some 0x7D then some (.obj [], (skipSpace s).tail)
        else (readMembers fuel s).map fun r => (.obj r.1, r.2)
      else readScalar (c :: s)

def readElements : ℕ → List UInt8 → Option (List Json × List UInt8)
  | 0, _ => none
  | fuel + 1, s =>
    (readValue fuel s).bind fun v =>
      match skipSpace v.2 with
      | [] => none
      | c :: s =>
        if c = 0x2C then (readElements fuel s).map fun vs => (v.1 :: vs.1, vs.2)
        else if c = 0x5D then some ([v.1], s)
        else none

def readMembers : ℕ → List UInt8 → Option (List (List UInt8 × Json) × List UInt8)
  | 0, _ => none
  | fuel + 1, s =>
    match skipSpace s with
    | [] => none
    | q :: s =>
      if q ≠ 0x22 then none
      else (readString s).bind fun key =>
        match skipSpace key.2 with
        | [] => none
        | colon :: s =>
          if colon ≠ 0x3A then none
          else (readValue fuel s).bind fun v =>
            match skipSpace v.2 with
            | [] => none
            | c :: s =>
              if c = 0x2C then (readMembers fuel s).map fun ms => ((key.1, v.1) :: ms.1, ms.2)
              else if c = 0x7D then some ([(key.1, v.1)], s)
              else none

end

/-- The value that a whole text denotes. -/
def readJson (text : List UInt8) : Option Json :=
  (readValue (text.length + 1) text).bind fun v => if skipSpace v.2 = [] then some v.1 else none

end Reader

section Strings

/-- Inside a string, the text stands for the bytes. -/
def Spells (text bytes : List UInt8) : Prop :=
  ∀ s, readString (text ++ s) = (readString s).map fun r => (bytes ++ r.1, r.2)

theorem readString_cons (c : UInt8) (s : List UInt8) : readString (c :: s) =
    if c = 0x22 then some ([], s)
    else if c = 0x5C then
      match s with
      | [] => none
      | e :: s =>
        if e = 0x75 then
          match s with
          | a :: b :: c :: d :: s =>
            (readUnit a b c d).bind fun text => (readString s).map fun r => (text ++ r.1, r.2)
          | _ => none
        else (escaped e).bind fun c => (readString s).map fun r => (c :: r.1, r.2)
    else if c < 0x20 then none
    else (readString s).map fun r => (c :: r.1, r.2) := by
  rw [readString.eq_def]

theorem readString_escape {e : UInt8} (he : e ≠ 0x75) (s : List UInt8) :
    readString (0x5C :: e :: s) =
      (escaped e).bind fun c => (readString s).map fun r => (c :: r.1, r.2) := by
  rw [readString_cons, if_neg (by decide), if_pos rfl]
  simp only [if_neg he]

theorem readString_unit (a b c d : UInt8) (s : List UInt8) :
    readString (0x5C :: 0x75 :: a :: b :: c :: d :: s) =
      (readUnit a b c d).bind fun text => (readString s).map fun r => (text ++ r.1, r.2) := by
  rw [readString_cons, if_neg (by decide), if_pos rfl]
  simp only [if_true]

theorem spells_nil : Spells [] [] := by
  intro s
  rw [List.nil_append]
  cases readString s <;> rfl

theorem Spells.append {text text' bytes bytes' : List UInt8} (h : Spells text bytes)
    (h' : Spells text' bytes') : Spells (text ++ text') (bytes ++ bytes') := by
  intro s
  rw [List.append_assoc, h, h', Option.map_map]
  congr
  funext r
  simp

theorem Spells.flatMap {α : Type*} {spell : α → List UInt8} {mean : α → List UInt8}
    (h : ∀ a, Spells (spell a) (mean a)) (as : List α) :
    Spells (as.flatMap spell) (as.flatMap mean) := by
  induction as with
  | nil => exact spells_nil
  | cons a as ih => exact (h a).append ih

theorem spells_plain {c : UInt8} (hquote : c ≠ 0x22) (hescape : c ≠ 0x5C) (hlow : ¬c < 0x20) :
    Spells [c] [c] := by
  intro s
  rw [List.singleton_append, readString_cons, if_neg hquote, if_neg hescape, if_neg hlow]
  rfl

/-- No quotes, backslashes or control characters. -/
def Plain (text : List UInt8) : Prop := ∀ c ∈ text, c ≠ 0x22 ∧ c ≠ 0x5C ∧ ¬c < 0x20

instance (text : List UInt8) : Decidable (Plain text) :=
  List.decidableBAll (fun c => c ≠ 0x22 ∧ c ≠ 0x5C ∧ ¬c < 0x20) text

/-- A plain text spells itself. -/
theorem spells_self {text : List UInt8} (h : Plain text) : Spells text text := by
  induction text with
  | nil => exact spells_nil
  | cons c text ih =>
    obtain ⟨hquote, hescape, hlow⟩ := h c List.mem_cons_self
    have htail := ih fun c hc => h c (List.mem_cons_of_mem _ hc)
    exact (spells_plain hquote hescape hlow).append htail

theorem spells_escaped {e c : UInt8} (he : e ≠ 0x75) (h : escaped e = some c) :
    Spells [0x5C, e] [c] := by
  intro s
  rw [List.cons_append, List.singleton_append, readString_escape he, h, Option.bind_some]
  rfl

theorem spells_unit {a b c d : UInt8} {bytes : List UInt8} (h : readUnit a b c d = some bytes) :
    Spells [0x5C, 0x75, a, b, c, d] bytes := by
  intro s
  simp only [List.cons_append, List.nil_append]
  rw [readString_unit, h, Option.bind_some]

theorem readString_spelt {text bytes : List UInt8} (h : Spells text bytes) (rest : List UInt8) :
    readString (text ++ 0x22 :: rest) = some (bytes, rest) := by
  rw [h, readString_cons, if_pos rfl]
  simp

/-- How a text without its own closing quote can be read: as fewer bytes, as itself if it is
plain, or, where it ends in the middle of an escape, as bytes that end in the comma after the
quote. -/
inductive Unescaped (text bytes : List UInt8) : Prop
  | shorter (hlen : bytes.length < text.length)
  | plain (heq : bytes = text) (hplain : Plain text)
  | cut (htext : text.getLast? = some 0x5C) (hbytes : bytes.getLast? = some 0x2C)

theorem Unescaped.eq_imp {text bytes : List UInt8} (h : Unescaped text bytes)
    (heq : bytes = text) : Plain text := by
  cases h with
  | shorter hlen => exact absurd hlen (by simp [heq])
  | plain _ hplain => exact hplain
  | cut htext hbytes =>
    rw [heq, htext] at hbytes
    exact absurd hbytes (by decide)

/-- An escape in front makes the bytes fewer than the text. -/
theorem Unescaped.escape {text bytes s t : List UInt8} (h : Unescaped text bytes)
    (hlen : t.length < s.length) : Unescaped (s ++ text) (t ++ bytes) := by
  cases h with
  | shorter hshort => exact .shorter (by simp only [List.length_append]; omega)
  | plain heq _ => exact .shorter (by simp only [List.length_append, heq]; omega)
  | cut htext hbytes => exact .cut (by simp [htext]) (by simp [hbytes])

theorem Unescaped.cons {text bytes : List UInt8} (h : Unescaped text bytes) {c : UInt8}
    (hc : c ≠ 0x22 ∧ c ≠ 0x5C ∧ ¬c < 0x20) : Unescaped (c :: text) (c :: bytes) := by
  cases h with
  | shorter hshort => exact .shorter (by simpa using hshort)
  | plain heq hplain => exact .plain (by rw [heq]) (List.forall_mem_cons.mpr ⟨hc, hplain⟩)
  | cut htext hbytes =>
    refine .cut ?_ ?_
    · rw [List.getLast?_cons, htext, Option.getD_some]
    · rw [List.getLast?_cons, hbytes, Option.getD_some]

theorem readUnit_quote (a b c : UInt8) : readUnit 0x22 a b c = none ∧ readUnit a 0x22 b c = none ∧
    readUnit a b 0x22 c = none ∧ readUnit a b c 0x22 = none := by
  have hquote : hexValue 0x22 = none := by decide
  simp only [readUnit, hquote]
  refine ⟨trivial, ?_, ?_, ?_⟩
  · cases hexValue a <;> rfl
  · cases hexValue a <;> cases hexValue b <;> rfl
  · cases hexValue a <;> cases hexValue b <;> cases hexValue c <;> rfl

theorem length_readUnit_le {a b c d : UInt8} {bytes : List UInt8}
    (h : readUnit a b c d = some bytes) : bytes.length ≤ 3 := by
  unfold readUnit at h
  split at h
  · unfold unitText at h
    split_ifs at h <;> cases h <;> simp
  · cases h

/-- The quote that closes a text is no digit of a unit that the text leaves unfinished. -/
theorem readString_cut_unit {text : List UInt8} (hlen : text.length < 4) (w : List UInt8) :
    readString (0x5C :: 0x75 :: (text ++ 0x22 :: 0x2C :: 0x22 :: w)) = none := by
  rw [readString_cons, if_neg (by decide), if_pos rfl]
  simp only [if_true]
  rcases text with - | ⟨a, - | ⟨b, - | ⟨c, - | ⟨d, text⟩⟩⟩⟩
  · cases w with
    | nil => rfl
    | cons d w => simp [(readUnit_quote _ _ _).1]
  · simp [(readUnit_quote _ _ _).2.1]
  · simp [(readUnit_quote _ _ _).2.2.1]
  · simp [(readUnit_quote _ _ _).2.2.2]
  · simp only [List.length_cons] at hlen
    omega

/-- A backslash at the end of a text takes its closing quote, and the text goes on with the
comma. -/
theorem readString_cut_escape (w : List UInt8) :
    readString (0x5C :: 0x22 :: 0x2C :: 0x22 :: w) = some ([0x22, 0x2C], w) := by
  have hspells : Spells [0x5C, 0x22, 0x2C] [0x22, 0x2C] :=
    (spells_escaped (by decide) rfl).append (spells_plain (by decide) (by decide) (by decide))
  exact readString_spelt hspells w

/-- A text put between quotes as it is, with a comma and another quote after them. -/
theorem unescaped_of_readString {text w bytes rest : List UInt8}
    (h : readString (text ++ 0x22 :: 0x2C :: 0x22 :: w) = some (bytes, rest)) :
    Unescaped text bytes := by
  induction hn : text.length using Nat.strong_induction_on generalizing text bytes with
  | _ n ih =>
    cases text with
    | nil =>
      rw [List.nil_append, readString_cons, if_pos rfl] at h
      cases h
      exact .plain rfl (by simp [Plain])
    | cons c text =>
      by_cases hescape : c = 0x5C
      · subst hescape
        cases text with
        | nil =>
          cases h.symm.trans (readString_cut_escape w)
          exact .cut rfl rfl
        | cons e text =>
          rw [List.cons_append, List.cons_append] at h
          by_cases hunit : e = 0x75
          · subst hunit
            rcases Nat.lt_or_ge text.length 4 with hshort | hlong
            · rw [readString_cut_unit hshort] at h
              cases h
            · rcases text with - | ⟨a, - | ⟨b, - | ⟨c, - | ⟨d, text⟩⟩⟩⟩
              · exact absurd hlong (by simp)
              · exact absurd hlong (by simp)
              · exact absurd hlong (by simp)
              · exact absurd hlong (by simp)
              · simp only [List.cons_append] at h
                rw [readString_unit] at h
                obtain ⟨unit, hunit, htail⟩ := Option.bind_eq_some_iff.mp h
                obtain ⟨⟨bytes', rest'⟩, hread, heq⟩ := Option.map_eq_some_iff.mp htail
                cases heq
                have hlen := length_readUnit_le hunit
                have htext := ih _ (by simp only [← hn, List.length_cons]; omega) hread rfl
                exact htext.escape (s := [0x5C, 0x75, a, b, c, d]) (by simp; omega)
          · rw [readString_escape hunit] at h
            obtain ⟨x, -, htail⟩ := Option.bind_eq_some_iff.mp h
            obtain ⟨⟨bytes', rest'⟩, hread, heq⟩ := Option.map_eq_some_iff.mp htail
            cases heq
            have htext := ih _ (by simp only [← hn, List.length_cons]; omega) hread rfl
            exact htext.escape (s := [0x5C, e]) (t := [x]) (by simp)
      · rw [List.cons_append, readString_cons, if_neg hescape] at h
        split_ifs at h with hquote hlow
        · cases h
          exact .shorter (by simp)
        · obtain ⟨⟨bytes', rest'⟩, hread, heq⟩ := Option.map_eq_some_iff.mp h
          cases heq
          exact (ih _ (by simp [← hn]) hread rfl).cons ⟨hquote, hescape, hlow⟩

end Strings

section Texts

/-- What may follow a value inside another one. -/
def Delimits (rest : List UInt8) : Prop := ∀ c ∈ rest.head?, c = 0x2C ∨ c = 0x5D ∨ c = 0x7D

/-- The text is that of the value, wherever it stands. -/
structure Denotes (text : List UInt8) (v : Json) : Prop where
  starts : ∃ c s, text = c :: s ∧ isSpace c = false ∧ c ≠ 0x5D
  read : ∀ fuel rest, text.length < fuel → Delimits rest →
    readValue fuel (text ++ rest) = some (v, rest)

theorem skipSpace_cons {c : UInt8} (h : isSpace c = false) (s : List UInt8) :
    skipSpace (c :: s) = c :: s := by
  simp [skipSpace, h]

theorem readValue_cons {fuel : ℕ} (hfuel : 0 < fuel) {c : UInt8} (h : isSpace c = false)
    (s : List UInt8) : readValue fuel (c :: s) =
      if c = 0x22 then (readString s).map fun r => (.str r.1, r.2)
      else if c = 0x5B then
        if (skipSpace s).head? = some 0x5D then some (.arr [], (skipSpace s).tail)
        else (readElements (fuel - 1) s).map fun r => (.arr r.1, r.2)
      else if c = 0x7B then
        if (skipSpace s).head? = some 0x7D then some (.obj [], (skipSpace s).tail)
        else (readMembers (fuel - 1) s).map fun r => (.obj r.1, r.2)
      else readScalar (c :: s) := by
  obtain ⟨fuel, rfl⟩ := Nat.exists_eq_add_of_lt hfuel
  rw [Nat.zero_add, readValue, skipSpace_cons h]
  rfl

/-- What starts neither a text nor an array nor an object. -/
theorem readValue_scalar {fuel : ℕ} (hfuel : 0 < fuel) {c : UInt8} (h : isSpace c = false)
    (hstart : c ≠ 0x22 ∧ c ≠ 0x5B ∧ c ≠ 0x7B) (s : List UInt8) :
    readValue fuel (c :: s) = readScalar (c :: s) := by
  obtain ⟨hquote, hbracket, hbrace⟩ := hstart
  rw [readValue_cons hfuel h, if_neg hquote, if_neg hbracket, if_neg hbrace]

theorem denotes_str {text bytes : List UInt8} (h : Spells text bytes) :
    Denotes (0x22 :: (text ++ [0x22])) (.str bytes) := by
  refine ⟨⟨_, _, rfl, by decide, by decide⟩, fun fuel rest hfuel _ => ?_⟩
  rw [List.cons_append, readValue_cons (Nat.zero_lt_of_lt hfuel) (by decide), if_pos rfl,
    List.append_assoc, List.singleton_append, readString_spelt h]
  rfl

theorem denotes_true : Denotes (ascii "true") (.bool true) := by
  refine ⟨⟨_, _, rfl, by decide, by decide⟩, fun fuel rest hfuel _ => ?_⟩
  have hinitial : ascii "true" <+: ascii "true" ++ rest := List.prefix_append _ _
  have hcons : ascii "true" ++ rest = 0x74 :: ([0x72, 0x75, 0x65] ++ rest) := rfl
  rw [hcons, readValue_scalar (Nat.zero_lt_of_lt hfuel) (by decide) (by decide), readScalar,
    ← hcons, if_pos hinitial]
  rfl

theorem denotes_false : Denotes (ascii "false") (.bool false) := by
  refine ⟨⟨_, _, rfl, by decide, by decide⟩, fun fuel rest hfuel _ => ?_⟩
  have htrue : ¬ascii "true" <+: ascii "false" ++ rest := fun h =>
    absurd (List.cons_prefix_cons.mp h).1 (by decide)
  have hinitial : ascii "false" <+: ascii "false" ++ rest := List.prefix_append _ _
  have hcons : ascii "false" ++ rest = 0x66 :: ([0x61, 0x6C, 0x73, 0x65] ++ rest) := rfl
  rw [hcons, readValue_scalar (Nat.zero_lt_of_lt hfuel) (by decide) (by decide), readScalar,
    ← hcons, if_neg htrue, if_pos hinitial]
  rfl

/-- The texts of the elements of an array, or of the members of an object. -/
def separated (texts : List (List UInt8)) : List UInt8 := [0x2C].intercalate texts

@[simp] theorem separated_singleton (text : List UInt8) : separated [text] = text := by
  simp [separated]

theorem separated_cons_cons (text text' : List UInt8) (texts : List (List UInt8)) :
    separated (text :: text' :: texts) = text ++ 0x2C :: separated (text' :: texts) := by
  simp [separated, List.intercalate]

theorem separated_append (texts texts' : List (List UInt8)) (text : List UInt8) :
    separated (texts ++ text :: texts') =
      texts.flatMap (· ++ [0x2C]) ++ separated (text :: texts') := by
  induction texts with
  | nil => rfl
  | cons first texts ih =>
    rw [List.flatMap_cons, List.append_assoc, List.append_assoc, List.singleton_append, ← ih]
    cases texts with
    | nil => exact separated_cons_cons _ _ _
    | cons next texts => exact separated_cons_cons _ _ _

theorem delimits_comma (rest : List UInt8) : Delimits (0x2C :: rest) := by
  rintro _ ⟨⟩
  exact .inl rfl

theorem delimits_bracket (rest : List UInt8) : Delimits (0x5D :: rest) := by
  rintro _ ⟨⟩
  exact .inr (.inl rfl)

theorem delimits_brace (rest : List UInt8) : Delimits (0x7D :: rest) := by
  rintro _ ⟨⟩
  exact .inr (.inr rfl)

theorem exists_separated_cons (c : UInt8) (s : List UInt8) (texts : List (List UInt8)) :
    ∃ s', separated ((c :: s) :: texts) = c :: s' := by
  cases texts with
  | nil => exact ⟨s, separated_singleton _⟩
  | cons text texts => exact ⟨_, separated_cons_cons _ _ _⟩

theorem readElements_separated {text : List UInt8} {texts : List (List UInt8)} {v : Json}
    {vs : List Json} (h : Denotes text v) (hs : List.Forall₂ Denotes texts vs) (fuel : ℕ)
    (hfuel : (separated (text :: texts)).length + 1 < fuel) (rest : List UInt8) :
    readElements fuel (separated (text :: texts) ++ 0x5D :: rest) = some (v :: vs, rest) := by
  induction hs generalizing text v fuel with
  | nil =>
    obtain ⟨fuel, rfl⟩ := Nat.exists_eq_add_of_lt (Nat.zero_lt_of_lt hfuel)
    rw [separated_singleton] at hfuel ⊢
    have hread := h.read fuel _ (by omega) (delimits_bracket rest)
    rw [Nat.zero_add, readElements, hread, Option.bind_some, skipSpace_cons (by decide)]
    rfl
  | @cons text' v' texts vs h' hs ih =>
    obtain ⟨fuel, rfl⟩ := Nat.exists_eq_add_of_lt (Nat.zero_lt_of_lt hfuel)
    rw [separated_cons_cons, List.length_append, List.length_cons] at hfuel
    rw [separated_cons_cons, List.append_assoc, List.cons_append]
    have hread := h.read fuel _ (by omega)
      (delimits_comma (separated (text' :: texts) ++ 0x5D :: rest))
    rw [Nat.zero_add, readElements, hread, Option.bind_some, skipSpace_cons (by decide)]
    simp only [if_true, ih h' fuel (by omega)]
    rfl

/-- The text of an array is made of the texts of its elements. -/
theorem denotes_arr {texts : List (List UInt8)} {vs : List Json}
    (hs : List.Forall₂ Denotes texts vs) :
    Denotes (0x5B :: (separated texts ++ [0x5D])) (.arr vs) := by
  refine ⟨⟨_, _, rfl, by decide, by decide⟩, fun fuel rest hfuel _ => ?_⟩
  rw [List.cons_append, readValue_cons (Nat.zero_lt_of_lt hfuel) (by decide),
    if_neg (by decide), if_pos rfl, List.append_assoc, List.singleton_append]
  cases hs with
  | nil => rfl
  | @cons text v texts vs h hs =>
    obtain ⟨c, s, rfl, hspace, hclose⟩ := h.starts
    have hread := readElements_separated h hs (fuel - 1) (by
      simp only [List.length_cons, List.length_append, List.length_nil] at hfuel
      omega) rest
    obtain ⟨s', hs'⟩ := exists_separated_cons c s texts
    rw [hread, hs', List.cons_append, skipSpace_cons hspace, if_neg (by simpa using hclose)]
    rfl

/-- The text of a member: its key, a colon and its value. -/
def IsMember (text : List UInt8) (member : List UInt8 × Json) : Prop :=
  ∃ key value, text = 0x22 :: (key ++ 0x22 :: 0x3A :: value) ∧ Spells key member.1 ∧
    Denotes value member.2

theorem readMembers_member {text : List UInt8} {m : List UInt8 × Json} (h : IsMember text m)
    {fuel : ℕ} (hfuel : text.length < fuel) {rest : List UInt8} (hrest : Delimits rest) :
    readMembers (fuel + 1) (text ++ rest) =
      match skipSpace rest with
      | [] => none
      | c :: s =>
        if c = 0x2C then (readMembers fuel s).map fun ms => (m :: ms.1, ms.2)
        else if c = 0x7D then some ([m], s)
        else none := by
  obtain ⟨key, value, rfl, hkey, hvalue⟩ := h
  simp only [List.length_cons, List.length_append] at hfuel
  have hread := hvalue.read fuel rest (by omega) hrest
  simp only [List.cons_append, List.append_assoc]
  rw [readMembers, skipSpace_cons (by decide)]
  simp only [ne_eq, not_true_eq_false, if_false, readString_spelt hkey, Option.bind_some]
  rw [skipSpace_cons (by decide)]
  simp only [not_true_eq_false, if_false, hread, Option.bind_some]

theorem readMembers_separated {text : List UInt8} {texts : List (List UInt8)}
    {m : List UInt8 × Json} {ms : List (List UInt8 × Json)} (h : IsMember text m)
    (hs : List.Forall₂ IsMember texts ms) (fuel : ℕ)
    (hfuel : (separated (text :: texts)).length + 1 < fuel) (rest : List UInt8) :
    readMembers fuel (separated (text :: texts) ++ 0x7D :: rest) = some (m :: ms, rest) := by
  induction hs generalizing text m fuel with
  | nil =>
    obtain ⟨fuel, rfl⟩ := Nat.exists_eq_add_of_lt (Nat.zero_lt_of_lt hfuel)
    rw [separated_singleton] at hfuel ⊢
    rw [Nat.zero_add, readMembers_member h (by omega) (delimits_brace rest),
      skipSpace_cons (by decide)]
    rfl
  | @cons text' m' texts ms h' hs ih =>
    obtain ⟨fuel, rfl⟩ := Nat.exists_eq_add_of_lt (Nat.zero_lt_of_lt hfuel)
    rw [separated_cons_cons, List.length_append, List.length_cons] at hfuel
    rw [separated_cons_cons, List.append_assoc, List.cons_append, Nat.zero_add,
      readMembers_member h (by omega) (delimits_comma _), skipSpace_cons (by decide)]
    simp only [if_true, ih h' fuel (by omega)]
    rfl

/-- Members that are followed by more. -/
theorem readMembers_initial {texts : List (List UInt8)} {ms : List (List UInt8 × Json)}
    (hs : List.Forall₂ IsMember texts ms) {fuel : ℕ}
    (hfuel : (texts.flatMap (· ++ [0x2C])).length < fuel) (tail : List UInt8) :
    readMembers (fuel + texts.length) (texts.flatMap (· ++ [0x2C]) ++ tail) =
      (readMembers fuel tail).map fun r => (ms ++ r.1, r.2) := by
  induction hs with
  | nil => simp
  | @cons text m texts ms h hs ih =>
    simp only [List.flatMap_cons, List.length_append, List.length_singleton] at hfuel
    have hrest := ih (by omega)
    rw [List.flatMap_cons, List.append_assoc, List.append_assoc, List.singleton_append,
      List.length_cons, ← Nat.add_assoc, readMembers_member h (by omega) (delimits_comma _),
      skipSpace_cons (by decide)]
    simp only [if_true, hrest, Option.map_map, Function.comp_def, List.cons_append]

/-- The object that is made of the texts of its members ends at its brace, whatever stands
behind it. -/
theorem readValue_obj {texts : List (List UInt8)} {ms : List (List UInt8 × Json)}
    (hs : List.Forall₂ IsMember texts ms) {fuel : ℕ}
    (hfuel : (0x7B :: (separated texts ++ [0x7D])).length < fuel) (rest : List UInt8) :
    readValue fuel (0x7B :: (separated texts ++ [0x7D]) ++ rest) = some (.obj ms, rest) := by
  rw [List.cons_append, readValue_cons (Nat.zero_lt_of_lt hfuel) (by decide),
    if_neg (by decide), if_neg (by decide), if_pos rfl, List.append_assoc,
    List.singleton_append]
  cases hs with
  | nil => rfl
  | @cons text m texts ms h hs =>
    have hread := readMembers_separated h hs (fuel - 1) (by
      simp only [List.length_cons, List.length_append, List.length_nil] at hfuel
      omega) rest
    obtain ⟨key, value, rfl, -, -⟩ := h
    obtain ⟨s', hs'⟩ := exists_separated_cons 0x22 (key ++ 0x22 :: 0x3A :: value) texts
    rw [hread, hs', List.cons_append, skipSpace_cons (by decide), if_neg (by simp)]
    rfl

theorem denotes_obj {texts : List (List UInt8)} {ms : List (List UInt8 × Json)}
    (hs : List.Forall₂ IsMember texts ms) :
    Denotes (0x7B :: (separated texts ++ [0x7D])) (.obj ms) :=
  ⟨⟨_, _, rfl, by decide, by decide⟩, fun _ rest hfuel _ => readValue_obj hs hfuel rest⟩

/-- Behind a whole object there may be white space. -/
theorem readJson_obj {texts : List (List UInt8)} {ms : List (List UInt8 × Json)}
    (hs : List.Forall₂ IsMember texts ms) {rest : List UInt8} (hrest : skipSpace rest = []) :
    readJson (0x7B :: (separated texts ++ [0x7D]) ++ rest) = some (.obj ms) := by
  rw [readJson, readValue_obj hs (by simp), Option.bind_some, if_pos hrest]

theorem readJson_of_denotes {text : List UInt8} {v : Json} (h : Denotes text v) :
    readJson text = some v := by
  have hread := h.read _ [] (Nat.lt_succ_self text.length) (by simp [Delimits])
  rw [List.append_nil] at hread
  rw [readJson, hread]
  rfl

section Numbers

theorem isDigit_iff (c : UInt8) : isDigit c = true ↔ 0x30 ≤ c.toNat ∧ c.toNat ≤ 0x39 := by
  simp only [isDigit, Bool.decide_and, Bool.and_eq_true, decide_eq_true_eq, UInt8.le_iff_toNat_le]
  rfl

theorem Delimits.head_ne {rest : List UInt8} (h : Delimits rest) {c : UInt8}
    (hc : c ≠ 0x2C ∧ c ≠ 0x5D ∧ c ≠ 0x7D) : rest.head? ≠ some c := fun hhead => by
  have hdelimiter := h c hhead
  tauto

/-- The digits of a number end where a delimiter follows. -/
theorem readNatural_decimalText (n : ℕ) {rest : List UInt8} (h : Delimits rest) :
    readNatural (decimalText n ++ rest) = some (n, rest) := by
  have hdigits : ∀ c ∈ decimalText n, isDigit c = true := fun c hc =>
    (isDigit_iff c).mpr (digit_of_mem_decimalText hc)
  have hend : ∀ c ∈ rest.head?, ¬isDigit c = true := by
    intro c hc
    rcases h c hc with rfl | rfl | rfl <;> decide
  have htake : (decimalText n ++ rest).takeWhile isDigit = decimalText n := by
    rw [List.takeWhile_append_of_pos hdigits]
    cases rest with
    | nil => simp
    | cons c rest => rw [List.takeWhile_cons_of_neg (hend c rfl), List.append_nil]
  have hdrop : (decimalText n ++ rest).dropWhile isDigit = rest := by
    rw [List.dropWhile_append_of_pos hdigits]
    cases rest with
    | nil => rfl
    | cons c rest => exact List.dropWhile_cons_of_neg (hend c rfl)
  have hcanonical : ¬(decimalText n = [] ∨
      ((decimalText n).length > 1 ∧ (decimalText n).head? = some 0x30)) := by
    rintro (hnil | ⟨hlong, hzero⟩)
    · exact decimalText_ne_nil n hnil
    · refine head?_decimalText_ne (not_lt.mp fun hn => ?_) hzero
      simp [decimalText_of_lt hn] at hlong
  have hinteger : ¬(rest.head? = some 0x2E ∨ rest.head? = some 0x65 ∨ rest.head? = some 0x45) := by
    rintro (hhead | hhead | hhead)
    · exact h.head_ne (by decide) hhead
    · exact h.head_ne (by decide) hhead
    · exact h.head_ne (by decide) hhead
  simp only [readNatural, htake, hdrop, if_neg hcanonical, if_neg hinteger, foldl_decimalText]

/-- Where a number may start. -/
theorem starts_number {c : UInt8} (hc : c = 0x2D ∨ isDigit c = true) :
    isSpace c = false ∧ c ≠ 0x5D := by
  rcases hc with rfl | hdigit
  · decide
  · have hrange := (isDigit_iff c).mp hdigit
    refine ⟨?_, ?_⟩
    · by_contra hspace
      simp only [isSpace, decide_eq_false_iff_not, not_not] at hspace
      rcases hspace with rfl | rfl | rfl | rfl <;> exact absurd hdigit (by decide)
    · rintro rfl
      exact absurd hdigit (by decide)

/-- What starts like a number is read as one. -/
theorem readValue_number {c : UInt8} (hc : c = 0x2D ∨ isDigit c = true) {fuel : ℕ}
    (hfuel : 0 < fuel) (s : List UInt8) : readValue fuel (c :: s) = readNumber (c :: s) := by
  have hne (d : UInt8) (hd : d ≠ 0x2D ∧ isDigit d = false) : c ≠ d := by
    rintro rfl
    rcases hc with hsign | hdigit
    · exact hd.1 hsign
    · exact absurd (hdigit.symm.trans hd.2) (by decide)
  have hliteral (d : UInt8) (hd : d ≠ 0x2D ∧ isDigit d = false) (text : List UInt8) :
      ¬d :: text <+: c :: s := fun h => hne d hd (List.cons_prefix_cons.mp h).1.symm
  have htrue : ¬ascii "true" <+: c :: s := hliteral 0x74 (by decide) _
  have hfalse : ¬ascii "false" <+: c :: s := hliteral 0x66 (by decide) _
  have hnull : ¬ascii "null" <+: c :: s := hliteral 0x6E (by decide) _
  have hstart : c ≠ 0x22 ∧ c ≠ 0x5B ∧ c ≠ 0x7B :=
    ⟨hne 0x22 (by decide), hne 0x5B (by decide), hne 0x7B (by decide)⟩
  rw [readValue_scalar hfuel (starts_number hc).1 hstart, readScalar, if_neg htrue,
    if_neg hfalse, if_neg hnull]

theorem exists_decimalText_cons (n : ℕ) : ∃ c s, decimalText n = c :: s ∧ isDigit c = true := by
  cases htext : decimalText n with
  | nil => exact absurd htext (decimalText_ne_nil n)
  | cons c s =>
    have hmem : c ∈ decimalText n := htext ▸ List.mem_cons_self
    exact ⟨c, s, rfl, (isDigit_iff c).mpr (digit_of_mem_decimalText hmem)⟩

theorem denotes_decimalText (n : ℕ) : Denotes (decimalText n) (.num n) := by
  obtain ⟨c, s, htext, hdigit⟩ := exists_decimalText_cons n
  refine ⟨⟨c, s, htext, starts_number (.inr hdigit)⟩, fun fuel rest hfuel hrest => ?_⟩
  have hread := readNatural_decimalText n hrest
  have hsign : (decimalText n ++ rest).head? ≠ some 0x2D := by
    rw [htext]
    rintro ⟨⟩
    exact absurd hdigit (by decide)
  have hnumber : readNumber (decimalText n ++ rest) = some (.num n, rest) := by
    rw [readNumber, if_neg hsign, hread]
    rfl
  rw [htext, List.cons_append] at hnumber ⊢
  rw [readValue_number (.inr hdigit) (Nat.zero_lt_of_lt hfuel), hnumber]

theorem denotes_signedText (z : ℤ) : Denotes (signedText z) (.num z) := by
  cases z with
  | ofNat n => exact denotes_decimalText n
  | negSucc n =>
    refine ⟨⟨_, _, rfl, starts_number (.inl rfl)⟩, fun fuel rest hfuel hrest => ?_⟩
    have hread := readNatural_decimalText (n + 1) hrest
    rw [signedText, List.cons_append, readValue_number (.inl rfl) (Nat.zero_lt_of_lt hfuel),
      readNumber, List.head?_cons, if_pos rfl, List.tail_cons, hread]
    rfl

end Numbers

end Texts

end ReflowOven.JsonReader
