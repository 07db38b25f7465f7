import Mathlib.Data.Bool.AllAny
import ReflowOven.CommandAcceptance

/-!
# Encodings of one command query

A query is written from pairs of byte strings by percent-encoding both sides of each and
joining them. What the parser reads of it depends on the pairs alone: a string that fits its
array is read as it is, and a longer one is not read at all.
-/

namespace ReflowOven.CommandEncodings

open CommandQueryGrammar CommandAcceptance

section Tokens

/-- A byte that may stand for itself in a value. -/
def ValueByte (c : UInt8) : Prop := c ≠ 0 ∧ c ≠ 0x25 ∧ c ≠ 0x26

/-- A byte that may stand for itself in a key. -/
def KeyByte (c : UInt8) : Prop := ValueByte c ∧ c ≠ 0x3D

variable {s raw : List UInt8}

/-- An encoding is decoded whole, or refused where the string does not fit the array. -/
theorem decode_encoded (hnul : 0 ∉ s) (h : PercentEncodes ValueByte s raw) :
    decode tokenMax raw = if s.length ≤ 15 then some s else none := by
  have hdecode := percentDecode_of_encodes (fun hc => hc.2.1 rfl) h
  have hraw : 0 ∉ raw := h.notMem (fun hc => hc.1 rfl) (by decide) (by decide)
  apply Option.ext
  intro d
  rw [decode_eq_some_iff hraw, hdecode]
  constructor
  · rintro ⟨heq, hlen, -⟩
    obtain rfl := Option.some.inj heq
    rw [if_pos hlen]
  · intro heq
    split_ifs at heq with hlen
    obtain rfl := Option.some.inj heq
    exact ⟨rfl, hlen, hnul⟩

/-- What the parser has of a string: nothing, where it is too long. -/
def token (s : List UInt8) : List UInt8 := if s.length ≤ 15 then s else []

theorem decode_encoded_getD (hnul : 0 ∉ s) (h : PercentEncodes ValueByte s raw) :
    (decode tokenMax raw).getD [] = token s := by
  rw [decode_encoded hnul h, token]
  split_ifs <;> rfl

theorem eq_of_token {d : List UInt8} (h : token s = d) (hd : d ≠ []) : s = d := by
  rw [token] at h
  split_ifs at h
  · exact h
  · exact absurd h.symm hd

end Tokens

section Queries

/-- A segment `key=value`, each side in some encoding. -/
def EncodesPair (pair : List UInt8 × List UInt8) (seg : List UInt8) : Prop :=
  ∃ rawKey rawValue, seg = rawKey ++ 0x3D :: rawValue ∧ PercentEncodes KeyByte pair.1 rawKey ∧
    PercentEncodes ValueByte pair.2 rawValue

/-- The segments of the pairs, joined. -/
def EncodesQuery (pairs : List (List UInt8 × List UInt8)) (query : List UInt8) : Prop :=
  ∃ segs, List.Forall₂ EncodesPair pairs segs ∧ query = [0x26].intercalate segs

def NulFree (pair : List UInt8 × List UInt8) : Prop := 0 ∉ pair.1 ∧ 0 ∉ pair.2

variable {pair : List UInt8 × List UInt8} {pairs : List (List UInt8 × List UInt8)}
  {seg : List UInt8} {segs : List (List UInt8)}

theorem EncodesPair.ne_nil (h : EncodesPair pair seg) : seg ≠ [] := by
  obtain ⟨rawKey, rawValue, rfl, -⟩ := h
  exact List.append_ne_nil_of_right_ne_nil _ (List.cons_ne_nil _ _)

/-- A separator in a key or in a value is always escaped. -/
theorem EncodesPair.notMem (h : EncodesPair pair seg) : 0x26 ∉ seg := by
  obtain ⟨rawKey, rawValue, rfl, hkey, hvalue⟩ := h
  have hk : 0x26 ∉ rawKey := hkey.notMem (fun hc => hc.1.2.2 rfl) (by decide) (by decide)
  have hv : 0x26 ∉ rawValue := hvalue.notMem (fun hc => hc.2.2 rfl) (by decide) (by decide)
  simp only [List.mem_append, List.mem_cons, not_or]
  exact ⟨hk, by decide, hv⟩

theorem forall_of_encodes (h : List.Forall₂ EncodesPair pairs segs) :
    ∀ seg ∈ segs, seg ≠ [] ∧ 0x26 ∉ seg := by
  induction h with
  | nil => simp
  | cons hpair _ ih => exact List.forall_mem_cons.mpr ⟨⟨hpair.ne_nil, hpair.notMem⟩, ih⟩

/-- The query is cut where it was joined. -/
theorem segments_joined (hsegs : ∀ seg ∈ segs, seg ≠ [] ∧ 0x26 ∉ seg) :
    segments ([0x26].intercalate segs) = segs := by
  by_cases hnil : segs = []
  · rw [hnil]
    exact segments_nil
  · have hsplit := List.splitOn_intercalate 0x26 (fun seg hseg => (hsegs seg hseg).2) hnil
    rw [segments, hsplit]
    refine if_neg fun hlast => ?_
    exact (hsegs [] (List.mem_of_getLast? hlast)).1 rfl

theorem EncodesPair.view_eq (h : EncodesPair pair seg) (hnul : NulFree pair) :
    view seg = (token pair.1, token pair.2) ∧
      unreadable seg = !decide (pair.1.length ≤ 15 ∧ pair.2.length ≤ 15) := by
  obtain ⟨rawKey, rawValue, rfl, hkey, hvalue⟩ := h
  have hsep : 0x3D ∉ rawKey := hkey.notMem (fun hc => hc.2 rfl) (by decide) (by decide)
  have hkey' := hkey.mono fun c hc => hc.1
  have hdk := decode_encoded hnul.1 hkey'
  have hdv := decode_encoded hnul.2 hvalue
  constructor
  · simp only [view, splitSegment_of_mem hsep, Option.bind_some]
    rw [decode_encoded_getD hnul.1 hkey', decode_encoded_getD hnul.2 hvalue]
  · simp only [unreadable, splitSegment_of_mem hsep, Option.bind_some, hdk, hdv]
    by_cases hk : pair.1.length ≤ 15 <;> by_cases hv : pair.2.length ≤ 15 <;> simp [hk, hv]

/-- Both strings of the pair fit their arrays. -/
def Fits (pair : List UInt8 × List UInt8) : Prop := pair.1.length ≤ 15 ∧ pair.2.length ≤ 15

instance : DecidablePred Fits := fun _ => inferInstanceAs (Decidable (_ ∧ _))

def tokens (pair : List UInt8 × List UInt8) : List UInt8 × List UInt8 :=
  (token pair.1, token pair.2)

theorem tokens_of_fits (h : Fits pair) : tokens pair = pair := by
  rw [tokens, token, token, if_pos h.1, if_pos h.2]

theorem map_tokens (h : ∀ pair ∈ pairs, Fits pair) : pairs.map tokens = pairs := by
  calc pairs.map tokens = pairs.map id :=
        List.map_congr_left fun pair hpair => tokens_of_fits (h pair hpair)
    _ = pairs := List.map_id pairs

/-- What the parser has of the segments is a function of the pairs. -/
theorem views_of_encodes (h : List.Forall₂ EncodesPair pairs segs)
    (hnul : ∀ pair ∈ pairs, NulFree pair) :
    segs.map view = pairs.map tokens ∧
      segs.any unreadable = pairs.any fun pair => !decide (Fits pair) := by
  induction h with
  | nil => exact ⟨rfl, rfl⟩
  | cons hpair _ ih =>
    obtain ⟨hfirst, hrest⟩ := List.forall_mem_cons.mp hnul
    obtain ⟨hview, hunreadable⟩ := hpair.view_eq hfirst
    obtain ⟨hviews, hany⟩ := ih hrest
    constructor
    · rw [List.map_cons, List.map_cons, hview, hviews, tokens]
    · rw [List.any_cons, List.any_cons, hunreadable, hany]
      rfl

end Queries

section Parser

variable {pairs : List (List UInt8 × List UInt8)} {query query' : CString}

theorem summary_of_encodes (hnul : ∀ pair ∈ pairs, NulFree pair)
    (h : EncodesQuery pairs query.bytes) (h' : EncodesQuery pairs query'.bytes) :
    summary (segments query.bytes) = summary (segments query'.bytes) := by
  obtain ⟨segs, hsegs, hquery⟩ := h
  obtain ⟨segs', hsegs', hquery'⟩ := h'
  obtain ⟨hviews, hany⟩ := views_of_encodes hsegs hnul
  obtain ⟨hviews', hany'⟩ := views_of_encodes hsegs' hnul
  rw [hquery, hquery', segments_joined (forall_of_encodes hsegs),
    segments_joined (forall_of_encodes hsegs')]
  simp only [summary, hviews, hviews', hany, hany']

/-- An accepted command is the one that the pairs spell in full. -/
theorem spelt_of_accepts (hnul : ∀ pair ∈ pairs, NulFree pair)
    (h : EncodesQuery pairs query.bytes) {c : ReflowCmd}
    (hacc : Accepts (segments query.bytes) c) :
    (∀ pair ∈ pairs, Fits pair) ∧ ∃ id arg, valuesOf "id" pairs = [commandName id] ∧
      Argument pairs arg ∧ c = command id arg := by
  obtain ⟨id, arg, hleg, rfl⟩ := (accepts_iff_legible (notMem_segments query.noNul) c).mp hacc
  obtain ⟨segs, hsegs, hquery⟩ := h
  obtain ⟨hviews, hany⟩ := views_of_encodes hsegs hnul
  rw [hquery, segments_joined (forall_of_encodes hsegs)] at hleg
  have hfits : ∀ pair ∈ pairs, Fits pair := by
    have hnone := hany.symm.trans hleg.readable
    simpa using hnone
  have hpairs : segs.map view = pairs := hviews.trans (map_tokens hfits)
  have hid := hleg.id_once
  have harg := hleg.argument
  rw [hpairs] at hid harg
  exact ⟨hfits, id, arg, hid, harg, rfl⟩

/-- A rescued stop is one that a pair spells in full. -/
theorem spelt_of_asksStop (hnul : ∀ pair ∈ pairs, NulFree pair)
    (h : EncodesQuery pairs query.bytes) (hstop : AsksStop (segments query.bytes)) :
    (ascii "id", ascii "stop") ∈ pairs := by
  have hid : ascii "id" ≠ [] := by decide
  have hvalue : ascii "stop" ≠ [] := by decide
  have hmem := (stop_mem_iff (notMem_segments query.noNul)).mpr hstop
  obtain ⟨segs, hsegs, hquery⟩ := h
  rw [hquery, segments_joined (forall_of_encodes hsegs), (views_of_encodes hsegs hnul).1,
    valuesOf] at hmem
  simp only [List.mem_map, List.mem_filter, decide_eq_true_eq] at hmem
  obtain ⟨_, ⟨⟨pair, hpair, rfl⟩, hkey⟩, htext⟩ := hmem
  have hpair' : pair = (ascii "id", ascii "stop") :=
    Prod.ext (eq_of_token hkey hid) (eq_of_token htext hvalue)
  rwa [← hpair']

end Parser

/-- Percent-encoding is transparent. All encodings of the same pairs give the same result and
the same command. A string of at most 15 bytes is decoded to itself from any encoding, and a
longer one is refused; so that a command that comes out was spelt in full. -/
theorem encodings_agree {pairs : List (List UInt8 × List UInt8)}
    (hnul : ∀ pair ∈ pairs, NulFree pair) {query : CString}
    (h : EncodesQuery pairs query.bytes) (cmd : ReflowCmd) :
    (∀ query' : CString, EncodesQuery pairs query'.bytes →
      reflowCmdParse (some query') cmd = reflowCmdParse (some query) cmd) ∧
    (∀ s raw, 0 ∉ s → PercentEncodes ValueByte s raw →
      decode tokenMax raw = if s.length ≤ 15 then some s else none) ∧
    (∀ c, reflowCmdParse (some query) cmd = (.ok, c) → (∀ pair ∈ pairs, Fits pair) ∧
      ∃ id arg, valuesOf "id" pairs = [commandName id] ∧ Argument pairs arg ∧
        c = command id arg) ∧
    ((reflowCmdParse (some query) cmd).1 = .rejectStop → (ascii "id", ascii "stop") ∈ pairs) := by
  refine ⟨fun query' h' => ?_, fun s raw hs => decode_encoded hs,
    fun c hok => spelt_of_accepts hnul h (accepts_of_ok hok),
    fun hstop => spelt_of_asksStop hnul h (asksStop_of_rejectStop hstop)⟩
  rw [reflowCmdParse_eq, reflowCmdParse_eq, summary_of_encodes hnul h' h]

section Spellings

instance : DecidablePred ValueByte := fun _ => inferInstanceAs (Decidable (_ ∧ _ ∧ _))

instance : DecidablePred KeyByte := fun _ => inferInstanceAs (Decidable (_ ∧ _))

def stopPair : List UInt8 × List UInt8 := (ascii "id", ascii "stop")

/-- Every spelling of the two sides makes a query for a stop. -/
theorem encodesQuery_stop {rawKey rawValue : List UInt8}
    (hkey : PercentEncodes KeyByte (ascii "id") rawKey)
    (hvalue : PercentEncodes ValueByte (ascii "stop") rawValue) :
    EncodesQuery [stopPair] (rawKey ++ 0x3D :: rawValue) :=
  ⟨[rawKey ++ 0x3D :: rawValue], .cons ⟨rawKey, rawValue, rfl, hkey, hvalue⟩ .nil, by simp⟩

/-- `id=stop` and `%69d=s%74op` are one command. -/
theorem encodings_agree_stop :
    reflowCmdParse (some ⟨ascii "%69d=s%74op", by decide⟩) ⟨0, 0⟩ =
      reflowCmdParse (some ⟨ascii "id=stop", by decide⟩) ⟨0, 0⟩ := by
  have hnul : ∀ pair ∈ [stopPair], NulFree pair := by
    unfold NulFree
    decide
  have hplain : EncodesQuery [stopPair] (ascii "id=stop") :=
    encodesQuery_stop (percentEncodes_self (List.all_iff_forall_prop.mp (by decide)))
      (percentEncodes_self (List.all_iff_forall_prop.mp (by decide)))
  have hkey : PercentEncodes KeyByte (ascii "id") (ascii "%69d") :=
    .escaped (show hexValue 0x36 = some 6 from rfl) (show hexValue 0x39 = some 9 from rfl)
      (percentEncodes_self (List.all_iff_forall_prop.mp (by decide)))
  have hvalue : PercentEncodes ValueByte (ascii "stop") (ascii "s%74op") :=
    .plain (by decide) (.escaped (show hexValue 0x37 = some 7 from rfl)
      (show hexValue 0x34 = some 4 from rfl)
      (percentEncodes_self (List.all_iff_forall_prop.mp (by decide))))
  have hspelt : EncodesQuery [stopPair] (ascii "%69d=s%74op") := encodesQuery_stop hkey hvalue
  exact (encodings_agree hnul hplain ⟨0, 0⟩).1 _ hspelt

end Spellings

end ReflowOven.CommandEncodings
