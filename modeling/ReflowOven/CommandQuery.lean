import ReflowOven.ApplicationContract
import ReflowOven.PercentCoding
import ReflowOven.ReflowProfiles

/-!
# The query of a command request

The parser `cmdparse.c`. A pointer into the query is the rest of the query from there.
-/

namespace ReflowOven

def tokenMax : ℕ := 16

/-- `none` is the value -1. -/
def hexDigit (c : UInt8) : Option ℕ :=
  if c ≥ 0x30 ∧ c ≤ 0x39 then some (c.toNat - 0x30)
  else if c ≥ 0x61 ∧ c ≤ 0x66 then some (c.toNat - 0x61 + 10)
  else if c ≥ 0x41 ∧ c ≤ 0x46 then some (c.toNat - 0x41 + 10)
  else none

/-- The loop of `decode`: `out` holds the `n` bytes written so far. -/
def decodeLoop (outSz : ℕ) : List UInt8 → List UInt8 → Option (List UInt8)
  | [], out => some out
  | c :: src, out =>
    if c = 0x25 then
      match src with
      | h :: l :: src =>
        match hexDigit h, hexDigit l with
        | some hi, some lo =>
          let c := UInt8.ofNat (hi <<< 4 ||| lo)
          if c = 0 then none
          else if out.length + 1 ≥ outSz then none
          else decodeLoop outSz src (out ++ [c])
        | _, _ => none
      | _ => none
    else if out.length + 1 ≥ outSz then none
    else decodeLoop outSz src (out ++ [c])

/-- Percent-decode the bytes between two pointers into an array of `outSz` bytes. -/
def decode (outSz : ℕ) (src : List UInt8) : Option (List UInt8) := decodeLoop outSz src []

def parseIndexLoop : List UInt8 → ℕ → Option ℕ
  | [], v => some v
  | c :: s, v =>
    if c < 0x30 ∨ c > 0x39 then none
    else
      let v := u32 (v * 10 + (c.toNat - 0x30))
      if v > 0xFFFF then none else parseIndexLoop s v

def parseIndex (s : List UInt8) : Option ℕ :=
  if s = [] then none else parseIndexLoop s 0

def commandId (value : List UInt8) : Option ReflowCmdId :=
  if value = ascii "start" then some .start
  else if value = ascii "stop" then some .stop
  else if value = ascii "clear" then some .clearFault
  else if value = ascii "profile" then some .selectProfile
  else none

inductive ReflowCmdParse | ok | reject | rejectStop
  deriving DecidableEq, Repr

/-- The locals of the parser that live from one segment to the next. -/
structure ParseFlags where
  haveId : Bool := false
  haveArg : Bool := false
  ambiguous : Bool := false
  malformed : Bool := false
  sawStop : Bool := false
  id : UInt8 := 0
  arg : ℤ := 0
  deriving DecidableEq

/-- The bytes before the first `=`, and those after it, if there is one. -/
def splitSegment (seg : List UInt8) : List UInt8 × Option (List UInt8) :=
  if 0x3D ∈ seg then (seg.takeWhile (· ≠ 0x3D), some (seg.dropWhile (· ≠ 0x3D)).tail)
  else (seg, none)

def markMalformed (bad : Bool) (st : ParseFlags) : ParseFlags :=
  if bad then { st with malformed := true } else st

def readId (value : List UInt8) (st : ParseFlags) : ParseFlags :=
  let ambiguous := if st.haveId then true else st.ambiguous
  match commandId value with
  | none => { st with haveId := true, ambiguous := ambiguous, malformed := true }
  | some thisId =>
    { st with
      haveId := true
      ambiguous := ambiguous
      id := thisId.toU8
      sawStop := if thisId = .stop then true else st.sawStop }

def readArg (value : List UInt8) (st : ParseFlags) : ParseFlags :=
  let ambiguous := if st.haveArg then true else st.ambiguous
  match parseIndex value with
  | none => { st with haveArg := true, ambiguous := ambiguous, malformed := true }
  | some v => { st with haveArg := true, ambiguous := ambiguous, arg := v }

def parseSegment (st : ParseFlags) (seg : List UInt8) : ParseFlags :=
  let key := decode tokenMax (splitSegment seg).1
  let value := (splitSegment seg).2.bind (decode tokenMax)
  let st := markMalformed value.isNone (markMalformed key.isNone st)
  if key.getD [] = ascii "id" then readId (value.getD []) st
  else if key.getD [] = ascii "arg" then readArg (value.getD []) st
  else st

/-- The segment loop, from the pointer `p` on. -/
def parseLoop (p : List UInt8) (st : ParseFlags) : ParseFlags :=
  if _hp : p = [] then st
  else
    let rest := p.dropWhile (· ≠ 0x26)
    parseLoop rest.tail (parseSegment st (p.takeWhile (· ≠ 0x26)))
termination_by p.length
decreasing_by
  have hlen : (p.dropWhile (· ≠ 0x26)).length ≤ p.length := (List.dropWhile_suffix _).length_le
  have hpos : 0 < p.length := List.length_pos_iff.mpr _hp
  rw [List.length_tail]
  omega

/-- What is done with the flags once the query is read. -/
def parseVerdict (st : ParseFlags) (cmd : ReflowCmd) : ReflowCmdParse × ReflowCmd :=
  if !st.haveId then (.reject, cmd)
  else
    let malformed :=
      if st.id = ReflowCmdId.selectProfile.toU8 ∧
          (st.haveArg = false ∨ st.arg < 0 ∨ st.arg ≥ reflowProfileCount) then true
      else st.malformed
    if st.ambiguous || malformed then
      if st.sawStop then (.rejectStop, ⟨ReflowCmdId.stop.toU8, 0⟩) else (.reject, cmd)
    else (.ok, ⟨st.id, if st.id = ReflowCmdId.selectProfile.toU8 then st.arg else 0⟩)

/-- `none` is a NULL query. The command that is read back is the second component. -/
def reflowCmdParse (query : Option CString) (cmd : ReflowCmd) : ReflowCmdParse × ReflowCmd :=
  match query with
  | none => (.reject, cmd)
  | some query => parseVerdict (parseLoop query.bytes {}) cmd

theorem hexDigit_eq_hexValue : hexDigit = hexValue := rfl

/-- What a decoded byte has to be for the rest to be written after it. -/
private theorem emit_iff {outSz : ℕ} {src out d : List UInt8} {c : UInt8} :
    (∃ rest, (percentDecode src).map (c :: ·) = some rest ∧ d = out ++ rest ∧
      d.length < outSz ∧ 0 ∉ rest) ↔
    c ≠ 0 ∧ out.length + 1 < outSz ∧ ∃ rest, percentDecode src = some rest ∧
      d = (out ++ [c]) ++ rest ∧ d.length < outSz ∧ 0 ∉ rest := by
  constructor
  · rintro ⟨rest, hmap, rfl, hlen, hnul⟩
    obtain ⟨rest', hrest', rfl⟩ := Option.map_eq_some_iff.mp hmap
    simp only [List.mem_cons, not_or] at hnul
    simp only [List.length_append, List.length_cons] at hlen
    exact ⟨hnul.1 ∘ Eq.symm, by omega, rest', hrest', by simp, by simpa using hlen, hnul.2⟩
  · rintro ⟨hc, -, rest, hrest, rfl, hlen, hnul⟩
    refine ⟨c :: rest, by simp [hrest], by simp, hlen, ?_⟩
    simp only [List.mem_cons, not_or]
    exact ⟨hc ∘ Eq.symm, hnul⟩

/-- A byte that does not end the string is written where there is room for it. -/
private theorem decodeLoop_emit {outSz : ℕ} {src out d : List UInt8} {c : UInt8} (hc : c ≠ 0)
    {P : Prop} (hrest : out.length + 1 < outSz → (decodeLoop outSz src (out ++ [c]) = some d ↔ P)) :
    (if out.length + 1 ≥ outSz then none else decodeLoop outSz src (out ++ [c])) = some d ↔
      c ≠ 0 ∧ out.length + 1 < outSz ∧ P := by
  split_ifs with hfull
  · simp only [false_iff]
    rintro ⟨-, hroom, -⟩
    omega
  · have hroom : out.length + 1 < outSz := by omega
    rw [hrest hroom]
    exact ⟨fun hd => ⟨hc, hroom, hd⟩, fun hd => hd.2.2⟩

/-- The array receives the decoded bytes, if they fit with the terminator and none of them
would end the string early. -/
theorem decodeLoop_eq_some_iff {outSz : ℕ} {src out : List UInt8} (hsrc : 0 ∉ src)
    (hout : out.length < outSz) (d : List UInt8) :
    decodeLoop outSz src out = some d ↔ ∃ rest, percentDecode src = some rest ∧
      d = out ++ rest ∧ d.length < outSz ∧ 0 ∉ rest := by
  induction src using percentDecode.induct generalizing out with
  | case1 =>
    simp only [decodeLoop, percentDecode, Option.some.injEq]
    constructor
    · rintro rfl
      exact ⟨[], rfl, by simp, hout, by simp⟩
    · rintro ⟨rest, rfl, rfl, -, -⟩
      simp
  | case2 h l rest hi lo hlo hhi ih =>
    have hbyte : hi <<< 4 ||| lo = hi * 16 + lo := by
      rw [← Nat.shiftLeft_add_eq_or_of_lt (hexValue_lt hlo), Nat.shiftLeft_eq]
    have hrest : 0 ∉ rest := fun hmem => hsrc (by simp [hmem])
    simp only [decodeLoop, percentDecode, if_true, hexDigit_eq_hexValue, hhi, hlo, hbyte, emit_iff]
    by_cases hzero : UInt8.ofNat (hi * 16 + lo) = 0
    · simp [hzero]
    · rw [if_neg hzero]
      exact decodeLoop_emit hzero fun hroom => ih hrest (by simpa using hroom)
  | case3 h l rest hbad =>
    cases hhi : hexValue h with
    | none => simp [decodeLoop, percentDecode, hexDigit_eq_hexValue, hhi]
    | some hi =>
      cases hlo : hexValue l with
      | none => simp [decodeLoop, percentDecode, hexDigit_eq_hexValue, hhi, hlo]
      | some lo => exact (hbad hi lo hhi hlo).elim
  | case4 rest hshort =>
    cases rest with
    | nil => simp [decodeLoop, percentDecode]
    | cons h rest =>
      cases rest with
      | nil => simp [decodeLoop, percentDecode]
      | cons l rest => exact (hshort h l rest rfl).elim
  | case5 c rest hc ih =>
    have hrest : 0 ∉ rest := fun hmem => hsrc (by simp [hmem])
    have hne : c ≠ 0 := fun hzero => hsrc (by simp [hzero])
    rw [decodeLoop.eq_def, percentDecode_cons hc, emit_iff]
    dsimp only
    rw [if_neg hc]
    exact decodeLoop_emit hne fun hroom => ih hrest (by simpa using hroom)

theorem decode_eq_some_iff {src : List UInt8} (hsrc : 0 ∉ src) (d : List UInt8) :
    decode tokenMax src = some d ↔ percentDecode src = some d ∧ d.length ≤ 15 ∧ 0 ∉ d := by
  simp only [decode]
  rw [decodeLoop_eq_some_iff hsrc (by decide)]
  simp only [List.nil_append, tokenMax]
  constructor
  · rintro ⟨rest, hrest, rfl, hlen, hnul⟩
    exact ⟨hrest, by omega, hnul⟩
  · rintro ⟨hd, hlen, hnul⟩
    exact ⟨d, hd, rfl, by omega, hnul⟩

end ReflowOven
