import ReflowOven.ReflowProfiles

/-!
# The profile list of the web page

The formatter `profiles_json.c`. The buffer is its capacity and the text written so far;
every write is checked against the room that is left before it is made.
-/

namespace ReflowOven

def jsonHead : List UInt8 := ascii "\x7b\"profiles\":["

def jsonTail : List UInt8 := ascii "]\x7d"

def jsonTailTruncated : List UInt8 := ascii "],\"truncated\":true\x7d"

/-- The size of the shortest truncated answer, with its NUL. -/
def reflowProfilesJsonMin : ℕ := (jsonHead ++ jsonTailTruncated).length + 1

/-- The text of a buffer, which leaves room for its NUL. -/
structure JsonOut (cap : ℕ) where
  text : List UInt8
  room : text.length < cap

variable {cap : ℕ}

def put (o : JsonOut cap) (s : List UInt8) (reserve : ℕ) : Option (JsonOut cap) :=
  if h : s.length + reserve + 1 > cap - o.text.length then none
  else some ⟨o.text ++ s, by rw [List.length_append]; omega⟩

def putCh (o : JsonOut cap) (c : UInt8) (reserve : ℕ) : Option (JsonOut cap) :=
  put o [c] reserve

def hexChar (n : UInt8) : UInt8 := (ascii "0123456789abcdef").getD n.toNat 0

/-- What the loop over a name writes for one byte. -/
def putJsonChar (o : JsonOut cap) (c : UInt8) (reserve : ℕ) : Option (JsonOut cap) :=
  if c = 0x22 ∨ c = 0x5C then (putCh o 0x5C reserve).bind fun o => putCh o c reserve
  else if c < 0x20 then
    put o (ascii "\\u00" ++ [hexChar (c >>> 4 &&& 0x0F), hexChar (c &&& 0x0F)]) reserve
  else putCh o c reserve

/-- `none` is `false`; what was written before that is rolled back by the caller. -/
def putJsonString (o : JsonOut cap) (s : CString) (reserve : ℕ) : Option (JsonOut cap) :=
  (putCh o 0x22 reserve).bind fun o =>
    (s.bytes.foldlM (fun o c => putJsonChar o c reserve) o).bind fun o => putCh o 0x22 reserve

/-- The loop over the profiles from index `i`, with `k` of them to go and `emitted` written. -/
def emitProfiles (lookup : ℕ → Option CString) (reserve : ℕ) :
    ℕ → ℕ → ℕ → JsonOut cap → JsonOut cap × Bool
  | 0, _, _, o => (o, false)
  | k + 1, i, emitted, o =>
    match lookup i with
    | none => (o, false)
    | some name =>
      match (if emitted > 0 then putCh o 0x2C reserve else some o) with
      | none => (o, true)
      | some o' =>
        match putJsonString o' name reserve with
        | none => (o, true)
        | some o' => emitProfiles lookup reserve k (i + 1) (emitted + 1) o'

/-- The string left in a buffer of `cap` bytes, whose length is returned. `lookup` is `none`
where the lookup of the source returns NULL, and the profile's name otherwise. -/
def reflowProfilesJson (cap : ℕ) (lookup : ℕ → Option CString) (count : ℕ) : List UInt8 :=
  if h : cap = 0 ∨ cap < reflowProfilesJsonMin then []
  else
    let reserve := jsonTailTruncated.length
    match put (⟨[], by simp only [List.length_nil]; omega⟩ : JsonOut cap) jsonHead reserve with
    | none => []
    | some o =>
      let r := emitProfiles lookup reserve count 0 0 o
      match put r.1 (if r.2 then jsonTailTruncated else jsonTail) 0 with
      | none => r.1.text
      | some o => o.text

/-- The lookup the server formats. -/
def profileNames (idx : ℕ) : Option CString :=
  (reflowProfileGet idx).map fun prof => CString.ofBuffer prof.name

end ReflowOven
