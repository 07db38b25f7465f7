import Mathlib.Data.List.GetD
import ReflowOven.ProfileListText

/-!
# The profile list in memory

The formatter of `profiles_json.c` over memory: every byte it stores is recorded with its
offset from the start of the buffer, and what a failed write left behind stays there until the
caller rolls it back. It leaves the text that the formatter over bounded texts computes, and
stores nothing past its capacity. A list that fits can still be cut, since room for the marker
of a cut list is kept to the end.
-/

namespace ReflowOven

open JsonReader

/-- `struct out`: memory from the start of the buffer on, the offsets stored to, and the
capacity and length that the source keeps. -/
structure Out where
  buf : ℕ → UInt8
  written : List ℕ
  cap : ℕ
  len : ℕ

namespace Out

def store (o : Out) (i : ℕ) (c : UInt8) : Out :=
  { o with buf := Function.update o.buf i c, written := i :: o.written }

/-- `buf[len++] = c`. -/
def push (o : Out) (c : UInt8) : Out := { o.store o.len c with len := o.len + 1 }

/-- `buf[len] = 0`. -/
def terminate (o : Out) : Out := o.store o.len 0

/-- The length is set back, and the text ends there. -/
def rollback (o : Out) (before : ℕ) : Out := { o with len := before }.terminate

def put (o : Out) (s : List UInt8) (reserve : ℕ) : Bool × Out :=
  if s.length + reserve + 1 > o.cap - o.len then (false, o)
  else (true, (s.foldl push o).terminate)

def putCh (o : Out) (c : UInt8) (reserve : ℕ) : Bool × Out :=
  if 1 + reserve + 1 > o.cap - o.len then (false, o) else (true, (o.push c).terminate)

/-- A failed write ends the function it is in. -/
def andThen (r : Bool × Out) (k : Out → Bool × Out) : Bool × Out := if r.1 then k r.2 else r

def putJsonChar (o : Out) (c : UInt8) (reserve : ℕ) : Bool × Out :=
  if c = 0x22 ∨ c = 0x5C then andThen (o.putCh 0x5C reserve) fun o => o.putCh c reserve
  else if c < 0x20 then
    o.put (ascii "\\u00" ++ [hexChar (c >>> 4 &&& 0x0F), hexChar (c &&& 0x0F)]) reserve
  else o.putCh c reserve

def putJsonChars (reserve : ℕ) : List UInt8 → Out → Bool × Out
  | [], o => (true, o)
  | c :: s, o => andThen (o.putJsonChar c reserve) (putJsonChars reserve s)

def putJsonString (o : Out) (s : CString) (reserve : ℕ) : Bool × Out :=
  andThen (o.putCh 0x22 reserve) fun o =>
    andThen (putJsonChars reserve s.bytes o) fun o => o.putCh 0x22 reserve

/-- The loop over the profiles from index `i`, with `k` of them to go and `emitted` written.
Neither counter of the source wraps: both stay within a `uint8_t` count. -/
def emitProfiles (lookup : ℕ → Option CString) (reserve : ℕ) : ℕ → ℕ → ℕ → Out → Out × Bool
  | 0, _, _, o => (o, false)
  | k + 1, i, emitted, o =>
    match lookup i with
    | none => (o, false)
    | some name =>
      let comma := if emitted > 0 then o.putCh 0x2C reserve else (true, o)
      if comma.1 = false then (comma.2.rollback o.len, true)
      else
        let entry := comma.2.putJsonString name reserve
        if entry.1 = false then (entry.2.rollback o.len, true)
        else emitProfiles lookup reserve k (i + 1) (emitted + 1) entry.2

end Out

/-- What the function returns and the buffer it leaves. `none` is a null pointer. -/
def reflowProfilesJsonIn (buf : Option (ℕ → UInt8)) (cap : ℕ)
    (lookup : Option (ℕ → Option CString)) (count : UInt8) : ℕ × Option Out :=
  let reserve := jsonTailTruncated.length
  match buf with
  | none => (0, none)
  | some buf =>
    if cap = 0 then (0, some ⟨buf, [], cap, 0⟩)
    else
      let o := (⟨buf, [], cap, 0⟩ : Out).store 0 0
      match lookup with
      | none => (0, some o)
      | some lookup =>
        if cap < reflowProfilesJsonMin then (0, some o)
        else
          let head := o.put jsonHead reserve
          if head.1 = false then (0, some (head.2.store 0 0))
          else
            let r := head.2.emitProfiles lookup reserve count.toNat 0 0
            let o := (r.1.put (if r.2 then jsonTailTruncated else jsonTail) 0).2
            (o.len, some o)

section Contents

/-- The bytes of the text are in the buffer. All that was stored is below the capacity, and
memory that was not stored to is as it was. -/
structure Out.Fills (mem : ℕ → UInt8) (cap : ℕ) (o : Out) (text : List UInt8) : Prop where
  capacity : o.cap = cap
  length : o.len = text.length
  bytes : ∀ i < text.length, o.buf i = text.getD i 0
  written : ∀ i ∈ o.written, i < cap
  frame : ∀ i, i ∉ o.written → o.buf i = mem i

/-- The text is in the buffer with its NUL. -/
structure Out.Holds (mem : ℕ → UInt8) (cap : ℕ) (o : Out) (text : List UInt8) : Prop
    extends Out.Fills mem cap o text where
  room : text.length < cap
  nul : o.buf text.length = 0

namespace Out

variable {mem : ℕ → UInt8} {cap : ℕ} {o : Out} {text : List UInt8}

theorem store_frame {i : ℕ} {c : UInt8} (hframe : ∀ j, j ∉ o.written → o.buf j = mem j) (j : ℕ)
    (hj : j ∉ (o.store i c).written) : (o.store i c).buf j = mem j := by
  obtain ⟨hne, hj⟩ := List.ne_and_not_mem_of_not_mem_cons hj
  exact (Function.update_of_ne hne _ _).trans (hframe j hj)

theorem Fills.push (h : Fills mem cap o text) (hroom : text.length < cap) (c : UInt8) :
    Fills mem cap (o.push c) (text ++ [c]) where
  capacity := h.capacity
  length := by
    rw [List.length_append, List.length_singleton, ← h.length]
    rfl
  bytes i hi := by
    rw [List.length_append, List.length_singleton] at hi
    change Function.update o.buf o.len c i = _
    rcases Nat.lt_succ_iff_lt_or_eq.mp hi with hi | rfl
    · have hne : i ≠ o.len := by
        rw [h.length]
        omega
      rw [Function.update_of_ne hne, h.bytes i hi, List.getD_append _ _ _ _ hi]
    · rw [h.length, Function.update_self, List.getD_append_right _ _ _ _ le_rfl, Nat.sub_self]
      rfl
  written i hi := by
    rcases List.mem_cons.mp hi with rfl | hi
    · rw [h.length]
      exact hroom
    · exact h.written i hi
  frame := store_frame h.frame

theorem Fills.pushes (h : Fills mem cap o text) (s : List UInt8)
    (hroom : text.length + s.length ≤ cap) : Fills mem cap (s.foldl Out.push o) (text ++ s) := by
  induction s generalizing o text with
  | nil => rwa [List.append_nil]
  | cons c s ih =>
    rw [List.length_cons] at hroom
    have hpush := h.push (by omega) c
    have hrest := ih hpush (by rw [List.length_append, List.length_singleton]; omega)
    rwa [List.append_assoc, List.singleton_append] at hrest

theorem Fills.terminate (h : Fills mem cap o text) (hroom : text.length < cap) :
    Holds mem cap o.terminate text where
  capacity := h.capacity
  length := h.length
  bytes i hi := by
    have hne : i ≠ o.len := by
      rw [h.length]
      omega
    exact (Function.update_of_ne hne _ _).trans (h.bytes i hi)
  written i hi := by
    rcases List.mem_cons.mp hi with rfl | hi
    · rw [h.length]
      exact hroom
    · exact h.written i hi
  frame := store_frame h.frame
  room := hroom
  nul := by
    rw [← h.length]
    exact Function.update_self _ _ _

/-- A failed entry leaves bytes past the text it started from, and the roll back ends the text
before them. -/
theorem Holds.rollback {before : List UInt8} (h : Holds mem cap o text)
    (hinitial : before <+: text) : Holds mem cap (o.rollback before.length) before := by
  obtain ⟨rest, rfl⟩ := hinitial
  have hroom := h.room
  rw [List.length_append] at hroom
  have hfills : Fills mem cap { o with len := before.length } before := by
    refine ⟨h.capacity, rfl, fun i hi => ?_, h.written, h.frame⟩
    rw [← List.getD_append _ rest _ _ hi]
    exact h.bytes i (by rw [List.length_append]; omega)
  exact hfills.terminate (by omega)

end Out

end Contents

section Refinement

open Out

variable {mem : ℕ → UInt8} {cap : ℕ} {o : Out} {t t' : JsonOut cap} {reserve : ℕ}

/-- A write to memory does what the write to the text does. If it fails, the text it started
from is still there, with what it wrote before it failed. -/
def Follows (mem : ℕ → UInt8) (t : JsonOut cap) (r : Bool × Out) :
    Option (JsonOut cap) → Prop
  | some t' => r.1 = true ∧ Holds mem cap r.2 t'.text ∧ t.text <+: t'.text
  | none => r.1 = false ∧ ∃ text, Holds mem cap r.2 text ∧ t.text <+: text

theorem follows_pure (h : Holds mem cap o t.text) : Follows mem t (true, o) (some t) :=
  ⟨rfl, h, List.prefix_rfl⟩

theorem follows_put (h : Holds mem cap o t.text) (s : List UInt8) (reserve : ℕ) :
    Follows mem t (o.put s reserve) (ReflowOven.put t s reserve) := by
  unfold Out.put ReflowOven.put
  rw [h.capacity, h.length]
  split
  · exact ⟨rfl, t.text, h, List.prefix_rfl⟩
  · have := h.room
    have hfills := h.toFills.pushes s (by omega)
    exact ⟨rfl, hfills.terminate (by rw [List.length_append]; omega), List.prefix_append _ _⟩

/-- A write that fails leaves the text alone. -/
theorem holds_put (h : Holds mem cap o t.text) (s : List UInt8) (reserve : ℕ) :
    Holds mem cap (o.put s reserve).2
      (match ReflowOven.put t s reserve with
        | none => t.text
        | some t' => t'.text) := by
  by_cases hroom : s.length + reserve + 1 > cap - t.text.length
  · rw [Out.put, ReflowOven.put, h.capacity, h.length, if_pos hroom, dif_pos hroom]
    exact h
  · have hput := follows_put h s reserve
    rw [ReflowOven.put, dif_neg hroom] at hput ⊢
    exact hput.2.1

theorem follows_putCh (h : Holds mem cap o t.text) (c : UInt8) (reserve : ℕ) :
    Follows mem t (o.putCh c reserve) (ReflowOven.putCh t c reserve) :=
  follows_put h [c] reserve

theorem Follows.of_shorter {r : Bool × Out} {u : Option (JsonOut cap)} (h : Follows mem t' r u)
    (hinitial : t.text <+: t'.text) : Follows mem t r u := by
  cases u with
  | none =>
    obtain ⟨hfalse, text, htext, hlonger⟩ := h
    exact ⟨hfalse, text, htext, hinitial.trans hlonger⟩
  | some t'' =>
    obtain ⟨htrue, htext, hlonger⟩ := h
    exact ⟨htrue, htext, hinitial.trans hlonger⟩

theorem Follows.andThen {r : Bool × Out} {u : Option (JsonOut cap)} {k : Out → Bool × Out}
    {k' : JsonOut cap → Option (JsonOut cap)} (h : Follows mem t r u)
    (hk : ∀ o t', Holds mem cap o t'.text → Follows mem t' (k o) (k' t')) :
    Follows mem t (Out.andThen r k) (u.bind k') := by
  obtain ⟨b, o⟩ := r
  cases u with
  | none =>
    obtain ⟨rfl, text, hholds, hinitial⟩ := h
    exact ⟨rfl, text, hholds, hinitial⟩
  | some t' =>
    obtain ⟨rfl, hholds, hinitial⟩ := h
    exact (hk o t' hholds).of_shorter hinitial

theorem follows_putJsonChar (h : Holds mem cap o t.text) (c : UInt8) (reserve : ℕ) :
    Follows mem t (o.putJsonChar c reserve) (ReflowOven.putJsonChar t c reserve) := by
  unfold Out.putJsonChar ReflowOven.putJsonChar
  split
  · exact (follows_putCh h _ _).andThen fun o t' h => follows_putCh h c reserve
  · split
    · exact follows_put h _ _
    · exact follows_putCh h _ _

theorem follows_putJsonChars (h : Holds mem cap o t.text) (s : List UInt8) (reserve : ℕ) :
    Follows mem t (putJsonChars reserve s o)
      (s.foldlM (fun t c => ReflowOven.putJsonChar t c reserve) t) := by
  induction s generalizing o t with
  | nil => exact follows_pure h
  | cons c s ih =>
    rw [List.foldlM_cons]
    exact (follows_putJsonChar h c reserve).andThen fun o t' h => ih h

theorem follows_putJsonString (h : Holds mem cap o t.text) (s : CString) (reserve : ℕ) :
    Follows mem t (o.putJsonString s reserve) (ReflowOven.putJsonString t s reserve) := by
  apply (follows_putCh h 0x22 reserve).andThen
  intro o t' h
  apply (follows_putJsonChars h s.bytes reserve).andThen
  intro o t' h
  exact follows_putCh h 0x22 reserve

theorem follows_comma (h : Holds mem cap o t.text) (emitted reserve : ℕ) :
    Follows mem t (if emitted > 0 then o.putCh 0x2C reserve else (true, o))
      (if emitted > 0 then ReflowOven.putCh t 0x2C reserve else some t) := by
  split
  · exact follows_putCh h 0x2C reserve
  · exact follows_pure h

/-- The roll back after a failed write leaves the text from before it. -/
theorem Follows.rollback {r : Bool × Out} (h : Follows mem t r none) :
    r.1 = false ∧ Holds mem cap (r.2.rollback t.text.length) t.text := by
  obtain ⟨hfalse, text, htext, hinitial⟩ := h
  exact ⟨hfalse, htext.rollback hinitial⟩

/-- The loop over memory stops where the loop over the text stops, and its roll back leaves
the same text. -/
theorem holds_emitProfiles (h : Holds mem cap o t.text) (lookup : ℕ → Option CString)
    (reserve k i emitted : ℕ) :
    Holds mem cap (o.emitProfiles lookup reserve k i emitted).1
        (ReflowOven.emitProfiles lookup reserve k i emitted t).1.text ∧
      (o.emitProfiles lookup reserve k i emitted).2 =
        (ReflowOven.emitProfiles lookup reserve k i emitted t).2 := by
  induction k generalizing i emitted o t with
  | zero => exact ⟨h, rfl⟩
  | succ k ih =>
    rw [Out.emitProfiles, ReflowOven.emitProfiles]
    cases lookup i with
    | none => exact ⟨h, rfl⟩
    | some name =>
      have hcomma := follows_comma h emitted reserve
      dsimp only
      rw [h.length]
      generalize (if emitted > 0 then o.putCh 0x2C reserve else (true, o)) = r at hcomma ⊢
      cases hu : (if emitted > 0 then ReflowOven.putCh t 0x2C reserve else some t) with
      | none =>
        rw [hu] at hcomma
        obtain ⟨hfalse, hrolled⟩ := hcomma.rollback
        rw [if_pos hfalse]
        exact ⟨hrolled, rfl⟩
      | some t' =>
        rw [hu] at hcomma
        obtain ⟨htrue, htext, hinitial⟩ := hcomma
        have hentry := follows_putJsonString htext name reserve
        rw [if_neg (by simp [htrue])]
        dsimp only
        cases hv : ReflowOven.putJsonString t' name reserve with
        | none =>
          rw [hv] at hentry
          obtain ⟨hfalse, hrolled⟩ := (hentry.of_shorter hinitial).rollback
          rw [if_pos hfalse]
          exact ⟨hrolled, rfl⟩
        | some t'' =>
          rw [hv] at hentry
          obtain ⟨htrue, htext, -⟩ := hentry
          rw [if_neg (by simp [htrue])]
          exact ih htext (i + 1) (emitted + 1)

/-- On a buffer with room for a byte, the function leaves the text of the formatter and returns
its length. -/
theorem exists_holds_reflowProfilesJsonIn (mem : ℕ → UInt8) (hcap : 0 < cap)
    (lookup : ℕ → Option CString) (count : UInt8) :
    ∃ o, reflowProfilesJsonIn (some mem) cap (some lookup) count = (o.len, some o) ∧
      Holds mem cap o (reflowProfilesJson cap lookup count.toNat) := by
  have hempty : Fills mem cap ⟨mem, [], cap, 0⟩ [] :=
    ⟨rfl, rfl, fun i hi => absurd hi (by simp), by simp, fun i _ => rfl⟩
  have hstart : Holds mem cap ((⟨mem, [], cap, 0⟩ : Out).store 0 0) [] := hempty.terminate hcap
  unfold reflowProfilesJsonIn reflowProfilesJson
  dsimp only
  rw [if_neg (by omega)]
  by_cases hmin : cap < reflowProfilesJsonMin
  · rw [if_pos hmin, dif_pos (.inr hmin)]
    exact ⟨_, rfl, hstart⟩
  obtain ⟨t, hput, -⟩ := exists_put_jsonHead (Nat.not_lt.mp hmin) hcap
  have hhead := follows_put (t := ⟨[], hcap⟩) hstart jsonHead jsonTailTruncated.length
  rw [hput] at hhead
  obtain ⟨htrue, htext, -⟩ := hhead
  rw [if_neg hmin, dif_neg (by omega), hput]
  dsimp only
  obtain ⟨hloop, hflag⟩ := holds_emitProfiles htext lookup jsonTailTruncated.length
    count.toNat 0 0
  rw [if_neg (by simpa using htrue), hflag]
  exact ⟨_, rfl, holds_put hloop _ 0⟩

end Refinement

section Answer

/-- The string that a reader of the buffer finds. -/
def Out.stringIn (o : Out) (cap : ℕ) : CString := .ofBuffer ((List.range cap).map o.buf)

theorem Out.Holds.stringIn_bytes {mem : ℕ → UInt8} {cap : ℕ} {o : Out} {text : List UInt8}
    (h : Holds mem cap o text) (hnul : 0 ∉ text) : (o.stringIn cap).bytes = text := by
  have htext : (List.range text.length).map o.buf = text := by
    apply List.ext_getElem
    · rw [List.length_map, List.length_range]
    · intro i hi hi'
      rw [List.getElem_map, List.getElem_range, h.bytes i hi', List.getD_eq_getElem _ _ hi']
  obtain ⟨n, hn⟩ := Nat.exists_eq_add_of_lt h.room
  have hrange : List.range cap =
      List.range text.length ++ text.length :: List.range' (text.length + 1) n := by
    rw [hn, List.range_eq_range', List.range_eq_range', Nat.add_assoc, ← List.range'_append_1,
      Nat.zero_add, List.range'_succ]
  change ((List.range cap).map o.buf).takeWhile (· ≠ 0) = text
  rw [hrange, List.map_append, List.map_cons, htext, h.nul]
  exact takeWhile_ne_append_cons hnul _

/-- The formatter stores only below its capacity and leaves other memory alone. It returns the
length of the string it leaves, which is empty where the least answer does not fit. Elsewhere
the string is a JSON object that lists an initial segment of the names of the table, and says
so when the segment is not the whole table. -/
theorem reflowProfilesJsonIn_honest (mem : ℕ → UInt8) (cap : ℕ)
    (lookup : ℕ → Option CString) (count : UInt8) :
    ∃ o, reflowProfilesJsonIn (some mem) cap (some lookup) count = (o.len, some o) ∧
      (∀ i ∈ o.written, i < cap) ∧ (∀ i, i ∉ o.written → o.buf i = mem i) ∧
      o.len = (o.stringIn cap).bytes.length ∧ (0 < cap → o.len < cap) ∧
      (cap < reflowProfilesJsonMin ∧ (o.stringIn cap).bytes = [] ∨
        ∃ segment truncated, segment <+: tableNames lookup (List.range count.toNat) ∧
          (truncated = true ↔
            segment.length < (tableNames lookup (List.range count.toNat)).length) ∧
          (o.stringIn cap).bytes = listText segment truncated ∧
          readJson (o.stringIn cap).bytes = some (listObject segment truncated)) := by
  rcases Nat.eq_zero_or_pos cap with rfl | hcap
  · exact ⟨⟨mem, [], 0, 0⟩, rfl, by simp, fun i _ => rfl, rfl, by simp, .inl ⟨by decide, rfl⟩⟩
  obtain ⟨o, hrun, hholds⟩ := exists_holds_reflowProfilesJsonIn mem hcap lookup count
  refine ⟨o, hrun, hholds.written, hholds.frame, ?_⟩
  by_cases hmin : cap < reflowProfilesJsonMin
  · have hempty : reflowProfilesJson cap lookup count.toNat = [] := by
      rw [reflowProfilesJson, dif_pos (.inr hmin)]
    rw [hempty] at hholds
    have hstring := hholds.stringIn_bytes List.not_mem_nil
    rw [hstring]
    exact ⟨hholds.length, fun _ => hholds.length.trans_lt hholds.room, .inl ⟨hmin, rfl⟩⟩
  · obtain ⟨segment, truncated, htext, hinitial, htruncated, -⟩ :=
      exists_segment_reflowProfilesJson (Nat.not_lt.mp hmin) lookup count.toNat
    rw [htext] at hholds
    have hstring := hholds.stringIn_bytes (zero_notMem_listText segment truncated)
    have hshorter : segment ≠ tableNames lookup (List.range count.toNat) ↔
        segment.length < (tableNames lookup (List.range count.toNat)).length := by
      rw [lt_iff_le_and_ne, and_iff_right hinitial.length_le, ne_eq, ne_eq,
        not_iff_not]
      exact ⟨congrArg List.length, hinitial.eq_of_length⟩
    rw [hstring]
    exact ⟨hholds.length, fun _ => hholds.length.trans_lt hholds.room,
      .inr ⟨segment, truncated, hinitial, htruncated.trans hshorter, rfl,
        readJson_listText segment truncated⟩⟩

end Answer

section Completeness

variable (mem : ℕ → UInt8) {cap : ℕ} (lookup : ℕ → Option CString) (count : UInt8)

/-- The complete object of a table. -/
def wholeList : List UInt8 := listText (tableNames lookup (List.range count.toNat)) false

/-- A complete object that fits with its NUL is served, and the marker is only put on the
list where it does not fit. -/
structure ServesWhole (cap : ℕ) : Prop where
  whole : (wholeList lookup count).length < cap →
    ∃ o, reflowProfilesJsonIn (some mem) cap (some lookup) count =
      ((wholeList lookup count).length, some o) ∧ (o.stringIn cap).bytes = wholeList lookup count
  marked : ∀ n o segment, reflowProfilesJsonIn (some mem) cap (some lookup) count = (n, some o) →
    (o.stringIn cap).bytes = listText segment true → cap ≤ (wholeList lookup count).length

theorem exists_string_reflowProfilesJsonIn (hcap : reflowProfilesJsonMin ≤ cap) :
    ∃ o, reflowProfilesJsonIn (some mem) cap (some lookup) count =
        ((reflowProfilesJson cap lookup count.toNat).length, some o) ∧
      (o.stringIn cap).bytes = reflowProfilesJson cap lookup count.toNat := by
  have hpos : 0 < cap := Nat.lt_of_lt_of_le (Nat.succ_pos _) hcap
  obtain ⟨o, hrun, hholds⟩ := exists_holds_reflowProfilesJsonIn mem hpos lookup count
  obtain ⟨segment, truncated, htext, -⟩ :=
    exists_segment_reflowProfilesJson hcap lookup count.toNat
  have hnul := zero_notMem_listText segment truncated
  rw [← htext] at hnul
  exact ⟨o, by rw [hrun, hholds.length], hholds.stringIn_bytes hnul⟩

/-- The marker is read back, so a list with it is no list without it. -/
theorem listText_marked_ne (segment names : List CString) :
    listText segment true ≠ listText names false := by
  intro h
  have hread := readJson_listText segment true
  rw [h, readJson_listText] at hread
  simp [listObject] at hread

/-- A list that fits is served whole exactly where it would fit with the marker as well: room
for the marker is kept until the end of the table is reached. -/
theorem fitting_list_served_iff (hcap : reflowProfilesJsonMin ≤ cap) :
    ServesWhole mem lookup count cap ↔
      ((wholeList lookup count).length < cap →
        (listText (tableNames lookup (List.range count.toNat)) true).length < cap) := by
  obtain ⟨o, hrun, hstring⟩ := exists_string_reflowProfilesJsonIn mem lookup count hcap
  obtain ⟨segment, truncated, htext, -, hcut, hfull⟩ :=
    exists_segment_reflowProfilesJson hcap lookup count.toNat
  constructor
  · intro hserves hfits
    obtain ⟨o', hrun', hstring'⟩ := hserves.whole hfits
    obtain rfl : o = o' := Option.some.inj (congrArg Prod.snd (hrun.symm.trans hrun'))
    have hsame : listText segment truncated = wholeList lookup count := by
      rw [← htext, ← hstring, hstring']
    cases truncated with
    | true => exact absurd hsame (listText_marked_ne _ _)
    | false => exact Nat.not_le.mp fun hlong => Bool.false_ne_true (hfull.mpr hlong)
  · intro hroom
    have hwhole : (wholeList lookup count).length < cap →
        reflowProfilesJson cap lookup count.toNat = wholeList lookup count := by
      intro hfits
      have hunmarked : truncated = false := Bool.eq_false_of_not_eq_true fun h =>
        Nat.not_le.mpr (hroom hfits) (hfull.mp h)
      have hall : segment = tableNames lookup (List.range count.toNat) :=
        not_not.mp fun hne => Bool.eq_false_iff.mp hunmarked (hcut.mpr hne)
      rw [htext, hunmarked, hall, wholeList]
    constructor
    · intro hfits
      rw [← hwhole hfits]
      exact ⟨o, hrun, hstring⟩
    · intro n o' segment' hrun' hmarked
      obtain rfl : o = o' := Option.some.inj (congrArg Prod.snd (hrun.symm.trans hrun'))
      by_contra hfits
      rw [hstring, hwhole (Nat.not_le.mp hfits)] at hmarked
      exact listText_marked_ne _ _ hmarked.symm

/-- The table of the firmware in the buffer of the server. -/
theorem fitting_list_served_iff_server : ServesWhole (fun _ => 0) profileNames 4 256 :=
  (fitting_list_served_iff (fun _ => 0) profileNames 4 (by decide)).mpr fun _ => by decide

def soleName (idx : ℕ) : Option CString :=
  if idx = 0 then some ⟨ascii "SAC305", by decide⟩ else none

/-- The object of one name takes 24 of 33 bytes with its NUL, and the name is left out. -/
theorem fitting_name_is_dropped : reflowProfilesJsonMin = 33 ∧
    wholeList soleName 1 = ascii "\x7b\"profiles\":[\"SAC305\"]\x7d" ∧
    (∃ o, reflowProfilesJsonIn (some fun _ => 0) 33 (some soleName) 1 = (32, some o) ∧
      (o.stringIn 33).bytes = ascii "\x7b\"profiles\":[],\"truncated\":true\x7d") ∧
    ¬ServesWhole (fun _ => 0) soleName 1 33 := by
  have hmin : reflowProfilesJsonMin ≤ 33 := by decide
  have hcut : reflowProfilesJson 33 soleName (1 : UInt8).toNat = listText [] true := by decide
  obtain ⟨o, hrun, hstring⟩ := exists_string_reflowProfilesJsonIn (fun _ => 0) soleName 1 hmin
  rw [hcut] at hrun hstring
  refine ⟨by decide, by decide, ⟨o, hrun, hstring⟩, fun hserves => ?_⟩
  exact absurd (hserves.marked _ o [] hrun hstring) (by decide)

end Completeness

end ReflowOven
