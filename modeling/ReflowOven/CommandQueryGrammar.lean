import Mathlib.Data.List.Forall2
import Mathlib.Data.List.Induction
import ReflowOven.CommandQuery

/-!
# The grammar of command queries

What a query says, stated without the parser: its segments, the pairs they encode, and
the commands those pairs make up. The flags of the parser turn out to be functions of the
pairs in which the order of the segments only matters for the last value written, and
that value is only used where it is the only one. Acceptance, the rescue of a stop and
the independence of the order follow.
-/

namespace ReflowOven.CommandQueryGrammar

/-- The segments of a query; a trailing separator adds none. -/
def segments (query : List UInt8) : List (List UInt8) :=
  let parts := query.splitOn 0x26
  if parts.getLast? = some [] then parts.dropLast else parts

theorem segments_nil : segments [] = [] := rfl

theorem segments_cons {query : List UInt8} (hq : query ≠ []) :
    segments query = query.takeWhile (· ≠ 0x26) ::
      segments (query.dropWhile (· ≠ 0x26)).tail := by
  by_cases hmem : 0x26 ∈ query
  · have hsplit : query.splitOn 0x26 = query.takeWhile (· ≠ 0x26) ::
        (query.dropWhile (· ≠ 0x26)).tail.splitOn 0x26 := by
      conv_lhs => rw [eq_takeWhile_append hmem]
      exact List.splitOn_append_cons_self_of_not_mem (notMem_takeWhile_ne _ _) _
    have hne := List.splitOn_ne_nil 0x26 (query.dropWhile (· ≠ 0x26)).tail
    unfold segments
    rw [hsplit]
    dsimp only
    rw [List.getLast?_cons_of_ne_nil hne]
    split_ifs
    · rw [List.dropLast_cons_of_ne_nil hne]
    · rfl
  · have hdrop : query.dropWhile (· ≠ 0x26) = [] := by
      rw [List.dropWhile_eq_nil_iff]
      intro x hx
      simp only [decide_eq_true_eq]
      rintro rfl
      exact hmem hx
    have hsplit := List.splitOn_eq_singleton hmem
    rw [hdrop, takeWhile_ne_of_notMem hmem, List.tail_nil, segments_nil]
    unfold segments
    rw [hsplit]
    dsimp only
    rw [List.getLast?_singleton, if_neg (by simpa using hq)]

theorem mem_of_mem_segments {query seg : List UInt8} (hseg : seg ∈ segments query) {c : UInt8}
    (hc : c ∈ seg) : c ∈ query := by
  induction hn : query.length using Nat.strong_induction_on generalizing query with
  | _ n ih =>
    by_cases hq : query = []
    · simp [hq, segments_nil] at hseg
    · rw [segments_cons hq] at hseg
      rcases List.mem_cons.mp hseg with rfl | hseg
      · exact (List.takeWhile_prefix _).mem hc
      · have hsuffix := List.dropWhile_suffix (l := query) (· ≠ 0x26)
        have hpos := List.length_pos_iff.mpr hq
        have hlt : (query.dropWhile (· ≠ 0x26)).tail.length < n := by
          have hle := hsuffix.length_le
          rw [List.length_tail]
          omega
        exact hsuffix.mem (List.mem_of_mem_tail (ih _ hlt hseg rfl))

/-- The loop visits the segments in order. -/
theorem parseLoop_eq_foldl (query : List UInt8) (st : ParseFlags) :
    parseLoop query st = (segments query).foldl parseSegment st := by
  induction query, st using parseLoop.induct with
  | case1 st => simp [parseLoop, segments_nil]
  | case2 query st hq rest ih =>
    rw [parseLoop, dif_neg hq, segments_cons hq, List.foldl_cons]
    exact ih

/-- A segment `key=value` with both sides percent-encoded. -/
def Encodes (seg key value : List UInt8) : Prop :=
  ∃ rawKey rawValue, seg = rawKey ++ 0x3D :: rawValue ∧ 0x3D ∉ rawKey ∧
    percentDecode rawKey = some key ∧ percentDecode rawValue = some value

def IsToken (d : List UInt8) : Prop := d.length ≤ 15 ∧ 0 ∉ d

def Reads (seg : List UInt8) (pair : List UInt8 × List UInt8) : Prop :=
  Encodes seg pair.1 pair.2 ∧ IsToken pair.1 ∧ IsToken pair.2

def valuesOf (name : String) (pairs : List (List UInt8 × List UInt8)) : List (List UInt8) :=
  (pairs.filter fun pair => pair.1 = ascii name).map Prod.snd

def commandName : ReflowCmdId → List UInt8
  | .start => ascii "start"
  | .stop => ascii "stop"
  | .clearFault => ascii "clear"
  | .selectProfile => ascii "profile"

/-- The value of a string of decimal digits. -/
def decimal (text : List UInt8) : ℕ := text.foldl (fun v c => v * 10 + (c.toNat - 0x30)) 0

def IsIndex (text : List UInt8) (n : ℕ) : Prop :=
  text ≠ [] ∧ (∀ c ∈ text, 0x30 ≤ c ∧ c ≤ 0x39) ∧ decimal text = n ∧ n ≤ 65535

/-- At most one segment is an argument, and it is an index. -/
inductive Argument (pairs : List (List UInt8 × List UInt8)) : Option ℕ → Prop
  | absent (h : valuesOf "arg" pairs = []) : Argument pairs none
  | given {text n} (h : valuesOf "arg" pairs = [text]) (hn : IsIndex text n) :
      Argument pairs (some n)

/-- The commands that a list of segments makes up. -/
inductive Accepts (segs : List (List UInt8)) : ReflowCmd → Prop
  | plain {pairs id arg} (hreads : List.Forall₂ Reads segs pairs)
      (hid : valuesOf "id" pairs = [commandName id]) (harg : Argument pairs arg)
      (hne : id ≠ .selectProfile) : Accepts segs ⟨id.toU8, 0⟩
  | profile {pairs n} (hreads : List.Forall₂ Reads segs pairs)
      (hid : valuesOf "id" pairs = [commandName .selectProfile])
      (harg : Argument pairs (some n)) (hn : n < reflowProfileCount) :
      Accepts segs ⟨ReflowCmdId.selectProfile.toU8, n⟩

/-- Some segment asks for a stop. -/
def AsksStop (segs : List (List UInt8)) : Prop :=
  ∃ seg ∈ segs, Encodes seg (ascii "id") (ascii "stop")

theorem commandId_eq_some_iff (value : List UInt8) (id : ReflowCmdId) :
    commandId value = some id ↔ value = commandName id := by
  simp only [commandId]
  constructor
  · intro h
    split_ifs at h with h₁ h₂ h₃ h₄
    all_goals
      cases h
      assumption
  · rintro rfl
    cases id <;> decide

private theorem le_foldl_decimal (text : List UInt8) (v : ℕ) :
    v ≤ text.foldl (fun v c => v * 10 + (c.toNat - 0x30)) v := by
  induction text generalizing v with
  | nil => exact le_rfl
  | cons c text ih =>
    have h := ih (v * 10 + (c.toNat - 0x30))
    simp only [List.foldl_cons]
    omega

/-- The bound checked after every digit is the bound on the value: it only grows. -/
theorem parseIndexLoop_eq_some_iff (text : List UInt8) {v : ℕ} (hv : v ≤ 65535) (n : ℕ) :
    parseIndexLoop text v = some n ↔ (∀ c ∈ text, 0x30 ≤ c ∧ c ≤ 0x39) ∧
      text.foldl (fun v c => v * 10 + (c.toNat - 0x30)) v = n ∧ n ≤ 65535 := by
  induction text generalizing v with
  | nil =>
    simp only [parseIndexLoop, Option.some.injEq, List.not_mem_nil, false_imp_iff, implies_true,
      List.foldl_nil, true_and]
    exact ⟨fun h => ⟨h, h ▸ hv⟩, fun h => h.1⟩
  | cons c text ih =>
    simp only [parseIndexLoop, List.forall_mem_cons, List.foldl_cons]
    by_cases hdigit : 0x30 ≤ c ∧ c ≤ 0x39
    · have hc : c.toNat ≤ 0x39 := UInt8.le_iff_toNat_le.mp hdigit.2
      have hnext : u32 (v * 10 + (c.toNat - 0x30)) = v * 10 + (c.toNat - 0x30) :=
        u32_eq (by omega)
      have hnot : ¬(c < 0x30 ∨ c > 0x39) := by
        rw [not_or, UInt8.not_lt, gt_iff_lt, UInt8.not_lt]
        exact hdigit
      rw [if_neg hnot, hnext]
      split_ifs with hbig
      · have hgrow := le_foldl_decimal text (v * 10 + (c.toNat - 0x30))
        simp only [false_iff]
        rintro ⟨-, hval, hle⟩
        omega
      · rw [ih (by omega)]
        simp only [hdigit, and_self, true_and]
    · have hout : c < 0x30 ∨ c > 0x39 := by
        by_contra hin
        rw [not_or, UInt8.not_lt, gt_iff_lt, UInt8.not_lt] at hin
        exact hdigit hin
      simp [hout, hdigit]

theorem parseIndex_eq_some_iff (text : List UInt8) (n : ℕ) :
    parseIndex text = some n ↔ IsIndex text n := by
  simp only [parseIndex, IsIndex, decimal]
  split_ifs with hnil
  · simp [hnil]
  · rw [parseIndexLoop_eq_some_iff text (by omega)]
    simp [hnil]

theorem splitSegment_of_mem {rawKey : List UInt8} (h : 0x3D ∉ rawKey) (rawValue : List UInt8) :
    splitSegment (rawKey ++ 0x3D :: rawValue) = (rawKey, some rawValue) := by
  have hall : ∀ c ∈ rawKey, decide (c ≠ 0x3D) = true := by
    intro c hc
    simp only [decide_eq_true_eq]
    rintro rfl
    exact h hc
  simp only [splitSegment]
  rw [if_pos (by simp), List.takeWhile_append_of_pos hall, List.dropWhile_append_of_pos hall]
  simp

/-- A segment as the parser reads it, with the empty string for what does not decode. -/
def view (seg : List UInt8) : List UInt8 × List UInt8 :=
  ((decode tokenMax (splitSegment seg).1).getD [],
    ((splitSegment seg).2.bind (decode tokenMax)).getD [])

def unreadable (seg : List UInt8) : Bool :=
  (decode tokenMax (splitSegment seg).1).isNone ||
    ((splitSegment seg).2.bind (decode tokenMax)).isNone

theorem notMem_of_append {a : UInt8} {l r : List UInt8} (h : a ∉ l ++ 0x3D :: r) :
    a ∉ l ∧ a ∉ r := by
  simp only [List.mem_append, List.mem_cons, not_or] at h
  exact ⟨h.1, h.2.2⟩

theorem reads_iff {seg : List UInt8} (hnul : 0 ∉ seg) (pair : List UInt8 × List UInt8) :
    Reads seg pair ↔ unreadable seg = false ∧ view seg = pair := by
  constructor
  · rintro ⟨⟨rawKey, rawValue, rfl, heq, hkey, hvalue⟩, htk, htv⟩
    obtain ⟨hk, hv⟩ := notMem_of_append hnul
    have hdk := (decode_eq_some_iff hk _).mpr ⟨hkey, htk⟩
    have hdv := (decode_eq_some_iff hv _).mpr ⟨hvalue, htv⟩
    simp [unreadable, view, splitSegment_of_mem heq, hdk, hdv]
  · rintro ⟨hread, rfl⟩
    by_cases hmem : 0x3D ∈ seg
    · obtain ⟨rawKey, rawValue, hseg, heq⟩ : ∃ rawKey rawValue,
          seg = rawKey ++ 0x3D :: rawValue ∧ 0x3D ∉ rawKey :=
        ⟨_, _, eq_takeWhile_append hmem, notMem_takeWhile_ne _ _⟩
      obtain rfl := hseg
      obtain ⟨hk, hv⟩ := notMem_of_append hnul
      simp only [unreadable, view, splitSegment_of_mem heq, Option.bind_some, Bool.or_eq_false_iff,
        Option.isNone_eq_false_iff, Option.isSome_iff_exists] at hread ⊢
      obtain ⟨⟨key, hkey⟩, value, hvalue⟩ := hread
      obtain ⟨hpk, htk⟩ := (decode_eq_some_iff hk _).mp hkey
      obtain ⟨hpv, htv⟩ := (decode_eq_some_iff hv _).mp hvalue
      simp only [hkey, hvalue, Option.getD_some]
      exact ⟨⟨rawKey, rawValue, rfl, heq, hpk, hpv⟩, htk, htv⟩
    · simp [unreadable, splitSegment, hmem] at hread

theorem forall₂_reads_iff {segs : List (List UInt8)} (hnul : ∀ seg ∈ segs, 0 ∉ seg)
    (pairs : List (List UInt8 × List UInt8)) :
    List.Forall₂ Reads segs pairs ↔ segs.any unreadable = false ∧ segs.map view = pairs := by
  induction segs generalizing pairs with
  | nil => simp [eq_comm]
  | cons seg segs ih =>
    obtain ⟨hseg, hsegs⟩ := List.forall_mem_cons.mp hnul
    cases pairs with
    | nil => simp
    | cons pair pairs =>
      rw [List.forall₂_cons, reads_iff hseg, ih hsegs]
      simp only [List.any_cons, Bool.or_eq_false_iff, List.map_cons, List.cons.injEq]
      tauto

/-- A key and a value the endpoint knows are never the empty string of a failed decoding. -/
theorem view_eq_iff_encodes {seg key value : List UInt8} (hnul : 0 ∉ seg) (hk : key ≠ [])
    (hv : value ≠ []) (htk : IsToken key) (htv : IsToken value) :
    view seg = (key, value) ↔ Encodes seg key value := by
  constructor
  · intro hview
    have hread : unreadable seg = false := by
      simp only [view, Prod.mk.injEq] at hview
      simp only [unreadable, Bool.or_eq_false_iff, Option.isNone_eq_false_iff]
      constructor
      · cases hd : decode tokenMax (splitSegment seg).1 with
        | none => exact absurd (by simpa [hd] using hview.1.symm) hk
        | some d => rfl
      · cases hd : (splitSegment seg).2.bind (decode tokenMax) with
        | none => exact absurd (by simpa [hd] using hview.2.symm) hv
        | some d => rfl
    exact ((reads_iff hnul _).mpr ⟨hread, hview⟩).1
  · exact fun h => ((reads_iff hnul (key, value)).mp ⟨h, htk, htv⟩).2

def repeated (values : List (List UInt8)) : Bool := decide (1 < values.length)

theorem repeated_concat (values : List (List UInt8)) (v : List UInt8) :
    repeated (values ++ [v]) = (repeated values || !values.isEmpty) := by
  cases values <;> simp [repeated]

/-- The flags after a list of segments. -/
def summary (segs : List (List UInt8)) : ParseFlags :=
  let ids := valuesOf "id" (segs.map view)
  let args := valuesOf "arg" (segs.map view)
  { haveId := !ids.isEmpty
    haveArg := !args.isEmpty
    ambiguous := repeated ids || repeated args
    malformed := segs.any unreadable || ids.any (fun v => (commandId v).isNone) ||
      args.any (fun v => (parseIndex v).isNone)
    sawStop := decide (commandName .stop ∈ ids)
    id := ids.foldl (fun id v => ((commandId v).map ReflowCmdId.toU8).getD id) 0
    arg := args.foldl (fun arg v => ((parseIndex v).map Int.ofNat).getD arg) 0 }

@[simp] theorem valuesOf_concat (name : String) (pairs : List (List UInt8 × List UInt8))
    (pair : List UInt8 × List UInt8) : valuesOf name (pairs ++ [pair]) =
      valuesOf name pairs ++ if pair.1 = ascii name then [pair.2] else [] := by
  simp only [valuesOf, List.filter_append, List.map_append]
  by_cases h : pair.1 = ascii name <;> simp [h]

theorem markMalformed_eq (bad : Bool) (st : ParseFlags) :
    markMalformed bad st = { st with malformed := st.malformed || bad } := by
  cases bad <;> simp [markMalformed]

theorem readId_eq (value : List UInt8) (st : ParseFlags) : readId value st =
    { st with
      haveId := true
      ambiguous := st.ambiguous || st.haveId
      malformed := st.malformed || (commandId value).isNone
      sawStop := st.sawStop || decide (commandName .stop = value)
      id := ((commandId value).map ReflowCmdId.toU8).getD st.id } := by
  have hstop := commandId_eq_some_iff value .stop
  simp only [readId]
  cases hc : commandId value with
  | none =>
    have hne : commandName .stop ≠ value := fun he => by simp [hstop.mpr he.symm] at hc
    cases hid : st.haveId <;> simp [hne]
  | some id =>
    have hiff : id = .stop ↔ commandName .stop = value := by
      rw [eq_comm (a := commandName .stop), ← hstop, hc, Option.some.injEq]
    by_cases hs : commandName .stop = value <;> cases hid : st.haveId <;> simp [hiff, hs]

theorem readArg_eq (value : List UInt8) (st : ParseFlags) : readArg value st =
    { st with
      haveArg := true
      ambiguous := st.ambiguous || st.haveArg
      malformed := st.malformed || (parseIndex value).isNone
      arg := ((parseIndex value).map Int.ofNat).getD st.arg } := by
  simp only [readArg]
  cases parseIndex value <;> cases harg : st.haveArg <;> simp

theorem parseSegment_summary (segs : List (List UInt8)) (seg : List UInt8) :
    parseSegment (summary segs) seg = summary (segs ++ [seg]) := by
  have hother : ascii "id" ≠ ascii "arg" := by decide
  have hparse : parseSegment (summary segs) seg =
      if (view seg).1 = ascii "id" then
        readId (view seg).2 { summary segs with
          malformed := (summary segs).malformed || unreadable seg }
      else if (view seg).1 = ascii "arg" then
        readArg (view seg).2 { summary segs with
          malformed := (summary segs).malformed || unreadable seg }
      else { summary segs with malformed := (summary segs).malformed || unreadable seg } := by
    simp only [parseSegment, markMalformed_eq, Bool.or_assoc]
    rfl
  rw [hparse]
  by_cases hid : (view seg).1 = ascii "id"
  · rw [if_pos hid, readId_eq]
    simp [summary, hid, hother, repeated_concat, Bool.or_assoc, Bool.or_comm, Bool.or_left_comm]
  · by_cases harg : (view seg).1 = ascii "arg"
    · rw [if_neg hid, if_pos harg, readArg_eq]
      simp [summary, harg, hother.symm, repeated_concat, Bool.or_assoc, Bool.or_comm,
        Bool.or_left_comm]
    · rw [if_neg hid, if_neg harg]
      simp [summary, hid, harg, Bool.or_assoc, Bool.or_comm, Bool.or_left_comm]

theorem foldl_parseSegment (segs : List (List UInt8)) :
    segs.foldl parseSegment {} = summary segs := by
  induction segs using List.reverseRecOn with
  | nil => rfl
  | append_singleton segs seg ih =>
    rw [List.foldl_append, ih]
    exact parseSegment_summary segs seg

end ReflowOven.CommandQueryGrammar
