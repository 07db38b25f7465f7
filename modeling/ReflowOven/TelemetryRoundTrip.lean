import ReflowOven.JsonReader
import ReflowOven.TelemetryBuffers

/-!
# What the telemetry object says

The text of the telemetry object is composed from the texts of its members, and reads back as
the object of its fields. The stage name stands in it as it is, so that this holds exactly for
the names in which nothing has to be escaped.
-/

namespace ReflowOven

open JsonReader

section Members

variable (t : ReflowTelemetry)

/-- The members before the stage name, each with its text. -/
def earlyMembers : List (List UInt8 × List UInt8 × Json) :=
  [(ascii "temp_mc", signedText t.tempMc.toInt, .num t.tempMc.toInt),
    (ascii "temp_valid", if t.tempValid ≠ 0 then ascii "true" else ascii "false",
      .bool (decide (t.tempValid ≠ 0))),
    (ascii "setpoint_mc", signedText t.setpointMc.toInt, .num t.setpointMc.toInt),
    (ascii "duty", decimalText t.dutyPermille.toNat, .num t.dutyPermille.toNat),
    (ascii "state", 0x22 :: (reflowStateStr t.state ++ [0x22]), .str (reflowStateStr t.state)),
    (ascii "fault", 0x22 :: (reflowFaultStr t.fault ++ [0x22]), .str (reflowFaultStr t.fault)),
    (ascii "profile", decimalText t.profileIdx.toNat, .num t.profileIdx.toNat),
    (ascii "stage", decimalText t.stageIdx.toNat, .num t.stageIdx.toNat),
    (ascii "n_stages", decimalText t.nStages.toNat, .num t.nStages.toNat)]

/-- The members after the stage name. -/
def lateMembers : List (List UInt8 × List UInt8 × Json) :=
  [(ascii "stage_ms", decimalText t.stageMs.toNat, .num t.stageMs.toNat),
    (ascii "total_ms", decimalText t.totalMs.toNat, .num t.totalMs.toNat),
    (ascii "uptime_ms", decimalText t.uptimeMs.toNat, .num t.uptimeMs.toNat)]

def memberText (key value : List UInt8) : List UInt8 := 0x22 :: (key ++ 0x22 :: 0x3A :: value)

def textOf (m : List UInt8 × List UInt8 × Json) : List UInt8 := memberText m.1 m.2.1

def meaningOf (m : List UInt8 × List UInt8 × Json) : List UInt8 × Json := (m.1, m.2.2)

/-- The object that a frame is sent as. -/
def telemetryObject (name : List UInt8) : Json :=
  .obj ((earlyMembers t).map meaningOf ++
    (ascii "stage_name", .str name) :: (lateMembers t).map meaningOf)

/-- The text of the members from the stage name on, up to its closing quote. -/
theorem reflowTelemetryJson_eq (table : ProfileTable) : table.reflowTelemetryJson t =
    0x7B :: (((earlyMembers t).map textOf).flatMap (· ++ [0x2C]) ++
      (memberText (ascii "stage_name") (0x22 :: (table.stageName t ++ [0x22])) ++ 0x2C ::
        (separated ((lateMembers t).map textOf) ++ [0x7D]))) := by
  have hnumbers : ascii "\x7b\"temp_mc\":" = 0x7B :: 0x22 :: (ascii "temp_mc" ++ [0x22, 0x3A]) ∧
      ascii ",\"temp_valid\":" = 0x2C :: 0x22 :: (ascii "temp_valid" ++ [0x22, 0x3A]) ∧
      ascii ",\"setpoint_mc\":" = 0x2C :: 0x22 :: (ascii "setpoint_mc" ++ [0x22, 0x3A]) ∧
      ascii ",\"duty\":" = 0x2C :: 0x22 :: (ascii "duty" ++ [0x22, 0x3A]) ∧
      ascii ",\"stage\":" = 0x2C :: 0x22 :: (ascii "stage" ++ [0x22, 0x3A]) ∧
      ascii ",\"n_stages\":" = 0x2C :: 0x22 :: (ascii "n_stages" ++ [0x22, 0x3A]) ∧
      ascii ",\"total_ms\":" = 0x2C :: 0x22 :: (ascii "total_ms" ++ [0x22, 0x3A]) ∧
      ascii ",\"uptime_ms\":" = 0x2C :: 0x22 :: (ascii "uptime_ms" ++ [0x22, 0x3A]) := by
    simp [ascii]
  have hstrings : ascii ",\"state\":\"" = 0x2C :: 0x22 :: (ascii "state" ++ [0x22, 0x3A, 0x22]) ∧
      ascii "\",\"fault\":\"" = 0x22 :: 0x2C :: 0x22 :: (ascii "fault" ++ [0x22, 0x3A, 0x22]) ∧
      ascii "\",\"profile\":" = 0x22 :: 0x2C :: 0x22 :: (ascii "profile" ++ [0x22, 0x3A]) ∧
      ascii ",\"stage_name\":\"" =
        0x2C :: 0x22 :: (ascii "stage_name" ++ [0x22, 0x3A, 0x22]) ∧
      ascii "\",\"stage_ms\":" = 0x22 :: 0x2C :: 0x22 :: (ascii "stage_ms" ++ [0x22, 0x3A]) ∧
      ascii "\x7d" = [0x7D] := by
    simp [ascii]
  delta ProfileTable.reflowTelemetryJson
  simp only [hnumbers, hstrings]
  simp only [earlyMembers, lateMembers, textOf, memberText, List.map_cons, List.map_nil,
    List.flatMap_cons, List.flatMap_nil, separated_cons_cons, separated_singleton,
    List.append_assoc, List.cons_append, List.nil_append]

theorem plain_reflowStateStr (state : UInt8) : Plain (reflowStateStr state) := by
  unfold reflowStateStr
  split_ifs <;> decide

theorem plain_reflowFaultStr (fault : UInt8) : Plain (reflowFaultStr fault) := by
  unfold reflowFaultStr
  split_ifs <;> decide

theorem denotes_truth (b : UInt8) :
    Denotes (if b ≠ 0 then ascii "true" else ascii "false") (.bool (decide (b ≠ 0))) := by
  by_cases hb : b ≠ 0
  · rw [if_pos hb, decide_eq_true hb]
    exact denotes_true
  · rw [if_neg hb, decide_eq_false hb]
    exact denotes_false

theorem isMember_memberText {key value : List UInt8} {v : Json} (hkey : Plain key)
    (hvalue : Denotes value v) : IsMember (memberText key value) (key, v) :=
  ⟨key, value, rfl, spells_self hkey, hvalue⟩

theorem isMember_early : ∀ m ∈ earlyMembers t, IsMember (textOf m) (meaningOf m) := by
  simp only [earlyMembers, List.forall_mem_cons, textOf, meaningOf]
  refine ⟨?_, ?_, ?_, ?_, ?_, ?_, ?_, ?_, ?_, by simp⟩
  · exact isMember_memberText (by decide) (denotes_signedText _)
  · exact isMember_memberText (by decide) (denotes_truth _)
  · exact isMember_memberText (by decide) (denotes_signedText _)
  · exact isMember_memberText (by decide) (denotes_decimalText _)
  · exact isMember_memberText (by decide) (denotes_str (spells_self (plain_reflowStateStr _)))
  · exact isMember_memberText (by decide) (denotes_str (spells_self (plain_reflowFaultStr _)))
  all_goals exact isMember_memberText (by decide) (denotes_decimalText _)

theorem isMember_late : ∀ m ∈ lateMembers t, IsMember (textOf m) (meaningOf m) := by
  simp only [lateMembers, List.forall_mem_cons, textOf, meaningOf]
  refine ⟨?_, ?_, ?_, by simp⟩
  all_goals exact isMember_memberText (by decide) (denotes_decimalText _)

theorem forall₂_isMember {ms : List (List UInt8 × List UInt8 × Json)}
    (h : ∀ m ∈ ms, IsMember (textOf m) (meaningOf m)) :
    List.Forall₂ IsMember (ms.map textOf) (ms.map meaningOf) := by
  rw [List.forall₂_map_left_iff, List.forall₂_map_right_iff, List.forall₂_same]
  exact h

end Members

section Reading

variable {table : ProfileTable} {t : ReflowTelemetry}

/-- With a plain name the text is the object of its members. -/
theorem exists_members (h : Plain (table.stageName t)) : ∃ texts ms,
    List.Forall₂ IsMember texts ms ∧
      table.reflowTelemetryJson t = 0x7B :: (separated texts ++ [0x7D]) ∧
        telemetryObject t (table.stageName t) = .obj ms := by
  have hkey : Plain (ascii "stage_name") := by decide
  have hname := isMember_memberText hkey (denotes_str (spells_self h))
  have hlate (text : List UInt8) : separated (text :: (lateMembers t).map textOf) =
      text ++ 0x2C :: separated ((lateMembers t).map textOf) := separated_cons_cons _ _ _
  refine ⟨_, _, List.rel_append (forall₂_isMember (isMember_early t))
    (.cons hname (forall₂_isMember (isMember_late t))), ?_, rfl⟩
  rw [separated_append, hlate, reflowTelemetryJson_eq]
  simp only [List.append_assoc, List.cons_append]

/-- A plain name is read back with the fields. -/
theorem readJson_of_plain (h : Plain (table.stageName t)) :
    readJson (table.reflowTelemetryJson t) = some (telemetryObject t (table.stageName t)) := by
  obtain ⟨texts, ms, hmembers, htext, hobject⟩ := exists_members h
  rw [htext, hobject]
  exact readJson_of_denotes (denotes_obj hmembers)

/-- The members at the end of an object whose text starts with these. -/
theorem readMembers_of_readJson {texts : List (List UInt8)} {ms : List (List UInt8 × Json)}
    (hs : List.Forall₂ IsMember texts ms) {tail : List UInt8}
    (hlen : texts.length ≤ tail.length) {ms' : List (List UInt8 × Json)}
    (h : readJson (0x7B :: (texts.flatMap (· ++ [0x2C]) ++ 0x22 :: tail)) =
      some (.obj (ms ++ ms'))) :
    ∃ fuel rest, readMembers (fuel + 2) (0x22 :: tail) = some (ms', rest) := by
  have hstart : ∃ s, texts.flatMap (· ++ [0x2C]) ++ 0x22 :: tail = 0x22 :: s := by
    cases hs with
    | nil => exact ⟨tail, rfl⟩
    | cons hm _ =>
      obtain ⟨key, value, rfl, -, -⟩ := hm
      exact ⟨_, rfl⟩
  have hnotEmpty : (skipSpace (texts.flatMap (· ++ [0x2C]) ++ 0x22 :: tail)).head? ≠
      some 0x7D := by
    obtain ⟨s, hs⟩ := hstart
    rw [hs, skipSpace_cons (by decide)]
    simp
  obtain ⟨r, hvalue, hend⟩ := Option.bind_eq_some_iff.mp h
  rw [readValue_cons (Nat.succ_pos _) (by decide), if_neg (by decide), if_neg (by decide),
    if_pos rfl, if_neg hnotEmpty] at hvalue
  obtain ⟨r', hmembers, rfl⟩ := Option.map_eq_some_iff.mp hvalue
  obtain ⟨-, hobj⟩ := Option.ite_none_right_eq_some.mp hend
  have hfuel : (0x7B :: (texts.flatMap (· ++ [0x2C]) ++ 0x22 :: tail)).length + 1 - 1 =
      (texts.flatMap (· ++ [0x2C])).length + (tail.length - texts.length) + 2 + texts.length := by
    simp only [List.length_cons, List.length_append]
    omega
  rw [hfuel, readMembers_initial hs (by omega)] at hmembers
  obtain ⟨r'', htail, rfl⟩ := Option.map_eq_some_iff.mp hmembers
  have hsame : r''.1 = ms' := List.append_cancel_left (Json.obj.inj (Option.some.inj hobj))
  exact ⟨_, r''.2, by rw [htail, ← hsame]⟩

/-- What is read of a text that is put between quotes as it is. -/
theorem readMembers_str {fuel : ℕ} {key text : List UInt8} (hkey : Plain key)
    {ms : List (List UInt8 × Json)} {v : Json} {rest : List UInt8}
    (h : readMembers (fuel + 2) (memberText key (0x22 :: text)) = some ((key, v) :: ms, rest)) :
    ∃ bytes rest', readString text = some (bytes, rest') ∧ v = .str bytes := by
  rw [memberText, readMembers, skipSpace_cons (by decide)] at h
  simp only [ne_eq, not_true_eq_false, if_false, readString_spelt (spells_self hkey),
    Option.bind_some] at h
  rw [skipSpace_cons (by decide)] at h
  simp only [not_true_eq_false, if_false] at h
  obtain ⟨r, hvalue, hnext⟩ := Option.bind_eq_some_iff.mp h
  rw [readValue_cons (Nat.succ_pos _) (by decide), if_pos rfl] at hvalue
  obtain ⟨⟨bytes, rest'⟩, hread, rfl⟩ := Option.map_eq_some_iff.mp hvalue
  refine ⟨bytes, rest', hread, ?_⟩
  dsimp only at hnext
  split at hnext
  · cases hnext
  · split_ifs at hnext
    · obtain ⟨r', -, hcons⟩ := Option.map_eq_some_iff.mp hnext
      cases hcons
      rfl
    · cases hnext
      rfl

/-- A name that is read back as it is was plain. -/
theorem plain_of_readJson
    (h : readJson (table.reflowTelemetryJson t) =
      some (telemetryObject t (table.stageName t))) : Plain (table.stageName t) := by
  obtain ⟨w, hlate⟩ : ∃ w, separated ((lateMembers t).map textOf) = 0x22 :: w :=
    exists_separated_cons _ _ _
  have htail : memberText (ascii "stage_name") (0x22 :: (table.stageName t ++ [0x22])) ++
      0x2C :: (separated ((lateMembers t).map textOf) ++ [0x7D]) =
      memberText (ascii "stage_name")
        (0x22 :: (table.stageName t ++ 0x22 :: 0x2C :: 0x22 :: (w ++ [0x7D]))) := by
    simp only [memberText, hlate, List.cons_append, List.append_assoc, List.nil_append]
  rw [reflowTelemetryJson_eq, htail] at h
  have hcount : ((earlyMembers t).map textOf).length = 9 := rfl
  have hkey : (ascii "stage_name").length = 10 := rfl
  obtain ⟨fuel, rest, hmembers⟩ := readMembers_of_readJson (forall₂_isMember (isMember_early t))
    (by rw [hcount, List.length_append, hkey]; omega) h
  obtain ⟨bytes, rest', hread, hname⟩ := readMembers_str (by decide) hmembers
  exact (unescaped_of_readString hread).eq_imp (Json.str.inj hname).symm

end Reading

section RoundTrip

/-- State and fault are enumerators. -/
structure InEnums (t : ReflowTelemetry) : Prop where
  state : ∃ s : ReflowState, t.state = s.toU8
  fault : ∃ f : ReflowFault, t.fault = f.toU8

/-- The two values differ at most in which nonzero byte stands for a valid temperature. -/
def SameFields (t t' : ReflowTelemetry) : Prop :=
  { t with tempValid := 0 } = { t' with tempValid := 0 } ∧ (t.tempValid ≠ 0 ↔ t'.tempValid ≠ 0)

/-- The text left in the buffer reads as one object, and the object is that of no other
fields and no other name. -/
structure RoundTrips (table : ProfileTable) (t : ReflowTelemetry) : Prop where
  reads : readJson (snprintk reflowJsonBufSz (table.reflowTelemetryJson t)).1 =
    some (telemetryObject t (table.stageName t))
  decodes : ∀ t' name, telemetryObject t' name = telemetryObject t (table.stageName t) →
    SameFields t' t ∧ name = table.stageName t

/-- The whole text is left in the buffer. -/
theorem buffer_holds {table : ProfileTable} {absMaxMc : ℤ} (htable : table.Valid absMaxMc)
    (t : ReflowTelemetry) :
    (snprintk reflowJsonBufSz (table.reflowTelemetryJson t)).1 = table.reflowTelemetryJson t := by
  rw [snprintk_of_lt (length_reflowTelemetryJson_lt (length_stageName_le htable t))]

theorem reflowStateStr_inj {b : UInt8} {s : ReflowState}
    (h : reflowStateStr b = reflowStateStr s.toU8) : b = s.toU8 := by
  unfold reflowStateStr at h
  cases s <;> split_ifs at h <;> first | assumption | contradiction

theorem reflowFaultStr_inj {b : UInt8} {f : ReflowFault}
    (h : reflowFaultStr b = reflowFaultStr f.toU8) : b = f.toU8 := by
  unfold reflowFaultStr at h
  cases f <;> split_ifs at h <;> first | assumption | contradiction

/-- The object determines the fields. -/
theorem telemetryObject_inj {t t' : ReflowTelemetry} {name name' : List UInt8} (ht : InEnums t)
    (h : telemetryObject t' name' = telemetryObject t name) : SameFields t' t ∧ name' = name := by
  obtain ⟨s, hs⟩ := ht.state
  obtain ⟨f, hf⟩ := ht.fault
  simp only [telemetryObject, earlyMembers, lateMembers, meaningOf, List.map_cons, List.map_nil,
    List.cons_append, List.nil_append, Json.obj.injEq, List.cons.injEq, Prod.mk.injEq, true_and,
    and_true, Json.num.injEq, Json.str.injEq, Json.bool.injEq, Nat.cast_inj, Int32.toInt_inj,
    UInt8.toNat_inj, UInt16.toNat_inj, UInt32.toNat_inj, decide_eq_decide] at h
  obtain ⟨htemp, hvalid, hsetpoint, hduty, hstate, hfault, hprofile, hstage, hcount, hname,
    hstageMs, htotalMs, huptimeMs⟩ := h
  rw [hs] at hstate
  rw [hf] at hfault
  have hstate' := (reflowStateStr_inj hstate).trans hs.symm
  have hfault' := (reflowFaultStr_inj hfault).trans hf.symm
  refine ⟨⟨?_, hvalid⟩, hname⟩
  rw [htemp, hsetpoint, hduty, hstate', hfault', hprofile, hstage, hcount, hstageMs, htotalMs,
    huptimeMs]

/-- Over a table of checked profiles the object round-trips exactly where the stage name that
it shows holds no quote, no backslash and no control character. -/
theorem telemetry_roundTrips_iff {table : ProfileTable} {absMaxMc : ℤ}
    (htable : table.Valid absMaxMc) {t : ReflowTelemetry} (ht : InEnums t) :
    RoundTrips table t ↔ Plain (table.stageName t) := by
  constructor
  · intro h
    have hreads := h.reads
    rw [buffer_holds htable] at hreads
    exact plain_of_readJson hreads
  · intro hplain
    constructor
    · rw [buffer_holds htable]
      exact readJson_of_plain hplain
    · exact fun t' name h => telemetryObject_inj ht h

theorem plain_builtin (t : ReflowTelemetry) :
    Plain (ProfileTable.stageName reflowProfileGet t) := by
  have hnames : ∀ prof ∈ builtin, ∀ i < prof.nStages,
      Plain (CString.ofBuffer (prof.stage i).name).bytes := by decide
  unfold ProfileTable.stageName
  split
  · next prof hprof =>
    split_ifs with hstage
    · exact hnames prof (mem_builtin_of_get hprof) _ hstage
    · decide
  · decide

def peakFrame : ReflowTelemetry :=
  ⟨4294967295, -1, 255, 245000, 1000, 1, 0, 0, 3, 5, 30000, 270000⟩

theorem telemetry_roundTrips_peak : RoundTrips reflowProfileGet peakFrame :=
  (telemetry_roundTrips_iff valid_builtin ⟨⟨.running, rfl⟩, ⟨.none, rfl⟩⟩).mpr (plain_builtin _)

/-- A profile with a stage that is named after its hold at 5". -/
def quotedProfile : ReflowProfile where
  name := charArray reflowProfileNameLen "demo"
  nStages := 1
  stages := [⟨charArray reflowStageNameLen "hold 5\"", 100000, 1000, .soak⟩]
  abortMc := 200000
  tolMc := 5000
  graceMs := 1000

def quotedTable : ProfileTable := fun i => if i = 0 then some quotedProfile else none

def quotedFrame : ReflowTelemetry := ⟨1000, 25000, 1, 100000, 500, 1, 0, 0, 0, 1, 200, 200⟩

theorem quoted_name_breaks_object : ¬∀ (table : ProfileTable) (absMaxMc : ℤ),
    table.Valid absMaxMc → ∀ t, InEnums t → RoundTrips table t := by
  intro h
  have hvalid : quotedTable.Valid 260000 := by
    intro i prof hprof
    simp only [quotedTable, Option.ite_none_right_eq_some, Option.some.injEq] at hprof
    rw [← hprof.2]
    decide
  have hreads := (h quotedTable 260000 hvalid quotedFrame ⟨⟨.running, rfl⟩, ⟨.none, rfl⟩⟩).reads
  rw [buffer_holds hvalid] at hreads
  exact absurd (plain_of_readJson hreads) (by decide)

end RoundTrip

section Bytes

/-- No control characters. -/
def Visible (text : List UInt8) : Prop := ∀ c ∈ text, ¬c < 0x20

instance (text : List UInt8) : Decidable (Visible text) :=
  List.decidableBAll (fun c => ¬c < 0x20) text

theorem visible_append {text text' : List UInt8} :
    Visible (text ++ text') ↔ Visible text ∧ Visible text' :=
  List.forall_mem_append

theorem visible_of_plain {text : List UInt8} (h : Plain text) : Visible text :=
  fun c hc => (h c hc).2.2

theorem visible_decimalText (n : ℕ) : Visible (decimalText n) := fun _ hc =>
  not_lt.mpr (le_trans (by decide) (digit_of_mem_decimalText hc).1)

theorem visible_signedText (z : ℤ) : Visible (signedText z) := by
  cases z with
  | ofNat n => exact visible_decimalText n
  | negSucc n => exact List.forall_mem_cons.mpr ⟨by decide, visible_decimalText _⟩

theorem notMem_of_visible {text : List UInt8} (h : Visible text) {c : UInt8} (hc : c < 0x20) :
    c ∉ text := fun hmem => h c hmem hc

theorem visible_reflowTelemetryJson (t : ReflowTelemetry) : Visible (reflowTelemetryJson t) := by
  have hvalid : Visible (if t.tempValid ≠ 0 then ascii "true" else ascii "false") := by
    split_ifs <;> decide
  have hstate := visible_of_plain (plain_reflowStateStr t.state)
  have hfault := visible_of_plain (plain_reflowFaultStr t.fault)
  have hname : Visible (ProfileTable.stageName reflowProfileGet t) :=
    visible_of_plain (plain_builtin t)
  delta reflowTelemetryJson ProfileTable.reflowTelemetryJson
  simp only [visible_append, visible_decimalText, visible_signedText, hvalid, hstate, hfault,
    hname]
  decide

end Bytes

end ReflowOven
