import ReflowOven.HttpServer
import ReflowOven.ProfileValidation

/-!
# The sizes of the telemetry buffers

The text of `telemetry_json.c` and the buffers of the web server, over an arbitrary profile
table. The text is bounded field by field, so that it fits the buffers of their shipped sizes;
for the other capacities the length reported is that of the string left.
-/

namespace ReflowOven

/-- 242 is literal characters of the format plus the widest numeric fields. -/
def reflowJsonWorstCase : ℕ := 242 + (reflowStageNameLen - 1) + 1

section Widths

theorem length_reflowStateStr_le (state : UInt8) : (reflowStateStr state).length ≤ 7 := by
  unfold reflowStateStr
  split_ifs <;> decide

theorem length_reflowFaultStr_le (fault : UInt8) : (reflowFaultStr fault).length ≤ 8 := by
  unfold reflowFaultStr
  split_ifs <;> decide

theorem length_int32Text_le (z : Int32) : (signedText z.toInt).length ≤ 11 := by
  have hlow := z.le_toInt
  have hhigh := z.toInt_lt
  exact length_signedText_le (k := 10) (by omega) (by omega) (by omega)

theorem length_uint8Text_le (n : UInt8) : (decimalText n.toNat).length ≤ 3 := by
  have hlt := n.toNat_lt
  exact (length_decimalText_le_iff (by omega)).mpr (by omega)

theorem length_uint16Text_le (n : UInt16) : (decimalText n.toNat).length ≤ 5 := by
  have hlt := n.toNat_lt
  exact (length_decimalText_le_iff (by omega)).mpr (by omega)

theorem length_uint32Text_le (n : UInt32) : (decimalText n.toNat).length ≤ 10 := by
  have hlt := n.toNat_lt
  exact (length_decimalText_le_iff (by omega)).mpr (by omega)

variable (table : ProfileTable) (t : ReflowTelemetry)

/-- The literal characters of the format and the widths of its fields. -/
theorem length_reflowTelemetryJson : (table.reflowTelemetryJson t).length =
    156 + (signedText t.tempMc.toInt).length +
      (if t.tempValid ≠ 0 then ascii "true" else ascii "false").length +
      (signedText t.setpointMc.toInt).length + (decimalText t.dutyPermille.toNat).length +
      (reflowStateStr t.state).length + (reflowFaultStr t.fault).length +
      (decimalText t.profileIdx.toNat).length + (decimalText t.stageIdx.toNat).length +
      (decimalText t.nStages.toNat).length + (table.stageName t).length +
      (decimalText t.stageMs.toNat).length + (decimalText t.totalMs.toNat).length +
      (decimalText t.uptimeMs.toNat).length := by
  have hliterals : (ascii "\x7b\"temp_mc\":").length = 11 ∧
      (ascii ",\"temp_valid\":").length = 14 ∧ (ascii ",\"setpoint_mc\":").length = 15 ∧
      (ascii ",\"duty\":").length = 8 ∧ (ascii ",\"state\":\"").length = 10 ∧
      (ascii "\",\"fault\":\"").length = 11 ∧ (ascii "\",\"profile\":").length = 12 ∧
      (ascii ",\"stage\":").length = 9 ∧ (ascii ",\"n_stages\":").length = 12 ∧
      (ascii ",\"stage_name\":\"").length = 15 ∧ (ascii "\",\"stage_ms\":").length = 13 ∧
      (ascii ",\"total_ms\":").length = 12 ∧ (ascii ",\"uptime_ms\":").length = 13 ∧
      (ascii "\x7d").length = 1 := by
    simp [ascii]
  delta ProfileTable.reflowTelemetryJson
  simp only [List.length_append]
  omega

/-- The full text, whatever the fields hold. -/
theorem length_reflowTelemetryJson_le
    (hname : (table.stageName t).length ≤ reflowStageNameLen - 1) :
    (table.reflowTelemetryJson t).length ≤ reflowJsonWorstCase - 1 := by
  have htemp := length_int32Text_le t.tempMc
  have hsetpoint := length_int32Text_le t.setpointMc
  have hduty := length_uint16Text_le t.dutyPermille
  have hstate := length_reflowStateStr_le t.state
  have hfault := length_reflowFaultStr_le t.fault
  have hprofile := length_uint8Text_le t.profileIdx
  have hstage := length_uint8Text_le t.stageIdx
  have hcount := length_uint8Text_le t.nStages
  have hstageMs := length_uint32Text_le t.stageMs
  have htotalMs := length_uint32Text_le t.totalMs
  have huptimeMs := length_uint32Text_le t.uptimeMs
  have hvalid : (if t.tempValid ≠ 0 then ascii "true" else ascii "false").length ≤ 5 := by
    split_ifs <;> decide
  simp only [reflowStageNameLen] at hname
  simp only [length_reflowTelemetryJson, reflowJsonWorstCase, reflowStageNameLen]
  omega

end Widths

section Tables

/-- Every profile in the table passes the check. -/
def ProfileTable.Valid (table : ProfileTable) (absMaxMc : ℤ) : Prop :=
  ∀ i prof, table i = some prof → reflowProfileValidate (some prof) absMaxMc = .ok

/-- A checked name ends inside its array. -/
theorem length_ofBuffer_lt {name : List UInt8} {cap : ℕ} (h : nameIsString name cap = true) :
    (CString.ofBuffer name).bytes.length < cap := by
  obtain ⟨-, hnul⟩ := (Bool.and_eq_true _ _).mp h
  have hsplit := eq_takeWhile_append (List.contains_iff_mem.mp hnul)
  have hname := List.take_append_drop cap name
  rw [hsplit, List.append_assoc, List.cons_append] at hname
  have hbytes : (CString.ofBuffer name).bytes = (name.take cap).takeWhile (· ≠ 0) := by
    conv_lhs => rw [← hname]
    exact takeWhile_ne_append_cons (notMem_takeWhile_ne 0 _) _
  have hlen := congrArg List.length hsplit
  simp only [List.length_append, List.length_cons, List.length_take] at hlen
  rw [hbytes]
  omega

theorem length_stageName_le {table : ProfileTable} {absMaxMc : ℤ} (htable : table.Valid absMaxMc)
    (t : ReflowTelemetry) : (table.stageName t).length ≤ reflowStageNameLen - 1 := by
  unfold ProfileTable.stageName
  split
  · next prof hprof =>
    split_ifs with hstage
    · have hvalid := ((reflowProfileValidate_ok_iff prof absMaxMc).mp (htable _ _ hprof)).1
      exact Nat.le_pred_of_lt (length_ofBuffer_lt (hvalid.stage_named _ hstage))
    · decide
  · decide

theorem mem_builtin_of_get {i : ℕ} {prof : ReflowProfile} (h : reflowProfileGet i = some prof) :
    prof ∈ builtin := by
  rw [reflowProfileGet] at h
  split at h
  · cases h
  · exact List.mem_of_getElem? h

theorem valid_builtin : ProfileTable.Valid reflowProfileGet CoreConfig.stock.absMaxMc :=
  fun _ prof h => (builtin_valid prof (mem_builtin_of_get h)).2

end Tables

section Buffers

variable (table : ProfileTable) (t : ReflowTelemetry)

theorem buildStateJson_fst (len : ℕ) :
    (table.buildStateJson t len).1 = (table.reflowTelemetryJson t).take (len - 1) := rfl

/-- The length that is returned is that of the string, below the capacity. -/
theorem buildStateJson_length {len : ℕ} (hlen : 1 ≤ len) :
    (table.buildStateJson t len).2 = (table.buildStateJson t len).1.length ∧
      (table.buildStateJson t len).2 < len := by
  rcases Nat.lt_or_ge (table.reflowTelemetryJson t).length len with hfits | hfull
  · simp only [ProfileTable.buildStateJson, snprintk, List.length_take, ge_iff_le,
      if_neg (not_le.mpr hfits)]
    omega
  · simp only [ProfileTable.buildStateJson, snprintk, List.length_take, ge_iff_le, if_pos hfull]
    omega

theorem noNul_stageName : 0 ∉ table.stageName t := by
  unfold ProfileTable.stageName
  split
  · split_ifs
    · exact CString.noNul _
    · decide
  · decide

theorem noNul_reflowStateStr (state : UInt8) : 0 ∉ reflowStateStr state := by
  unfold reflowStateStr
  split_ifs <;> decide

theorem noNul_reflowFaultStr (fault : UInt8) : 0 ∉ reflowFaultStr fault := by
  unfold reflowFaultStr
  split_ifs <;> decide

/-- The text ends in memory where it ends here. -/
theorem noNul_reflowTelemetryJson : 0 ∉ table.reflowTelemetryJson t := by
  have hvalid : 0 ∉ if t.tempValid ≠ 0 then ascii "true" else ascii "false" := by
    split_ifs <;> decide
  delta ProfileTable.reflowTelemetryJson
  simp only [List.mem_append, noNul_stageName, noNul_decimalText, noNul_signedText,
    noNul_reflowStateStr, noNul_reflowFaultStr, hvalid]
  simp [ascii]

/-- The whole text is shorter than its buffer. -/
theorem length_reflowTelemetryJson_lt {table : ProfileTable} {t : ReflowTelemetry}
    (hname : (table.stageName t).length ≤ reflowStageNameLen - 1) :
    (table.reflowTelemetryJson t).length < reflowJsonBufSz := by
  have hworst := length_reflowTelemetryJson_le table t hname
  simp only [reflowJsonWorstCase, reflowStageNameLen, reflowJsonBufSz] at hworst ⊢
  omega

theorem buildStateJson_whole {table : ProfileTable} {t : ReflowTelemetry}
    (hname : (table.stageName t).length ≤ reflowStageNameLen - 1) :
    table.buildStateJson t reflowJsonBufSz =
      (table.reflowTelemetryJson t, (table.reflowTelemetryJson t).length) := by
  have hshort := length_reflowTelemetryJson_lt hname
  simp only [ProfileTable.buildStateJson, snprintk_of_lt hshort, if_neg (not_le.mpr hshort)]

/-- The frame around the text fits its own buffer. -/
theorem eventFrame_whole {table : ProfileTable} {t : ReflowTelemetry}
    (hname : (table.stageName t).length ≤ reflowStageNameLen - 1) :
    table.eventFrame t = ascii "data: " ++ table.reflowTelemetryJson t ++ ascii "\n\n" ∧
      (table.eventFrame t).length < frameBufSz := by
  have hshort := length_reflowTelemetryJson_lt hname
  have hwrapped : (ascii "data: " ++ table.reflowTelemetryJson t ++ ascii "\n\n").length <
      frameBufSz := by
    have hwrapper : (ascii "data: ").length = 6 ∧ (ascii "\n\n").length = 2 := ⟨rfl, rfl⟩
    simp only [List.length_append, hwrapper, frameBufSz]
    omega
  have hframe : table.eventFrame t =
      ascii "data: " ++ table.reflowTelemetryJson t ++ ascii "\n\n" := by
    simp only [ProfileTable.eventFrame, buildStateJson_whole hname, snprintk_of_lt hwrapped,
      if_neg (not_le.mpr hwrapped), List.take_length]
  exact ⟨hframe, hframe ▸ hwrapped⟩

/-- What the formatter and the two buffers promise their callers. `stale` is whatever the
buffer held past the string. -/
structure BuffersHonest : Prop where
  worst : (table.reflowTelemetryJson t).length ≤ reflowJsonWorstCase - 1
  json : table.buildStateJson t reflowJsonBufSz =
    (table.reflowTelemetryJson t, (table.reflowTelemetryJson t).length)
  frame : table.eventFrame t =
    ascii "data: " ++ table.reflowTelemetryJson t ++ ascii "\n\n"
  frame_fits : (table.eventFrame t).length < frameBufSz
  reported : ∀ len, 1 ≤ len → ∀ stale, (table.buildStateJson t len).2 =
    (CString.ofBuffer ((table.buildStateJson t len).1 ++ 0 :: stale)).bytes.length
  below : ∀ len, 1 ≤ len → (table.buildStateJson t len).2 < len
  initial : ∀ len, (table.buildStateJson t len).1 <+: table.reflowTelemetryJson t
  longest : ∀ len s, s <+: table.reflowTelemetryJson t → s.length < len →
    s <+: (table.buildStateJson t len).1

/-- For every telemetry value and every stage name that its array can hold, nothing is
truncated at the shipped sizes, and at any other size the length returned is that of the
longest beginning of the text that fits. -/
theorem buffersHonest (hname : (table.stageName t).length ≤ reflowStageNameLen - 1) :
    BuffersHonest table t := by
  constructor
  case worst => exact length_reflowTelemetryJson_le table t hname
  case json => exact buildStateJson_whole hname
  case frame => exact (eventFrame_whole hname).1
  case frame_fits => exact (eventFrame_whole hname).2
  case reported =>
    intro len hlen stale
    have hnul : 0 ∉ (table.buildStateJson t len).1 := by
      rw [buildStateJson_fst]
      exact fun h => noNul_reflowTelemetryJson table t (List.mem_of_mem_take h)
    have hread : (CString.ofBuffer ((table.buildStateJson t len).1 ++ 0 :: stale)).bytes =
        (table.buildStateJson t len).1 := takeWhile_ne_append_cons hnul stale
    rw [hread, (buildStateJson_length table t hlen).1]
  case below => exact fun len hlen => (buildStateJson_length table t hlen).2
  case initial =>
    intro len
    rw [buildStateJson_fst]
    exact List.take_prefix (len - 1) _
  case longest =>
    intro len s hs hlen
    simpa only [buildStateJson_fst, snprintk] using snprintk_longest hs hlen

def widestFrame : ReflowTelemetry :=
  ⟨4294967295, -2147483648, 0, -2147483648, 65535, 255, 255, 0, 4, 255, 4294967295, 4294967295⟩

theorem buffersHonest_widestFrame : BuffersHonest reflowProfileGet widestFrame :=
  buffersHonest reflowProfileGet widestFrame (by decide)

end Buffers

end ReflowOven
