import ReflowOven.ApplicationContract
import ReflowOven.CTextFormatting
import ReflowOven.ReflowProfiles

/-!
# The telemetry object

The formatter `telemetry_json.c`, the names it writes for states and faults, and the
bounded copies of its text that the web server sends, over an arbitrary profile table and for
the built-in one.
-/

namespace ReflowOven

def reflowJsonBufSz : ℕ := 384

def reflowStateStr (state : UInt8) : List UInt8 :=
  if state = ReflowState.idle.toU8 then ascii "idle"
  else if state = ReflowState.running.toU8 then ascii "running"
  else if state = ReflowState.done.toU8 then ascii "done"
  else if state = ReflowState.fault.toU8 then ascii "fault"
  else ascii "?"

def reflowFaultStr (fault : UInt8) : List UInt8 :=
  if fault = ReflowFault.none.toU8 then ascii "none"
  else if fault = ReflowFault.sensor.toU8 then ascii "sensor"
  else if fault = ReflowFault.overtemp.toU8 then ascii "overtemp"
  else if fault = ReflowFault.timeout.toU8 then ascii "timeout"
  else ascii "?"

/-- What `reflow_profile_get` answers. -/
abbrev ProfileTable := ℕ → Option ReflowProfile

/-- The size of the frame in `push_event`. -/
def frameBufSz : ℕ := reflowJsonBufSz + 16

namespace ProfileTable

variable (table : ProfileTable) (t : ReflowTelemetry)

def stageName : List UInt8 :=
  match table t.profileIdx.toNat with
  | some prof =>
    if t.stageIdx.toNat < prof.nStages then
      (CString.ofBuffer (prof.stage t.stageIdx.toNat).name).bytes
    else ascii "-"
  | none => ascii "-"

/-- The text that `snprintk` is asked for. -/
def reflowTelemetryJson : List UInt8 :=
  ascii "\x7b\"temp_mc\":" ++ signedText t.tempMc.toInt ++
  ascii ",\"temp_valid\":" ++ (if t.tempValid ≠ 0 then ascii "true" else ascii "false") ++
  ascii ",\"setpoint_mc\":" ++ signedText t.setpointMc.toInt ++
  ascii ",\"duty\":" ++ decimalText t.dutyPermille.toNat ++
  ascii ",\"state\":\"" ++ reflowStateStr t.state ++
  ascii "\",\"fault\":\"" ++ reflowFaultStr t.fault ++
  ascii "\",\"profile\":" ++ decimalText t.profileIdx.toNat ++
  ascii ",\"stage\":" ++ decimalText t.stageIdx.toNat ++
  ascii ",\"n_stages\":" ++ decimalText t.nStages.toNat ++
  ascii ",\"stage_name\":\"" ++ table.stageName t ++
  ascii "\",\"stage_ms\":" ++ decimalText t.stageMs.toNat ++
  ascii ",\"total_ms\":" ++ decimalText t.totalMs.toNat ++
  ascii ",\"uptime_ms\":" ++ decimalText t.uptimeMs.toNat ++ ascii "\x7d"

/-- The string left in a buffer of `len` bytes and the length that is returned. -/
def buildStateJson (len : ℕ) : List UInt8 × ℕ :=
  let r := snprintk len (table.reflowTelemetryJson t)
  (r.1, if r.2 ≥ len then len - 1 else r.2)

/-- The bytes that `push_event` sends. -/
def eventFrame : List UInt8 :=
  let json := (table.buildStateJson t reflowJsonBufSz).1
  let r := snprintk frameBufSz (ascii "data: " ++ json ++ ascii "\n\n")
  r.1.take (if r.2 ≥ frameBufSz then frameBufSz - 1 else r.2)

end ProfileTable

def stageName (t : ReflowTelemetry) : List UInt8 := ProfileTable.stageName reflowProfileGet t

def reflowTelemetryJson (t : ReflowTelemetry) : List UInt8 :=
  ProfileTable.reflowTelemetryJson reflowProfileGet t

def buildStateJson (t : ReflowTelemetry) (len : ℕ) : List UInt8 × ℕ :=
  ProfileTable.buildStateJson reflowProfileGet t len

end ReflowOven
