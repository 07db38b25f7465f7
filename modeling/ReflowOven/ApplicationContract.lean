import ReflowOven.CStringScanning

/-!
# The public contract of the control core

States, faults, telemetry frames and commands of `app.h`. Frames and commands are
messages, so their fields have the fixed widths of the source.
-/

namespace ReflowOven

inductive ReflowState | idle | running | done | fault
  deriving DecidableEq, Repr

inductive ReflowFault | none | sensor | overtemp | timeout
  deriving DecidableEq, Repr

/-- The value of the enumerator, as stored in a frame. -/
def ReflowState.toU8 : ReflowState → UInt8
  | .idle => 0 | .running => 1 | .done => 2 | .fault => 3

def ReflowFault.toU8 : ReflowFault → UInt8
  | .none => 0 | .sensor => 1 | .overtemp => 2 | .timeout => 3

structure ReflowTelemetry where
  uptimeMs : UInt32
  tempMc : Int32
  tempValid : UInt8
  setpointMc : Int32
  dutyPermille : UInt16
  state : UInt8
  fault : UInt8
  profileIdx : UInt8
  stageIdx : UInt8
  nStages : UInt8
  stageMs : UInt32
  totalMs : UInt32
  deriving DecidableEq

inductive ReflowCmdId | start | stop | selectProfile | clearFault
  deriving DecidableEq, Repr

def ReflowCmdId.toU8 : ReflowCmdId → UInt8
  | .start => 0 | .stop => 1 | .selectProfile => 2 | .clearFault => 3

/-- The enumerator a command byte names; the others fall to the `default` of a switch. -/
def ReflowCmdId.ofU8? (id : UInt8) : Option ReflowCmdId :=
  if id = 0 then some .start
  else if id = 1 then some .stop
  else if id = 2 then some .selectProfile
  else if id = 3 then some .clearFault
  else none

@[simp] theorem ReflowCmdId.ofU8?_toU8 (id : ReflowCmdId) : ofU8? id.toU8 = some id := by
  cases id <;> rfl

theorem ReflowCmdId.toU8_of_ofU8? {b : UInt8} {id : ReflowCmdId} (h : ofU8? b = some id) :
    id.toU8 = b := by
  simp only [ofU8?] at h
  split at h
  · next hb => cases h; exact hb.symm
  split at h
  · next hb => cases h; exact hb.symm
  split at h
  · next hb => cases h; exact hb.symm
  split at h
  · next hb => cases h; exact hb.symm
  · cases h

structure ReflowCmd where
  id : UInt8
  arg : ℤ
  deriving DecidableEq

end ReflowOven
