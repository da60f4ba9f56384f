import Mathlib.Data.Fin.VecNotation
import TelemetryPlatform.CStrings

/-!
# The telemetry state and how the gateway builds it

A protobuf message that unpacks becomes one telemetry state. Identifiers are
C strings copied into fixed buffers, so every buffer carries the proof that
it holds no terminator and leaves room for one. Floats are kept as their
binary32 images; nothing here does arithmetic on them.
-/

namespace TelemetryPlatform.TelemetryTypes

open CStrings

/-- The image of a C float. -/
abbrev Binary32 := BitVec 32

/-- Copy the source, or the fallback where the source is NULL or empty. A
NULL pointer is none. -/
def safeCopy (cap : ℕ) (hcap : 0 < cap) (src fallback : Option CString) : CharBuf cap :=
  let s := match src with
    | some s => if s.bytes = [] then fallback else some s
    | none => fallback
  CharBuf.ofCString hcap (s.getD CString.empty)

/-- Three vector components, as in the Vec3f message and the float[3] fields. -/
structure Vec3 where
  /-- First component. -/
  x : Binary32
  /-- Second component. -/
  y : Binary32
  /-- Third component. -/
  z : Binary32
  deriving DecidableEq

/-- Zeroed memory. -/
def Vec3.zero : Vec3 := ⟨0, 0, 0⟩

/-- The protobuf header. -/
structure HeaderMsg where
  /-- Robot identifier; the unpacker never delivers NULL, the code allows it. -/
  robotId : Option CString
  /-- Time stamp of the source. -/
  timestampNs : BitVec 64
  /-- Counter of the source. -/
  seq : BitVec 32

/-- The protobuf motor state. -/
structure MotorStateMsg where
  /-- Motor identifier. -/
  motorId : Option CString
  /-- Raw encoder counter. -/
  tics : BitVec 32
  /-- Signed revolutions per minute. -/
  rpm : BitVec 32
  /-- Signed degrees Celsius. -/
  temperatureC : BitVec 32
  /-- Signed millivolts. -/
  voltagePowerStageMv : BitVec 32
  /-- Signed milliamperes. -/
  currentPowerStageMa : BitVec 32

/-- The protobuf snapshot message; absent submessages are none. -/
structure TelemetryStateMsg where
  /-- Source header. -/
  header : Option HeaderMsg
  /-- IMU identifier. -/
  imuId : Option CString
  /-- Acceleration. -/
  accG : Option Vec3
  /-- Angular rate. -/
  gyroDps : Option Vec3
  /-- Tilt sensor identifier. -/
  tiltId : Option CString
  /-- Tilt angles. -/
  tiltDeg : Option Vec3
  /-- Tilt sensor status. -/
  tiltStatus : BitVec 32
  /-- First motor. -/
  motor1 : Option MotorStateMsg
  /-- Second motor. -/
  motor2 : Option MotorStateMsg

/-- One sample inside the gateway. Two-element arrays are indexed by the
motor, index 0 being motor1. -/
structure TelemetryState where
  /-- Reception time on the realtime clock; a signed count of nanoseconds. -/
  receivedAtNs : BitVec 64
  /-- Time stamp of the message header. -/
  msgTimestampNs : BitVec 64
  /-- Sequence identifier of the message header. -/
  seq : BitVec 32
  /-- Robot identifier. -/
  robotId : CharBuf 64
  /-- IMU identifier. -/
  imuId : CharBuf 32
  /-- Tilt sensor identifier. -/
  tiltId : CharBuf 32
  /-- Acceleration. -/
  accG : Vec3
  /-- Angular rate. -/
  gyroDps : Vec3
  /-- Tilt angles. -/
  tiltDeg : Vec3
  /-- Tilt sensor status. -/
  tiltStatus : BitVec 32
  /-- Motor identifiers. -/
  motorId : Fin 2 → CharBuf 32
  /-- Raw encoder counters. -/
  motorTics : Fin 2 → BitVec 32
  /-- Signed revolutions per minute. -/
  motorRpm : Fin 2 → BitVec 32
  /-- Signed degrees Celsius. -/
  motorTemperatureC : Fin 2 → BitVec 32
  /-- Signed millivolts. -/
  motorVoltagePowerStageMv : Fin 2 → BitVec 32
  /-- Signed milliamperes. -/
  motorCurrentPowerStageMa : Fin 2 → BitVec 32
  /-- The MQTT topic. -/
  topic : Option CString
  /-- Copy of the received payload, absent where its allocation failed. -/
  raw : Option Bytes

/-- The topic on which snapshots travel. -/
def topicTelemetryState : CString := ⟨lit "/robot/v1/telemetry/state", by decide⟩

/-- The robot identifier of the simulator. -/
def robotSim : CString := ⟨lit "robot_sim", by decide⟩

/-- The identifier of the IMU. -/
def imu0 : CString := ⟨lit "imu0", by decide⟩

/-- The identifier of the tilt sensor. -/
def tilt0 : CString := ⟨lit "tilt0", by decide⟩

/-- The array index of motor1. -/
def firstMotor : Fin 2 := 0

/-- The array index of motor2. -/
def secondMotor : Fin 2 := 1

/-- The motor identifiers, which are also their defaults. -/
def defaultMotorId : Fin 2 → CString := ![⟨lit "motor1", by decide⟩, ⟨lit "motor2", by decide⟩]

/-- The identifier of a motor after the defaults and the motor submessage. -/
def motorIdOf (motor : Option MotorStateMsg) (i : Fin 2) : CharBuf 32 :=
  safeCopy 32 (by decide) (motor.bind MotorStateMsg.motorId) (some (defaultMotorId i))

/-- The state that on_message queues for an unpacked message. The arguments
after the message are the reading of the realtime clock, the payload and
whether the payload copy was allocated. -/
def onMessageState (st : TelemetryStateMsg) (nowRealtimeNs : BitVec 64) (payload : Bytes)
    (rawAllocated : Bool) : TelemetryState where
  receivedAtNs := nowRealtimeNs
  msgTimestampNs := (st.header.map HeaderMsg.timestampNs).getD 0
  seq := (st.header.map HeaderMsg.seq).getD 0
  robotId := safeCopy 64 (by decide) (st.header.bind HeaderMsg.robotId)
    (some ⟨lit "robot", by decide⟩)
  imuId := safeCopy 32 (by decide) st.imuId (some imu0)
  tiltId := safeCopy 32 (by decide) st.tiltId (some tilt0)
  accG := st.accG.getD Vec3.zero
  gyroDps := st.gyroDps.getD Vec3.zero
  tiltDeg := st.tiltDeg.getD Vec3.zero
  tiltStatus := st.tiltStatus
  motorId := ![motorIdOf st.motor1 firstMotor, motorIdOf st.motor2 secondMotor]
  motorTics := ![(st.motor1.map MotorStateMsg.tics).getD 0, (st.motor2.map MotorStateMsg.tics).getD 0]
  motorRpm := ![(st.motor1.map MotorStateMsg.rpm).getD 0, (st.motor2.map MotorStateMsg.rpm).getD 0]
  motorTemperatureC := ![(st.motor1.map MotorStateMsg.temperatureC).getD 0,
    (st.motor2.map MotorStateMsg.temperatureC).getD 0]
  motorVoltagePowerStageMv := ![(st.motor1.map MotorStateMsg.voltagePowerStageMv).getD 0,
    (st.motor2.map MotorStateMsg.voltagePowerStageMv).getD 0]
  motorCurrentPowerStageMa := ![(st.motor1.map MotorStateMsg.currentPowerStageMa).getD 0,
    (st.motor2.map MotorStateMsg.currentPowerStageMa).getD 0]
  topic := some topicTelemetryState
  raw := if 0 < payload.length ∧ rawAllocated = true then some payload else none

end TelemetryPlatform.TelemetryTypes
