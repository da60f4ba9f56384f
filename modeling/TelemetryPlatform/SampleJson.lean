import TelemetryPlatform.StringBuilder
import TelemetryPlatform.TelemetryTypes

/-!
# Two renderings of one sample

The live stream prints a telemetry state directly. The history reply prints
the row that the insert stored and the select read back. Both printf calls are
kept as piece lists with the literals cut at the same places, so the two texts
can be compared member by member.
-/

namespace TelemetryPlatform.SampleJson

open CStrings Binary64 FormattedText StringBuilder TelemetryTypes

/-- A literal of a format string. -/
def txt (s : String) (h : 0 ∉ lit s := by decide) : Piece := .text ⟨lit s, h⟩

/-- The double that a float argument is promoted to. -/
def promoted (x : Binary32) : Double := Double.ofBinary32 x

/-- Reception time in seconds. -/
def tSec (receivedAtNs : BitVec 64) : Double := (Double.ofInt64 receivedAtNs).divNat 1000000000

/-- The printf call of the live stream. -/
def telemetryStateToJson (s : TelemetryState) : List Piece :=
  [txt "\x7b\"type\":\"telemetry\",\"t\":", .fixed (tSec s.receivedAtNs),
    txt ",\"t_ns\":", .lld s.receivedAtNs,
    txt ",\"seq\":", .u s.seq,
    txt ",\"msg_ts_ns\":", .llu s.msgTimestampNs,
    txt ",\"robot_id\":\"", .str s.robotId.toCString,
    txt "\",\"imu_id\":\"", .str s.imuId.toCString,
    txt "\",\"tilt_id\":\"", .str s.tiltId.toCString,
    txt "\",\"tilt_status\":", .u s.tiltStatus,
    txt ",\"accel\":\x7b\"x\":", .fixed (promoted s.accG.x),
    txt ",\"y\":", .fixed (promoted s.accG.y),
    txt ",\"z\":", .fixed (promoted s.accG.z),
    txt "\x7d,\"gyro\":\x7b\"x\":", .fixed (promoted s.gyroDps.x),
    txt ",\"y\":", .fixed (promoted s.gyroDps.y),
    txt ",\"z\":", .fixed (promoted s.gyroDps.z),
    txt "\x7d,\"tilt\":\x7b\"x\":", .fixed (promoted s.tiltDeg.x),
    txt ",\"y\":", .fixed (promoted s.tiltDeg.y),
    txt ",\"z\":", .fixed (promoted s.tiltDeg.z),
    txt "\x7d",
    txt ",\"motors\":\x7b\"motor1\":\x7b\"id\":\"", .str (s.motorId firstMotor).toCString,
    txt "\",\"tics\":", .u (s.motorTics firstMotor),
    txt ",\"rpm\":", .d (s.motorRpm firstMotor),
    txt ",\"temperature_c\":", .d (s.motorTemperatureC firstMotor),
    txt ",\"voltage_power_stage_mv\":", .d (s.motorVoltagePowerStageMv firstMotor),
    txt ",\"current_power_stage_ma\":", .d (s.motorCurrentPowerStageMa firstMotor),
    txt "\x7d,\"motor2\":\x7b\"id\":\"", .str (s.motorId secondMotor).toCString,
    txt "\",\"tics\":", .u (s.motorTics secondMotor),
    txt ",\"rpm\":", .d (s.motorRpm secondMotor),
    txt ",\"temperature_c\":", .d (s.motorTemperatureC secondMotor),
    txt ",\"voltage_power_stage_mv\":", .d (s.motorVoltagePowerStageMv secondMotor),
    txt ",\"current_power_stage_ma\":", .d (s.motorCurrentPowerStageMa secondMotor),
    txt "\x7d\x7d",
    txt "\x7d"]

/-- The text of the live stream, or the error code of a failed allocation. -/
def telemetryStateToJsonAlloc (mallocOk : Bool) (s : TelemetryState) : Except ℤ CString :=
  if mallocOk = true then .ok (format (telemetryStateToJson s)) else .error (-3)

/-- A value in a database cell. -/
inductive SqlValue where
  /-- The null value. -/
  | null
  /-- A signed 64-bit integer. -/
  | integer (x : BitVec 64)
  /-- A double that is no NaN. -/
  | real (x : Double)
  /-- A text. -/
  | text (s : CString)
  /-- A byte string. -/
  | blob (b : Bytes)

/-- Bind a signed 32-bit integer. -/
def bindInt (x : BitVec 32) : SqlValue := .integer (x.signExtend 64)

/-- Bind a signed 64-bit integer. -/
def bindInt64 (x : BitVec 64) : SqlValue := .integer x

/-- Bind a double; a NaN is stored as null. -/
def bindDouble (x : Double) : SqlValue := if x.isNan = true then .null else .real x

/-- The value that a column keeps. A real column stores a number without a
fraction as an integer and makes a double of it again when it is read, so that
negative zero loses its sign. -/
def SqlValue.stored : SqlValue → SqlValue
  | .real (.finite _ 0 exponent) => .real (.finite false 0 exponent)
  | v => v

/-- Bind a text. -/
def bindText (s : CString) : SqlValue := .text s

/-- The low 32 bits of an integer cell; zero for null. Conversions of cells
of another type are left out, since the columns are typed. -/
def columnInt : SqlValue → BitVec 32
  | .integer x => x.setWidth 32
  | _ => 0

/-- An integer cell; zero for null. -/
def columnInt64 : SqlValue → BitVec 64
  | .integer x => x
  | _ => 0

/-- A real cell; zero for null. -/
def columnDouble : SqlValue → Double
  | .real x => x
  | _ => Double.zero

/-- A text cell; a NULL pointer for null. -/
def columnText : SqlValue → Option CString
  | .text s => some s
  | _ => none

/-- Whether the cell has the null type. -/
def SqlValue.isNull : SqlValue → Bool
  | .null => true
  | _ => false

/-- Columns of the telemetry_state table that the insert fills. -/
inductive Column where
  | receivedAtNs | topic | robotId | seq | msgTimestampNs
  | imuId | accX | accY | accZ | gyroX | gyroY | gyroZ
  | tiltId | tiltX | tiltY | tiltZ | tiltStatus
  | motor1Id | motor1Tics | motor1Rpm | motor1TemperatureC | motor1VoltagePowerStageMv
  | motor1CurrentPowerStageMa
  | motor2Id | motor2Tics | motor2Rpm | motor2TemperatureC | motor2VoltagePowerStageMv
  | motor2CurrentPowerStageMa
  | raw
  deriving DecidableEq

/-- The column list of the insert statement. -/
def insertColumns : List Column :=
  [.receivedAtNs, .topic, .robotId, .seq, .msgTimestampNs,
    .imuId, .accX, .accY, .accZ, .gyroX, .gyroY, .gyroZ,
    .tiltId, .tiltX, .tiltY, .tiltZ, .tiltStatus,
    .motor1Id, .motor1Tics, .motor1Rpm, .motor1TemperatureC, .motor1VoltagePowerStageMv,
    .motor1CurrentPowerStageMa,
    .motor2Id, .motor2Tics, .motor2Rpm, .motor2TemperatureC, .motor2VoltagePowerStageMv,
    .motor2CurrentPowerStageMa,
    .raw]

/-- The parameters of the insert statement, in the order of their binding. -/
def dbWriterInsertBindings (s : TelemetryState) : List SqlValue :=
  [bindInt64 s.receivedAtNs,
    bindText (s.topic.getD CString.empty),
    bindText s.robotId.toCString,
    bindInt s.seq,
    bindInt64 s.msgTimestampNs,
    bindText s.imuId.toCString,
    bindDouble (promoted s.accG.x),
    bindDouble (promoted s.accG.y),
    bindDouble (promoted s.accG.z),
    bindDouble (promoted s.gyroDps.x),
    bindDouble (promoted s.gyroDps.y),
    bindDouble (promoted s.gyroDps.z),
    bindText s.tiltId.toCString,
    bindDouble (promoted s.tiltDeg.x),
    bindDouble (promoted s.tiltDeg.y),
    bindDouble (promoted s.tiltDeg.z),
    bindInt s.tiltStatus,
    bindText (s.motorId firstMotor).toCString,
    bindInt64 ((s.motorTics firstMotor).setWidth 64),
    bindInt (s.motorRpm firstMotor),
    bindInt (s.motorTemperatureC firstMotor),
    bindInt (s.motorVoltagePowerStageMv firstMotor),
    bindInt (s.motorCurrentPowerStageMa firstMotor),
    bindText (s.motorId secondMotor).toCString,
    bindInt64 ((s.motorTics secondMotor).setWidth 64),
    bindInt (s.motorRpm secondMotor),
    bindInt (s.motorTemperatureC secondMotor),
    bindInt (s.motorVoltagePowerStageMv secondMotor),
    bindInt (s.motorCurrentPowerStageMa secondMotor),
    match s.raw with
    | some bytes => if 0 < bytes.length then .blob bytes else .null
    | none => .null]

/-- A stored row: the value of every column. -/
abbrev Row := Column → SqlValue

/-- The row that the insert of a state stores. -/
def insertedRow (s : TelemetryState) : Row :=
  fun c => (((insertColumns.zip (dbWriterInsertBindings s)).lookup c).getD .null).stored

/-- The result columns of the history select. -/
def historyColumns : List Column :=
  [.receivedAtNs, .robotId, .seq, .msgTimestampNs, .imuId,
    .accX, .accY, .accZ, .gyroX, .gyroY, .gyroZ, .tiltId,
    .tiltX, .tiltY, .tiltZ, .tiltStatus,
    .motor1Id, .motor1Tics, .motor1Rpm, .motor1TemperatureC, .motor1VoltagePowerStageMv,
    .motor1CurrentPowerStageMa,
    .motor2Id, .motor2Tics, .motor2Rpm, .motor2TemperatureC, .motor2VoltagePowerStageMv,
    .motor2CurrentPowerStageMa]

/-- One result row of the history select. -/
def selectRow (row : Row) : List SqlValue := historyColumns.map row

/-- A cell of a result row. -/
def cell (st : List SqlValue) (i : ℕ) : SqlValue := st.getD i .null

/-- A text cell, with the empty string for a NULL pointer. -/
def cellText (st : List SqlValue) (i : ℕ) : CString := (columnText (cell st i)).getD CString.empty

/-- The first printf call of the history renderer. -/
def sampleHead (st : List SqlValue) : List Piece :=
  [txt "\x7b\"type\":\"telemetry\",\"t\":", .fixed (tSec (columnInt64 (cell st 0))),
    txt ",\"t_ns\":", .lld (columnInt64 (cell st 0)),
    txt ",\"seq\":", .d (columnInt (cell st 2)),
    txt ",\"msg_ts_ns\":", .lld (columnInt64 (cell st 3)),
    txt ",\"robot_id\":\"", .str (cellText st 1),
    txt "\",\"imu_id\":\"", .str (cellText st 4),
    txt "\",\"tilt_id\":\"", .str (cellText st 11),
    txt "\",\"tilt_status\":", .d (columnInt (cell st 15)),
    txt ",\"accel\":\x7b\"x\":", .fixed (columnDouble (cell st 5)),
    txt ",\"y\":", .fixed (columnDouble (cell st 6)),
    txt ",\"z\":", .fixed (columnDouble (cell st 7)),
    txt "\x7d,\"gyro\":\x7b\"x\":", .fixed (columnDouble (cell st 8)),
    txt ",\"y\":", .fixed (columnDouble (cell st 9)),
    txt ",\"z\":", .fixed (columnDouble (cell st 10)),
    txt "\x7d,\"tilt\":\x7b\"x\":", .fixed (columnDouble (cell st 12)),
    txt ",\"y\":", .fixed (columnDouble (cell st 13)),
    txt ",\"z\":", .fixed (columnDouble (cell st 14)),
    txt "\x7d"]

/-- The second printf call, made only for a row with motors. -/
def sampleMotors (st : List SqlValue) : List Piece :=
  [txt ",\"motors\":\x7b\"motor1\":\x7b\"id\":\"", .str (cellText st 16),
    txt "\",\"tics\":", .lld (columnInt64 (cell st 17)),
    txt ",\"rpm\":", .d (columnInt (cell st 18)),
    txt ",\"temperature_c\":", .d (columnInt (cell st 19)),
    txt ",\"voltage_power_stage_mv\":", .d (columnInt (cell st 20)),
    txt ",\"current_power_stage_ma\":", .d (columnInt (cell st 21)),
    txt "\x7d,\"motor2\":\x7b\"id\":\"", .str (cellText st 22),
    txt "\",\"tics\":", .lld (columnInt64 (cell st 23)),
    txt ",\"rpm\":", .d (columnInt (cell st 24)),
    txt ",\"temperature_c\":", .d (columnInt (cell st 25)),
    txt ",\"voltage_power_stage_mv\":", .d (columnInt (cell st 26)),
    txt ",\"current_power_stage_ma\":", .d (columnInt (cell st 27)),
    txt "\x7d\x7d"]

/-- Whether a row has motors; rows of old databases may have none. -/
def hasMotors (st : List SqlValue) : Bool := !(cell st 16).isNull || !(cell st 22).isNull

/-- Append one result row as a sample object. -/
def appendRowAsSampleJson (sb : StrBuf) (st : List SqlValue) (heap : Heap) : ℤ × StrBuf × Heap :=
  let (rc, sb1, heap1) := sbAppendf sb (sampleHead st) heap
  if rc ≠ 0 then (-1, sb1, heap1)
  else
    let (rc', sb2, heap2) :=
      if hasMotors st = true then sbAppendf sb1 (sampleMotors st) heap1 else (0, sb1, heap1)
    if rc' ≠ 0 then (-2, sb2, heap2)
    else
      let (rc'', sb3, heap3) := sbAppend sb2 ⟨lit "\x7d", by decide⟩ heap2
      if rc'' ≠ 0 then (-3, sb3, heap3) else (0, sb3, heap3)

/-- The pieces that the history renderer prints for a result row. -/
def samplePieces (st : List SqlValue) : List Piece :=
  sampleHead st ++ (if hasMotors st = true then sampleMotors st else []) ++ [txt "\x7d"]

/-- Where no allocation fails, a result row is appended as its pieces. -/
theorem appendRowAsSampleJson_nil {sb : StrBuf} {old : Bytes} (hold : sb.Holds old)
    (st : List SqlValue) :
    ∃ sb', appendRowAsSampleJson sb st [] = (0, sb', []) ∧
      sb'.Holds (old ++ (format (samplePieces st)).bytes) := by
  obtain ⟨sb1, hcall1, hold1⟩ := (sbAppendf_appends hold (sampleHead st) []).of_nil
  obtain ⟨sb2, hcall2, hold2⟩ : ∃ sb2,
      (if hasMotors st = true then sbAppendf sb1 (sampleMotors st) [] else (0, sb1, [])) =
        ((0 : ℤ), sb2, ([] : Heap)) ∧
      sb2.Holds (old ++ (format (sampleHead st)).bytes ++
        (format (if hasMotors st = true then sampleMotors st else [])).bytes) := by
    by_cases hmotors : hasMotors st = true
    · rw [if_pos hmotors, if_pos hmotors]
      exact (sbAppendf_appends hold1 (sampleMotors st) []).of_nil
    · rw [if_neg hmotors, if_neg hmotors]
      exact ⟨sb1, rfl, by simpa [format] using hold1⟩
  obtain ⟨sb3, hcall3, hold3⟩ := (sbAppend_appends hold2 ⟨lit "\x7d", by decide⟩ []).of_nil
  refine ⟨sb3, ?_, ?_⟩
  · simp only [appendRowAsSampleJson, hcall1, hcall2, hcall3, ne_eq, not_true_eq_false, if_false]
  · have hlast : (format [txt "\x7d"]).bytes = lit "\x7d" := by simp [format, txt, Piece.bytes]
    simpa only [samplePieces, format_append, hlast, List.append_assoc] using hold3

end TelemetryPlatform.SampleJson
