import TelemetryPlatform.JsonValues
import TelemetryPlatform.LiveStream
import TelemetryPlatform.UiRequests
import TelemetryPlatform.WellFormedSamples

/-!
# The messages of the server as the interface reads them

The interface parses a text and goes by its type. A text that the server prints
is that of a JSON value whenever its strings need no escapes and its components
are finite, so a live sample, a reply, a status message and an error are taken
for what they are. The identifier of a sample is the one that was printed; its
time is rounded to a double.
-/

namespace TelemetryPlatform.UiMessages

open Binary64 BlockStreams CallStreams ClientDialogue CStrings FormattedJson FormattedText GuardedRuns
open HandshakeOrder HistoryReply HistoryRequests JsonText JsonValues LiveStream PeerFrames
open RecordRelease ReplayEncoding SampleJson TelemetryTypes UiRequests UiSession WellFormedSamples
open WriterThread WsFrames WsServer

/-- The double nearest to an integer, which is an integer. -/
def jsInteger (n : ℤ) : ℤ :=
  let size := ((roundQuotient (decide (n < 0)) n.natAbs 1).nearestScaled 1).getD 0
  if n < 0 then -size else size

/-- The integer that a text stands for; a fraction or an exponent, which these
numbers are never printed with, makes it none. -/
def integerOf (text : Bytes) : Option ℤ :=
  let digits := if text.head? = some 45 then text.tail else text
  if digits.all WsFrames.isDigit = true then
    some (if text.head? = some 45 then -(decimalFrom 0 digits : ℤ) else decimalFrom 0 digits)
  else none

/-- The number that a member is. -/
def numberAt (key : Bytes) (j : Json) : Option ℤ :=
  (((j.member key).bind Json.numberText).bind integerOf).map jsInteger

/-- The type of a message or an item, where it is a string. -/
def typeOf (j : Json) : Option Bytes := (j.member (lit "type")).bind Json.stringValue

/-- A message or an item as a sample. -/
def sampleOf (j : Json) : Sample := ⟨numberAt (lit "seq") j, numberAt (lit "t_ns") j⟩

/-- An item of a history reply. -/
def itemOf (item : Json) : Option Sample :=
  if typeOf item = some (lit "telemetry") then some (sampleOf item) else none

/-- What the interface takes a text for. -/
@[irreducible] def readMessage (text : Bytes) : Message :=
  match parse text with
  | none => .other
  | some msg =>
    match typeOf msg with
    | none => .other
    | some type =>
      if type = lit "status" then .status
      else if type = lit "telemetry" then .telemetry (sampleOf msg)
      else if type = lit "history" then
        .history (((msg.member (lit "items")).bind Json.items).map fun items => items.map itemOf)
      else if type = lit "error" then .error
      else .other

/-- A vector with its components. -/
def vectorTree (x y z : Piece) : Json :=
  .object (.ofList [(lit "x", .number x.bytes), (lit "y", .number y.bytes), (lit "z", .number z.bytes)])

/-- A motor with its readings. -/
def motorTree (id : CString) (tics rpm temperatureC voltageMv currentMa : Piece) : Json :=
  .object (.ofList [(lit "id", .string id.bytes), (lit "tics", .number tics.bytes),
    (lit "rpm", .number rpm.bytes), (lit "temperature_c", .number temperatureC.bytes),
    (lit "voltage_power_stage_mv", .number voltageMv.bytes),
    (lit "current_power_stage_ma", .number currentMa.bytes)])

/-- A sample with its members. -/
def sampleTree (t tNs seq msgTsNs : Piece) (robotId imuId tiltId : CString) (tiltStatus : Piece)
    (accel gyro tilt motor1 motor2 : Json) : Json :=
  .object (.ofList [(lit "type", .string (lit "telemetry")), (lit "t", .number t.bytes),
    (lit "t_ns", .number tNs.bytes), (lit "seq", .number seq.bytes),
    (lit "msg_ts_ns", .number msgTsNs.bytes), (lit "robot_id", .string robotId.bytes),
    (lit "imu_id", .string imuId.bytes), (lit "tilt_id", .string tiltId.bytes),
    (lit "tilt_status", .number tiltStatus.bytes), (lit "accel", accel), (lit "gyro", gyro),
    (lit "tilt", tilt), (lit "motors", .object (.ofList [(lit "motor1", motor1), (lit "motor2", motor2)]))])

/-- The value of a live sample. -/
def liveTree (s : TelemetryState) : Json :=
  sampleTree (.fixed (tSec s.receivedAtNs)) (.lld s.receivedAtNs) (.u s.seq) (.llu s.msgTimestampNs)
    s.robotId.toCString s.imuId.toCString s.tiltId.toCString (.u s.tiltStatus)
    (vectorTree (.fixed (promoted s.accG.x)) (.fixed (promoted s.accG.y)) (.fixed (promoted s.accG.z)))
    (vectorTree (.fixed (promoted s.gyroDps.x)) (.fixed (promoted s.gyroDps.y))
      (.fixed (promoted s.gyroDps.z)))
    (vectorTree (.fixed (promoted s.tiltDeg.x)) (.fixed (promoted s.tiltDeg.y))
      (.fixed (promoted s.tiltDeg.z)))
    (motorTree (s.motorId firstMotor).toCString (.u (s.motorTics firstMotor)) (.d (s.motorRpm firstMotor))
      (.d (s.motorTemperatureC firstMotor)) (.d (s.motorVoltagePowerStageMv firstMotor))
      (.d (s.motorCurrentPowerStageMa firstMotor)))
    (motorTree (s.motorId secondMotor).toCString (.u (s.motorTics secondMotor))
      (.d (s.motorRpm secondMotor)) (.d (s.motorTemperatureC secondMotor))
      (.d (s.motorVoltagePowerStageMv secondMotor)) (.d (s.motorCurrentPowerStageMa secondMotor)))

/-- The value of a result row with motors. -/
def rowTree (st : List SqlValue) : Json :=
  sampleTree (.fixed (tSec (columnInt64 (cell st 0)))) (.lld (columnInt64 (cell st 0)))
    (.d (columnInt (cell st 2))) (.lld (columnInt64 (cell st 3)))
    (cellText st 1) (cellText st 4) (cellText st 11) (.d (columnInt (cell st 15)))
    (vectorTree (.fixed (columnDouble (cell st 5))) (.fixed (columnDouble (cell st 6)))
      (.fixed (columnDouble (cell st 7))))
    (vectorTree (.fixed (columnDouble (cell st 8))) (.fixed (columnDouble (cell st 9)))
      (.fixed (columnDouble (cell st 10))))
    (vectorTree (.fixed (columnDouble (cell st 12))) (.fixed (columnDouble (cell st 13)))
      (.fixed (columnDouble (cell st 14))))
    (motorTree (cellText st 16) (.lld (columnInt64 (cell st 17))) (.d (columnInt (cell st 18)))
      (.d (columnInt (cell st 19))) (.d (columnInt (cell st 20))) (.d (columnInt (cell st 21))))
    (motorTree (cellText st 22) (.lld (columnInt64 (cell st 23))) (.d (columnInt (cell st 24)))
      (.d (columnInt (cell st 25))) (.d (columnInt (cell st 26))) (.d (columnInt (cell st 27))))

/-- The value of a reply. -/
def replyTree (rows : List (List SqlValue)) : Json :=
  .object (.ofList [(lit "type", .string (lit "history")),
    (lit "items", .array (.ofList (rows.map rowTree)))])

set_option maxRecDepth 8000 in
/-- The text of a live sample. -/
theorem text_liveTree (s : TelemetryState) :
    (liveTree s).text [] = (format (telemetryStateToJson s)).bytes := rfl

set_option maxRecDepth 8000 in
/-- The text of a row with motors. -/
theorem text_rowTree {st : List SqlValue} (hmotors : hasMotors st = true) :
    (rowTree st).text [] = itemText st := by
  rw [itemText, samplePieces, if_pos hmotors]
  rfl

/-- The text of more rows. -/
theorem text_rows {rows : List (List SqlValue)} (hmotors : ∀ st ∈ rows, hasMotors st = true)
    (st : List SqlValue) (hfirst : hasMotors st = true) :
    (rowTree st).text ((Items.ofList (rows.map rowTree)).text (lit "\x7d")) =
      commaJoin ((st :: rows).map itemText) ++ lit "]\x7d" := by
  induction rows generalizing st with
  | nil =>
    have happend := text_append (rowTree st) [] (lit "]\x7d")
    rw [text_rowTree hfirst] at happend
    exact happend
  | cons next rows ih =>
    obtain ⟨hnext, hrows⟩ := List.forall_mem_cons.mp hmotors
    have hlater : (Items.ofList ((next :: rows).map rowTree)).text (lit "\x7d") =
        44 :: (rowTree next).text ((Items.ofList (rows.map rowTree)).text (lit "\x7d")) := rfl
    have hjoin : commaJoin ((st :: next :: rows).map itemText) =
        itemText st ++ (44 :: commaJoin ((next :: rows).map itemText)) :=
      List.append_assoc _ (lit ",") _
    rw [hlater, ih hrows next hnext, hjoin, List.append_assoc, List.cons_append,
      ← text_rowTree hfirst]
    exact text_append (rowTree st) [] _

/-- The text of a reply. -/
theorem text_replyTree {rows : List (List SqlValue)} (hmotors : ∀ st ∈ rows, hasMotors st = true) :
    (replyTree rows).text [] = historyText rows := by
  cases rows with
  | nil => rfl
  | cons st rows =>
    obtain ⟨hfirst, hrows⟩ := List.forall_mem_cons.mp hmotors
    rw [historyText, List.append_assoc, ← text_rows hrows st hfirst]
    rfl

/-- A printed number is one, unless it is NaN or infinite. -/
theorem plainNumber_bytes {p : Piece} (hshape : shapeOf p = .number)
    (hfinite : ∀ x, p = .fixed x → x.isFinite = true) : PlainNumber p.bytes := by
  have hdecimal (n : ℕ) : ∃ b rest, decimal n = b :: rest ∧ (b = 45 ∨ JsonText.isDigit b = true) := by
    obtain ⟨b, rest, hcons, hlow, hhigh⟩ := decimal_eq_cons n
    refine ⟨b, rest, hcons, .inr ?_⟩
    rw [JsonText.isDigit, Bool.and_eq_true, decide_eq_true_eq, decide_eq_true_eq]
    exact ⟨hlow, hhigh⟩
  have hsigned (z : ℤ) : ∃ b rest, signedDecimal z = b :: rest ∧
      (b = 45 ∨ JsonText.isDigit b = true) := by
    unfold signedDecimal
    split_ifs
    · exact ⟨45, _, rfl, .inl rfl⟩
    · exact hdecimal _
  cases p with
  | text s => cases hshape
  | str s => cases hshape
  | fixed x =>
    refine ⟨isNumber_fixedSix (hfinite x rfl), ?_⟩
    cases x with
    | nan negative => cases hfinite _ rfl
    | infinite negative => cases hfinite _ rfl
    | finite negative mantissa exponent =>
      simp only [Piece.bytes, fixedSix]
      split_ifs
      · exact ⟨45, _, rfl, .inl rfl⟩
      · obtain ⟨b, rest, hcons, hb⟩ := hdecimal
          (((Double.finite negative mantissa exponent).nearestScaled 1000000).getD 0 / 1000000)
        rw [millionths, hcons]
        exact ⟨b, _, rfl, hb⟩
  | lld x => exact ⟨isNumber_signedDecimal _, hsigned _⟩
  | llu x => exact ⟨isNumber_decimal _, hdecimal _⟩
  | d x => exact ⟨isNumber_signedDecimal _, hsigned _⟩
  | u x => exact ⟨isNumber_decimal _, hdecimal _⟩

/-- A finite double is printed as a number. -/
theorem plainNumber_fixed {x : Double} (h : x.isFinite = true) : PlainNumber (Piece.fixed x).bytes :=
  plainNumber_bytes rfl fun _ heq => by cases heq; exact h

/-- A piece that prints an integer. -/
def isInteger : Piece → Bool
  | .lld _ | .llu _ | .d _ | .u _ => true
  | _ => false

/-- An integer is printed as a number. -/
theorem plainNumber_integer {p : Piece} (h : isInteger p = true) : PlainNumber p.bytes := by
  cases p with
  | text s => cases h
  | str s => cases h
  | fixed x => cases h
  | lld x => exact plainNumber_bytes rfl nofun
  | llu x => exact plainNumber_bytes rfl nofun
  | d x => exact plainNumber_bytes rfl nofun
  | u x => exact plainNumber_bytes rfl nofun

/-- A vector of finite components can be printed. -/
theorem plain_vectorTree {x y z : Double} (hx : x.isFinite = true) (hy : y.isFinite = true)
    (hz : z.isFinite = true) : (vectorTree (.fixed x) (.fixed y) (.fixed z)).Plain := by
  simp only [vectorTree, Json.Plain, Members.ofList, Members.Plain, and_true]
  exact ⟨by decide, plainNumber_fixed hx, by decide, plainNumber_fixed hy, by decide,
    plainNumber_fixed hz⟩

/-- A motor whose identifier needs no escapes can be printed. -/
theorem plain_motorTree {id : CString} (hid : Unescaped id.bytes) {tics rpm temp voltage current : Piece}
    (hnumbers : [tics, rpm, temp, voltage, current].all isInteger = true) :
    (motorTree id tics rpm temp voltage current).Plain := by
  simp only [List.all_cons, Bool.and_eq_true] at hnumbers
  obtain ⟨htics, hrpm, htemp, hvoltage, hcurrent, -⟩ := hnumbers
  simp only [motorTree, Json.Plain, Members.ofList, Members.Plain, and_true]
  exact ⟨by decide, hid, by decide, plainNumber_integer htics, by decide, plainNumber_integer hrpm,
    by decide, plainNumber_integer htemp, by decide, plainNumber_integer hvoltage, by decide,
    plainNumber_integer hcurrent⟩

/-- So can a sample. -/
theorem plain_sampleTree {t tNs seq msgTsNs tiltStatus : Piece} {robotId imuId tiltId : CString}
    {accel gyro tilt motor1 motor2 : Json} (htime : PlainNumber t.bytes)
    (hnumbers : [tNs, seq, msgTsNs, tiltStatus].all isInteger = true)
    (hids : ∀ id ∈ [robotId, imuId, tiltId], Unescaped id.bytes)
    (htrees : ∀ j ∈ [accel, gyro, tilt, motor1, motor2], j.Plain) :
    (sampleTree t tNs seq msgTsNs robotId imuId tiltId tiltStatus accel gyro tilt motor1 motor2).Plain := by
  simp only [List.all_cons, Bool.and_eq_true] at hnumbers
  simp only [List.forall_mem_cons] at hids htrees
  obtain ⟨htNs, hseq, hmsg, hstatus, -⟩ := hnumbers
  obtain ⟨hrobot, himu, htilt, -⟩ := hids
  obtain ⟨haccel, hgyro, htilts, hmotor1, hmotor2, -⟩ := htrees
  simp only [sampleTree, Json.Plain, Members.ofList, Members.Plain, and_true]
  exact ⟨by decide, by decide, by decide, htime, by decide, plainNumber_integer htNs, by decide,
    plainNumber_integer hseq, by decide, plainNumber_integer hmsg, by decide, hrobot, by decide, himu,
    by decide, htilt, by decide, plainNumber_integer hstatus, by decide, haccel, by decide, hgyro,
    by decide, htilts, by decide, by decide, hmotor1, by decide, hmotor2⟩

/-- A live sample can be printed where its identifiers and components can. -/
theorem plain_liveTree {s : TelemetryState} (hids : IdsPrintable s)
    (hcomponents : ComponentsPrintable promoted s) : (liveTree s).Plain := by
  have hid := fun id hid => (hids id hid).1
  simp only [ids, List.forall_mem_cons] at hid
  obtain ⟨hrobot, himu, htilt, hfirst, hsecond, -⟩ := hid
  simp only [ComponentsPrintable, components, List.forall_mem_cons] at hcomponents
  obtain ⟨hax, hay, haz, hgx, hgy, hgz, htx, hty, htz, -⟩ := hcomponents
  refine plain_sampleTree (plainNumber_fixed (isFinite_divNat_ofInt64 _ _)) rfl ?_ ?_
  · simp only [List.forall_mem_cons]
    exact ⟨hrobot, himu, htilt, List.forall_mem_nil _⟩
  · simp only [List.forall_mem_cons]
    exact ⟨plain_vectorTree hax hay haz, plain_vectorTree hgx hgy hgz, plain_vectorTree htx hty htz,
      plain_motorTree hfirst rfl, plain_motorTree hsecond rfl, List.forall_mem_nil _⟩

/-- So can the sample of a stored row. -/
theorem plain_rowTree {s : TelemetryState} (hids : IdsPrintable s)
    (hcomponents : ComponentsPrintable readBack s) : (rowTree (storedRow s)).Plain := by
  have hid := fun id hid => (hids id hid).1
  simp only [ids, List.forall_mem_cons] at hid
  obtain ⟨hrobot, himu, htilt, hfirst, hsecond, -⟩ := hid
  simp only [ComponentsPrintable, components, List.forall_mem_cons] at hcomponents
  obtain ⟨hax, hay, haz, hgx, hgy, hgz, htx, hty, htz, -⟩ := hcomponents
  refine plain_sampleTree (plainNumber_fixed (isFinite_divNat_ofInt64 _ _)) rfl ?_ ?_
  · simp only [List.forall_mem_cons]
    exact ⟨hrobot, himu, htilt, List.forall_mem_nil _⟩
  · simp only [List.forall_mem_cons]
    exact ⟨plain_vectorTree hax hay haz, plain_vectorTree hgx hgy hgz, plain_vectorTree htx hty htz,
      plain_motorTree hfirst rfl, plain_motorTree hsecond rfl, List.forall_mem_nil _⟩

/-- The digits of a number are read as the number. -/
theorem integerOf_decimal (n : ℕ) : integerOf (decimal n) = some (n : ℤ) := by
  obtain ⟨b, rest, hcons, hlow, -⟩ := decimal_eq_cons n
  have hsign : ¬ (decimal n).head? = some 45 := by
    rw [hcons, List.head?_cons, Option.some.injEq]
    rintro rfl
    exact absurd hlow (by decide)
  have hdigits : (decimal n).all WsFrames.isDigit = true := by
    rw [List.all_eq_true]
    intro d hd
    have hrange := mem_decimal hd
    rw [WsFrames.isDigit, Bool.and_eq_true, decide_eq_true_eq, decide_eq_true_eq]
    exact hrange
  rw [integerOf, if_neg hsign, if_pos hdigits, if_neg hsign, decimalFrom_decimal]

/-- So are a sign and digits. -/
theorem integerOf_signedDecimal (z : ℤ) : integerOf (signedDecimal z) = some z := by
  unfold signedDecimal
  split_ifs with hneg
  · have hdigits : (decimal z.natAbs).all WsFrames.isDigit = true := by
      rw [List.all_eq_true]
      intro d hd
      have hrange := mem_decimal hd
      rw [WsFrames.isDigit, Bool.and_eq_true, decide_eq_true_eq, decide_eq_true_eq]
      exact hrange
    rw [integerOf, List.head?_cons, if_pos rfl, List.tail_cons, if_pos hdigits, if_pos rfl,
      decimalFrom_decimal]
    congr 1
    omega
  · rw [integerOf_decimal]
    congr 1
    omega

/-- A small integer is a double. -/
theorem jsInteger_of_small {n : ℤ} (h : n.natAbs < 2 ^ 52) : jsInteger n = n := by
  rcases Nat.eq_zero_or_pos n.natAbs with hzero | hpos
  · obtain rfl : n = 0 := by omega
    decide
  · have hself : nearestEven n.natAbs 1 = n.natAbs := by
      rw [nearestEven_eq_iff one_pos, IsNearestEven]
      omega
    rw [jsInteger, nearestScaled_roundQuotient _ one_pos hpos h, hself, Option.getD_some]
    split_ifs
    · omega
    · omega

/-- The sample that the interface takes a live text for. -/
def liveSample (s : TelemetryState) : Sample :=
  ⟨some (s.seq.toNat : ℤ), some (jsInteger s.receivedAtNs.toInt)⟩

/-- The sample that the interface takes a replayed text for; its identifier is
read with a sign. -/
def replaySample (s : TelemetryState) : Sample :=
  ⟨some s.seq.toInt, some (jsInteger s.receivedAtNs.toInt)⟩

/-- The interface takes a live sample for what it is. -/
theorem readMessage_live {s : TelemetryState} (hids : IdsPrintable s)
    (hcomponents : ComponentsPrintable promoted s) :
    readMessage (format (telemetryStateToJson s)).bytes = .telemetry (liveSample s) := by
  have htype : typeOf (liveTree s) = some (lit "telemetry") := rfl
  have hsample : sampleOf (liveTree s) =
      ⟨(integerOf (decimal s.seq.toNat)).map jsInteger,
        (integerOf (signedDecimal s.receivedAtNs.toInt)).map jsInteger⟩ := rfl
  have hseq : jsInteger s.seq.toNat = s.seq.toNat := jsInteger_of_small (by omega)
  rw [readMessage, ← text_liveTree, parse_text (plain_liveTree hids hcomponents)]
  dsimp only
  rw [htype]
  dsimp only
  rw [if_neg (by decide), if_pos rfl, hsample, integerOf_decimal, integerOf_signedDecimal,
    Option.map_some, Option.map_some, hseq, liveSample]

/-- An item of a reply is taken for the sample of its row. -/
theorem itemOf_rowTree (s : TelemetryState) :
    itemOf (rowTree (storedRow s)) = some (replaySample s) := by
  have htype : typeOf (rowTree (storedRow s)) = some (lit "telemetry") := rfl
  have hsample : sampleOf (rowTree (storedRow s)) =
      ⟨(integerOf (signedDecimal (columnInt (bindInt s.seq)).toInt)).map jsInteger,
        (integerOf (signedDecimal s.receivedAtNs.toInt)).map jsInteger⟩ := rfl
  have hseq : jsInteger s.seq.toInt = s.seq.toInt := by
    refine jsInteger_of_small ?_
    have hlow := BitVec.le_toInt s.seq
    have hhigh := BitVec.toInt_lt (x := s.seq)
    omega
  rw [itemOf, if_pos htype, hsample, integerOf_signedDecimal, integerOf_signedDecimal,
    Option.map_some, Option.map_some, columnInt_bindInt, hseq, replaySample]

/-- A reply is taken for the samples of its rows. -/
theorem readMessage_reply {items : List TelemetryState} (hids : ∀ s ∈ items, IdsPrintable s)
    (hcomponents : ∀ s ∈ items, ComponentsPrintable readBack s) :
    readMessage (historyText (items.map storedRow)) =
      .history (some (items.map fun s => some (replaySample s))) := by
  have hmotors : ∀ st ∈ items.map storedRow, hasMotors st = true := by
    rw [List.forall_mem_map]
    exact fun s _ => hasMotors_storedRow s
  have hrows : (Items.ofList ((items.map storedRow).map rowTree)).Plain := by
    refine plain_ofList ?_
    rw [List.forall_mem_map, List.forall_mem_map]
    exact fun s hs => plain_rowTree (hids s hs) (hcomponents s hs)
  have hplain : (replyTree (items.map storedRow)).Plain := by
    simp only [replyTree, Json.Plain, Members.ofList, Members.Plain, and_true]
    exact ⟨by decide, by decide, by decide, hrows⟩
  have htype : typeOf (replyTree (items.map storedRow)) = some (lit "history") := rfl
  have hitems : ((replyTree (items.map storedRow)).member (lit "items")).bind Json.items =
      some (Items.ofList ((items.map storedRow).map rowTree)).toList := rfl
  have hsamples : ((items.map storedRow).map rowTree).map itemOf =
      items.map fun s => some (replaySample s) := by
    rw [List.map_map, List.map_map]
    exact List.map_congr_left fun s _ => itemOf_rowTree s
  rw [readMessage, ← text_replyTree hmotors, parse_text hplain]
  dsimp only
  rw [htype]
  dsimp only
  rw [if_neg (by decide), if_neg (by decide), if_pos rfl, hitems, Items.toList_ofList,
    Option.map_some, hsamples]

/-- The value of a status message. -/
def statusTree (expTag : CString) : Json :=
  .object (.ofList [(lit "type", .string (lit "status")), (lit "status", .string (lit "online")),
    (lit "exp_tag", .string expTag.bytes)])

set_option maxRecDepth 2000 in
/-- A status message is taken for one where its tag needs no escapes. -/
theorem readMessage_status {expTag : CString} (htag : Unescaped expTag.bytes) :
    readMessage (statusText expTag).bytes = .status := by
  have htext : (statusTree expTag).text [] = (statusText expTag).bytes := rfl
  have hplain : (statusTree expTag).Plain := by
    simp only [statusTree, Json.Plain, Members.ofList, Members.Plain, and_true]
    exact ⟨by decide, by decide, by decide, by decide, by decide, htag⟩
  have htype : typeOf (statusTree expTag) = some (lit "status") := rfl
  rw [readMessage, ← htext, parse_text hplain]
  dsimp only
  rw [htype]
  exact if_pos rfl

/-- The value of an error report. -/
def errorTree (message : Bytes) : Json :=
  .object (.ofList [(lit "type", .string (lit "error")), (lit "message", .string message)])

/-- An error report is taken for one. -/
theorem readMessage_error (message : Bytes) (hmessage : Unescaped message) :
    readMessage ((errorTree message).text []) = .error := by
  have hplain : (errorTree message).Plain := by
    simp only [errorTree, Json.Plain, Members.ofList, Members.Plain, and_true]
    exact ⟨by decide, by decide, by decide, hmessage⟩
  have htype : typeOf (errorTree message) = some (lit "error") := rfl
  rw [readMessage, parse_text hplain]
  dsimp only
  rw [htype]
  dsimp only
  rw [if_neg (by decide), if_neg (by decide), if_neg (by decide), if_pos rfl]

/-- The server reports that there is no database, or that its query failed. -/
theorem text_errorTree :
    (errorTree (lit "db_not_available")).text [] = dbNotAvailable ∧
      (errorTree (lit "history_query_failed")).text [] = historyQueryFailed :=
  ⟨by decide +kernel, by decide +kernel⟩

/-- The live sample in a message. -/
def liveIn : Message → Option Sample
  | .telemetry s => some s
  | _ => none

/-- The samples of a history reply. -/
def replayIn : Message → Option (List Sample)
  | .history (some items) => some (items.filterMap id)
  | _ => none

/-- What the interface takes the frames of a connection for. -/
def messagesIn (frames : List (UInt8 × Bytes)) : List Message :=
  frames.filterMap fun f => if f.1 = 1 then some (readMessage f.2) else none

/-- What it takes a call of the server for. -/
def said (u : WsUnit) : Option Message :=
  if (frameOf u).1 = 1 then some (readMessage (frameOf u).2) else none

/-- The live sample that it takes a call for. -/
def liveSaid (u : WsUnit) : Option Sample := (said u).bind liveIn

/-- The history reply that it takes a call for. -/
def replaySaid (u : WsUnit) : Option (List Sample) := (said u).bind replayIn

/-- The texts of replies with stored samples. -/
def replyTexts (replies : List (Except ℤ (List TelemetryState))) : List (Except ℤ Bytes) :=
  replies.map (Except.map fun items => historyText (items.map storedRow))

/-- The texts that a server hands to one client: live samples, and the replies
of the database to its queries. -/
structure Served (cfg : WsConfig) (k : ℕ) (actions : List Action) (states : List TelemetryState)
    (replies : List (Except ℤ (List TelemetryState))) : Prop where
  /-- The tag needs no escapes. -/
  tag : Unescaped cfg.expTag.toCString.bytes
  /-- The broadcasts are live samples. -/
  live : broadcastsOf actions = states.map fun s => (format (telemetryStateToJson s)).bytes
  /-- They can be printed. -/
  printable : ∀ s ∈ states, IdsPrintable s ∧ ComponentsPrintable promoted s
  /-- The queries return stored rows. -/
  answers : answersOf k actions = replyTexts replies
  /-- They can be printed. -/
  stored : ∀ items, .ok items ∈ replies → ∀ s ∈ items,
    IdsPrintable s ∧ ComponentsPrintable promoted s

/-- What the client thread says to a client is no live sample, and no text that
the interface does not know. -/
def OwnSpeech (u : WsUnit) : Prop := ∀ m, said u = some m → liveIn m = none ∧ m ≠ .other

/-- What is said in reply to a query. -/
def answerTo : Except ℤ (List TelemetryState) → Message
  | .error _ => .error
  | .ok items => .history (some (items.map fun s => some (replaySample s)))

/-- The samples of the queries that succeeded. -/
def replayed (replies : List (Except ℤ (List TelemetryState))) : List (List Sample) :=
  (replies.filterMap Except.toOption).map fun items => items.map replaySample

/-- The reply to a query is understood. -/
theorem said_replyTo (answer : Except ℤ (List TelemetryState))
    (hstored : ∀ items, answer = .ok items → ∀ s ∈ items,
      IdsPrintable s ∧ ComponentsPrintable promoted s) :
    said (replyTo (answer.map fun items => historyText (items.map storedRow))) =
      some (answerTo answer) := by
  cases answer with
  | error code =>
    have herror := readMessage_error (lit "history_query_failed") (by decide)
    rw [text_errorTree.2] at herror
    exact congrArg some herror
  | ok items =>
    have hreply := readMessage_reply (fun s hs => (hstored items rfl s hs).1)
      fun s hs x hx => isFinite_readBack ((hstored items rfl s hs).2 x hx)
    exact congrArg some hreply

/-- The reply to another frame is no message, or an error. -/
theorem said_reaction {hasDb : Bool} {f : UInt8 × Bytes} {u : WsUnit}
    (h : reaction hasDb f = .reply u) : said u = none ∨ said u = some .error := by
  unfold reaction at h
  split_ifs at h
  · cases h
    exact .inl rfl
  · cases h
    have herror := readMessage_error (lit "db_not_available") (by decide)
    rw [text_errorTree.1] at herror
    exact .inr (congrArg some herror)

section Replies

variable {replies : List (Except ℤ (List TelemetryState))}

/-- What is said in reply to frames is no live sample. -/
theorem ownSpeech_repliesTo {hasDb : Bool} (frames : List (UInt8 × Bytes))
    (hstored : ∀ items, .ok items ∈ replies → ∀ s ∈ items,
      IdsPrintable s ∧ ComponentsPrintable promoted s) :
    ∀ u ∈ repliesTo hasDb frames (replyTexts replies), OwnSpeech u := by
  induction frames generalizing replies with
  | nil => exact fun u hu => absurd hu List.not_mem_nil
  | cons f frames ih =>
    cases hf : reaction hasDb f with
    | ignore =>
      simp only [repliesTo, hf]
      exact ih hstored
    | reply u =>
      simp only [repliesTo, hf, List.forall_mem_cons]
      refine ⟨fun m hm => ?_, ih hstored⟩
      rcases said_reaction hf with hnone | herror
      · rw [hnone] at hm
        cases hm
      · rw [herror] at hm
        cases hm
        exact ⟨rfl, fun hother => by cases hother⟩
    | close =>
      simp only [repliesTo, hf, List.forall_mem_cons]
      refine ⟨fun m hm => ?_, ih hstored⟩
      cases hm
    | query last =>
      cases replies with
      | nil =>
        simp only [repliesTo, hf, replyTexts, List.map_nil]
        exact fun u hu => absurd hu List.not_mem_nil
      | cons answer replies =>
        have hsaid := said_replyTo answer fun items heq =>
          hstored items (heq ▸ List.mem_cons_self)
        have hrest := ih fun items hitems => hstored items (List.mem_cons_of_mem _ hitems)
        simp only [repliesTo, hf, replyTexts, List.map_cons, List.forall_mem_cons]
        refine ⟨fun m hm => ?_, hrest⟩
        rw [hsaid] at hm
        cases hm
        cases answer with
        | error code => exact ⟨rfl, fun hother => by cases hother⟩
        | ok items => exact ⟨rfl, fun hother => by cases hother⟩

/-- Of the samples that queries return, those are said that their frames ask for. -/
theorem replaySaid_repliesTo {hasDb : Bool} (frames : List (UInt8 × Bytes))
    (hstored : ∀ items, .ok items ∈ replies → ∀ s ∈ items,
      IdsPrintable s ∧ ComponentsPrintable promoted s) :
    ((repliesTo hasDb frames (replyTexts replies)).filterMap replaySaid).Sublist
      (replayed replies) := by
  induction frames generalizing replies with
  | nil => exact List.nil_sublist _
  | cons f frames ih =>
    cases hf : reaction hasDb f with
    | ignore =>
      simp only [repliesTo, hf]
      exact ih hstored
    | reply u =>
      have hnone : replaySaid u = none := by
        rcases said_reaction hf with hnone | herror
        · rw [replaySaid, hnone]
          rfl
        · rw [replaySaid, herror]
          rfl
      simp only [repliesTo, hf]
      rw [List.filterMap_cons_none hnone]
      exact ih hstored
    | close =>
      simp only [repliesTo, hf]
      rw [List.filterMap_cons_none rfl]
      exact ih hstored
    | query last =>
      cases replies with
      | nil =>
        simp only [repliesTo, hf, replyTexts, List.map_nil]
        exact List.nil_sublist _
      | cons answer replies =>
        have hsaid := said_replyTo answer fun items heq =>
          hstored items (heq ▸ List.mem_cons_self)
        have hrest := ih fun items hitems => hstored items (List.mem_cons_of_mem _ hitems)
        simp only [repliesTo, hf, replyTexts, List.map_cons]
        cases answer with
        | error code =>
          rw [List.filterMap_cons_none (by rw [replaySaid, hsaid]; rfl)]
          exact hrest
        | ok items =>
          have hsamples : (items.map fun s => some (replaySample s)).filterMap id =
              items.map replaySample := by
            rw [List.filterMap_map]
            exact congrFun (List.filterMap_eq_map (f := replaySample)) items
          have hreplay : replaySaid (replyTo ((Except.ok items : Except ℤ _).map fun items =>
              historyText (items.map storedRow))) = some (items.map replaySample) := by
            rw [replaySaid, hsaid, ← hsamples]
            rfl
          rw [List.filterMap_cons_some hreplay]
          exact hrest.cons_cons _

end Replies

variable {cfg : WsConfig} {s : Server} {k : ℕ} {actions : List Action}
variable {states : List TelemetryState} {replies : List (Except ℤ (List TelemetryState))}

/-- A live text is said as its sample. -/
theorem said_live {state : TelemetryState} (hids : IdsPrintable state)
    (hcomponents : ComponentsPrintable promoted state) :
    said (.text (format (telemetryStateToJson state)).bytes) = some (.telemetry (liveSample state)) :=
  congrArg some (readMessage_live hids hcomponents)

/-- A status message is said as one. -/
theorem Served.said_status (h : Served cfg k actions states replies) :
    said (.text (statusText cfg.expTag.toCString).bytes) = some .status :=
  congrArg some (readMessage_status h.tag)

/-- What the thread of a client says to it is no live sample. -/
theorem Served.ownSpeech (h : Served cfg k actions states replies) {u : WsUnit}
    (hu : u ∈ WsUnit.text (statusText cfg.expTag.toCString).bytes ::
      repliesTo cfg.hasDb (framesOf k actions) (answersOf k actions)) : OwnSpeech u := by
  rcases List.mem_cons.mp hu with rfl | hreply
  · intro m hm
    rw [h.said_status] at hm
    cases hm
    exact ⟨rfl, nofun⟩
  · rw [h.answers] at hreply
    exact ownSpeech_repliesTo _ h.stored u hreply

/-- What is broadcast is a live sample. -/
theorem Served.said_broadcast (h : Served cfg k actions states replies) {u : WsUnit}
    (hu : u ∈ (broadcastsOf actions).map WsUnit.text) :
    ∃ state ∈ states, said u = some (.telemetry (liveSample state)) := by
  rw [h.live, List.map_map] at hu
  obtain ⟨state, hstate, rfl⟩ := List.mem_map.mp hu
  obtain ⟨hids, hcomponents⟩ := h.printable state hstate
  exact ⟨state, hstate, said_live hids hcomponents⟩

/-- What one caller says, where the other says nothing of the kind. -/
theorem filterMap_unitsOf {β : Type*} (g : WsUnit → Option β) {caller : Caller} {seen : List Call}
    (hclient : ∀ call ∈ seen, call.client = k)
    (hother : ∀ call ∈ seen, call.caller ≠ caller → g call.unit = none) :
    (unitsOf caller k seen).filterMap g = seen.filterMap fun call => g call.unit := by
  rw [unitsOf, List.filterMap_filterMap]
  refine List.filterMap_congr fun call hcall => ?_
  by_cases hcaller : call.caller = caller
  · rw [if_pos ⟨hcaller, hclient call hcall⟩]
    rfl
  · rw [if_neg fun hboth => hcaller hboth.1, hother call hcall hcaller]
    rfl

/-- The messages that are read are what the calls say. -/
theorem messagesIn_seen (seen : List Call) :
    messagesIn (seen.map fun call => frameOf call.unit) = seen.filterMap fun call => said call.unit := by
  rw [messagesIn, List.filterMap_map]
  rfl

/-- The calls that a client reads, by who made them. -/
structure Seen (cfg : WsConfig) (k : ℕ) (actions : List Action) (seen : List Call) : Prop where
  /-- They are for this client. -/
  client : ∀ call ∈ seen, call.client = k
  /-- Its thread has sent the status message and replies. -/
  told : (unitsOf .thread k seen).Sublist (.text (statusText cfg.expTag.toCString).bytes ::
    repliesTo cfg.hasDb (framesOf k actions) (answersOf k actions))
  /-- The others are broadcasts. -/
  cast : (unitsOf .broadcast k seen).Sublist ((broadcastsOf actions).map WsUnit.text)

variable {seen : List Call}

/-- A client whose handshake is complete reads such calls. -/
theorem reads_of_run (hrun : Run (serverStep cfg) InOrder Server.init actions s)
    (hshaken : (s.client k).handshaken = true) (hsize : ∀ call ∈ s.calls, Sized call.unit) :
    ∃ (accept : CString) (stream : Bytes) (seen : List Call),
      contents (s.stream k) = (handshakeResponse accept).bytes ++ stream ∧
      messagesIn (peerFrames stream) = seen.filterMap (fun call => said call.unit) ∧
      Seen cfg k actions seen := by
  obtain ⟨accept, stream, seen, hcontents, hframes, hseen, hunits, -⟩ :=
    seen_of_run hrun hshaken hsize
  refine ⟨accept, stream, seen, hcontents, by rw [hframes, messagesIn_seen],
    fun call hcall => (hseen call hcall).1, ?_, (hunits .broadcast).trans (castInOrder_of_run hrun k)⟩
  exact told_of_run hrun (hunits .thread) fun call hcall => (hseen call hcall).2

/-- A call that is read is said as what its caller says. -/
theorem Served.said_seen (h : Served cfg k actions states replies) (hseen : Seen cfg k actions seen)
    {call : Call} (hcall : call ∈ seen) :
    (call.caller = .thread ∧ OwnSpeech call.unit) ∨
      (call.caller = .broadcast ∧
        ∃ state ∈ states, said call.unit = some (.telemetry (liveSample state))) := by
  have hmem : call.unit ∈ unitsOf call.caller k seen :=
    List.mem_filterMap.mpr ⟨call, hcall, if_pos ⟨rfl, hseen.client call hcall⟩⟩
  cases hcaller : call.caller with
  | thread =>
    rw [hcaller] at hmem
    exact .inl ⟨rfl, h.ownSpeech (hseen.told.subset hmem)⟩
  | broadcast =>
    rw [hcaller] at hmem
    exact .inr ⟨rfl, h.said_broadcast (hseen.cast.subset hmem)⟩

/-- Every message is known. -/
theorem Served.known (h : Served cfg k actions states replies) (hseen : Seen cfg k actions seen) :
    ∀ m ∈ seen.filterMap (fun call => said call.unit), m ≠ .other := by
  intro m hm
  obtain ⟨call, hcall, hmessage⟩ := List.mem_filterMap.mp hm
  rcases h.said_seen hseen hcall with ⟨-, hown⟩ | ⟨-, state, -, hlive⟩
  · exact (hown m hmessage).2
  · rw [hlive] at hmessage
    cases hmessage
    nofun

/-- The live samples are those of the broadcasts. -/
theorem Served.live_seen (h : Served cfg k actions states replies) (hseen : Seen cfg k actions seen) :
    ((seen.filterMap fun call => said call.unit).filterMap liveIn).Sublist
      (states.map liveSample) := by
  have hall : ((broadcastsOf actions).map WsUnit.text).filterMap liveSaid =
      states.map liveSample := by
    rw [h.live, List.map_map, List.filterMap_map, ← List.filterMap_eq_map]
    refine List.filterMap_congr fun state hstate => ?_
    obtain ⟨hids, hcomponents⟩ := h.printable state hstate
    exact congrArg (fun m => m.bind liveIn) (said_live hids hcomponents)
  have hlive : (unitsOf .broadcast k seen).filterMap liveSaid =
      seen.filterMap fun call => liveSaid call.unit := by
    refine filterMap_unitsOf liveSaid hseen.client fun call hcall hother => ?_
    rcases h.said_seen hseen hcall with ⟨-, hown⟩ | ⟨hcaller, -⟩
    · cases hmessage : said call.unit with
      | none =>
        rw [liveSaid, hmessage]
        rfl
      | some m =>
        rw [liveSaid, hmessage]
        exact (hown m hmessage).1
    · exact absurd hcaller hother
  rw [List.filterMap_filterMap, ← hall]
  exact hlive ▸ hseen.cast.filterMap liveSaid

/-- The history replies are those of the queries. -/
theorem Served.replay_seen (h : Served cfg k actions states replies)
    (hseen : Seen cfg k actions seen) :
    ((seen.filterMap fun call => said call.unit).filterMap replayIn).Sublist (replayed replies) := by
  have hreplay : (unitsOf .thread k seen).filterMap replaySaid =
      seen.filterMap fun call => replaySaid call.unit := by
    refine filterMap_unitsOf replaySaid hseen.client fun call hcall hother => ?_
    rcases h.said_seen hseen hcall with ⟨hcaller, -⟩ | ⟨-, state, -, hlive⟩
    · exact absurd hcaller hother
    · rw [replaySaid, hlive]
      rfl
  have hstatus : replaySaid (.text (statusText cfg.expTag.toCString).bytes) = none := by
    rw [replaySaid, h.said_status]
    rfl
  have hsub := hseen.told.filterMap replaySaid
  rw [List.filterMap_cons_none hstatus, h.answers] at hsub
  rw [List.filterMap_filterMap]
  exact (hreplay ▸ hsub).trans (replaySaid_repliesTo (framesOf k actions) h.stored)

/-- In every run in which no broadcast overtakes a handshake, no message starts
inside another one and every send reaches the connection of its own client,
where the server broadcasts live samples and its queries return stored ones that
can be printed: the interface knows every message that it reads on a connection
whose handshake is complete. Its live samples are samples that were broadcast,
in that order and each at most once, with the identifiers that they were
broadcast with and their reception times as doubles; its history replies are
replies to its queries, in that order, with the samples that were stored. -/
theorem messages_understood (hrun : Run (serverStep cfg) InOrder Server.init actions s)
    (hshaken : (s.client k).handshaken = true) (hsize : ∀ call ∈ s.calls, Sized call.unit)
    (hserved : Served cfg k actions states replies) :
    ∃ (accept : CString) (stream : Bytes),
      contents (s.stream k) = (handshakeResponse accept).bytes ++ stream ∧
      (∀ m ∈ messagesIn (peerFrames stream), m ≠ .other) ∧
      ((messagesIn (peerFrames stream)).filterMap liveIn).Sublist (states.map liveSample) ∧
      ((messagesIn (peerFrames stream)).filterMap replayIn).Sublist (replayed replies) := by
  obtain ⟨accept, stream, seen, hcontents, hmessages, hseen⟩ := reads_of_run hrun hshaken hsize
  refine ⟨accept, stream, hcontents, ?_⟩
  rw [hmessages]
  exact ⟨hserved.known hseen, hserved.live_seen hseen, hserved.replay_seen hseen⟩

/-- The text of a live sample. -/
def blankText : Bytes := (format (telemetryStateToJson blankState)).bytes

/-- The reply with one stored sample. -/
def blankReply : Bytes := historyText [storedRow blankState]

/-- A client is greeted, reads a live sample, and asks for the stored one. -/
def showAndAsk : List Action :=
  [.client 0 .proceed, .client 0 (.wrote 2), .client 0 (.wrote 55), .client 0 .proceed,
    .broadcast blankText 0 0, .caster .proceed, .caster (.wrote 4), .caster (.wrote blankText.length),
    .client 0 (.frame (some (1, requestText 1))), .client 0 (.answered (.ok blankReply)),
    .client 0 (.wrote 4), .client 0 (.wrote blankReply.length)]

/-- A live sample and a stored one. -/
theorem messages_understood_showAndAsk :
    ∃ s, Run (serverStep plainConfig) InOrder Server.init (acceptOne ++ shakeHands ++ showAndAsk) s ∧
      ∃ (accept : CString) (stream : Bytes),
        contents (s.stream 0) = (handshakeResponse accept).bytes ++ stream ∧
        ((messagesIn (peerFrames stream)).filterMap liveIn).Sublist [liveSample blankState] ∧
        ((messagesIn (peerFrames stream)).filterMap replayIn).Sublist [[replaySample blankState]] := by
  have hexec : (exec (serverStep plainConfig) InOrder Server.init
      (acceptOne ++ shakeHands ++ showAndAsk)).map (fun s => ((s.client 0).handshaken,
        s.calls.all fun call => decide (Sized call.unit))) = some (true, true) := by
    decide +kernel
  obtain ⟨s, hs, hfacts⟩ := Option.map_eq_some_iff.mp hexec
  obtain ⟨hshaken, hsized⟩ := Prod.mk.inj hfacts
  have hblank : IdsPrintable blankState ∧ ComponentsPrintable promoted blankState :=
    (printable_iff _ 0 [] false).mpr ⟨nofun, nofun, nofun, nofun, nofun, nofun, nofun, nofun⟩
  have hserved : Served plainConfig 0 (acceptOne ++ shakeHands ++ showAndAsk) [blankState]
      [.ok [blankState]] := by
    refine ⟨by decide, rfl, fun s hs => ?_, rfl, fun items hitems s hs => ?_⟩
    · rw [List.mem_singleton.mp hs]
      exact hblank
    · cases List.mem_singleton.mp hitems
      rw [List.mem_singleton.mp hs]
      exact hblank
  obtain ⟨accept, stream, hcontents, -, hlive, hreplay⟩ := messages_understood (run_of_exec hs)
    hshaken (fun call hcall => of_decide_eq_true (List.all_eq_true.mp hsized call hcall)) hserved
  exact ⟨s, run_of_exec hs, accept, stream, hcontents, hlive, hreplay⟩

end TelemetryPlatform.UiMessages
