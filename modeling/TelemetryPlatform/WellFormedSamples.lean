import TelemetryPlatform.FormattedJson
import TelemetryPlatform.HistoryReply
import TelemetryPlatform.ReplayEncoding

/-!
# Which samples are JSON

Identifiers are cut to their buffers as bytes and printed between quotes as
they are, and components are printed as C prints a double. So a sample is JSON
with its identifiers as members, live and replayed, exactly when the cut
identifiers are UTF-8 without bytes that need an escape and all components are
finite. A reply is one text, and a single row that is none of this spoils it.
-/

namespace TelemetryPlatform.WellFormedSamples

open CStrings Binary64 FormattedText StringBuilder TelemetryTypes SampleJson JsonText Utf8Text
open FormattedJson WriterThread HistoryReply ReplayEncoding

/-- The format string of a sample. -/
def sampleShapes : List Shape := (telemetryStateToJson blankState).map shapeOf

/-- The string members of a sample. -/
def sampleSlots : List Slot :=
  [([lit "type"], some (lit "telemetry")), ([lit "robot_id"], none), ([lit "imu_id"], none),
    ([lit "tilt_id"], none), ([lit "id", lit "motor1", lit "motors"], none),
    ([lit "id", lit "motor2", lit "motors"], none)]

/-- The identifiers of a state. -/
def ids (s : TelemetryState) : List Bytes :=
  [s.robotId.bytes, s.imuId.bytes, s.tiltId.bytes, (s.motorId firstMotor).bytes,
    (s.motorId secondMotor).bytes]

/-- The components of a state. -/
def components (s : TelemetryState) : List Binary32 :=
  [s.accG.x, s.accG.y, s.accG.z, s.gyroDps.x, s.gyroDps.y, s.gyroDps.z, s.tiltDeg.x, s.tiltDeg.y,
    s.tiltDeg.z]

/-- The members that a sample of a state is to have. -/
def sampleMembers (s : TelemetryState) : List Member :=
  [([lit "type"], lit "telemetry"), ([lit "robot_id"], s.robotId.bytes),
    ([lit "imu_id"], s.imuId.bytes), ([lit "tilt_id"], s.tiltId.bytes),
    ([lit "id", lit "motor1", lit "motors"], (s.motorId firstMotor).bytes),
    ([lit "id", lit "motor2", lit "motors"], (s.motorId secondMotor).bytes)]

/-- A text is a well-formed sample of a state. -/
def IsSampleText (s : TelemetryState) (text : Bytes) : Prop :=
  IsJson text (sampleMembers s) ∧ ValidUtf8 text

/-- What is open around the items of a reply. -/
def aroundItems : List Frame := [.array, .object (lit "items")]

/-- The members that a reply with the samples of some states is to have. -/
def replyMembers (items : List TelemetryState) : List Member :=
  ([lit "type"], lit "history") ::
    items.flatMap fun s => (sampleMembers s).map (Member.under aroundItems)

/-- A text is a well-formed reply with the samples of some states. -/
def IsReplyText (items : List TelemetryState) (text : Bytes) : Prop :=
  IsJson text (replyMembers items) ∧ ValidUtf8 text

/-- The row that is stored for a state and read back. -/
def storedRow (s : TelemetryState) : List SqlValue := selectRow (insertedRow s)

/-- A component that is read back. -/
def readBack (x : Binary32) : Double := columnDouble (bindDouble (promoted x)).stored

/-- The format string fits the grammar. -/
theorem fits_sampleShapes : fits .start sampleShapes = some (⟨[], .after⟩, sampleSlots) := by
  decide +kernel

/-- The live stream prints by this format string. -/
theorem shapes_live (s : TelemetryState) :
    (telemetryStateToJson s).map shapeOf = sampleShapes := by
  simp only [telemetryStateToJson, sampleShapes, List.map_cons, shapeOf]

/-- A stored row has motors. -/
theorem hasMotors_storedRow (s : TelemetryState) : hasMotors (storedRow s) = true := rfl

/-- The replay prints by the same format string in two calls. -/
theorem shapes_replay (s : TelemetryState) :
    (samplePieces (storedRow s)).map shapeOf = sampleShapes := by
  have hhead : ∀ st, (sampleHead st).map shapeOf = (sampleHead []).map shapeOf := by
    intro st
    simp only [sampleHead, List.map_cons, shapeOf]
  have hmotors : ∀ st, (sampleMotors st).map shapeOf = (sampleMotors []).map shapeOf := by
    intro st
    simp only [sampleMotors, List.map_cons, shapeOf]
  rw [samplePieces, if_pos (hasMotors_storedRow s), List.map_append, List.map_append, hhead,
    hmotors]
  decide +kernel

/-- The identifiers fill the slots. -/
theorem fill_sampleSlots (s : TelemetryState) : fill sampleSlots (ids s) = sampleMembers s := rfl

/-- The arguments of the live stream. -/
theorem arguments_live (s : TelemetryState) :
    strings (telemetryStateToJson s) = ids s ∧
      doubles (telemetryStateToJson s) = tSec s.receivedAtNs :: (components s).map promoted :=
  ⟨rfl, rfl⟩

/-- The arguments of the replay. -/
theorem arguments_replay (s : TelemetryState) :
    strings (samplePieces (storedRow s)) = ids s ∧
      doubles (samplePieces (storedRow s)) =
        tSec s.receivedAtNs :: (components s).map readBack :=
  ⟨rfl, rfl⟩

/-- The identifiers of a state can be printed as they are. -/
def IdsPrintable (s : TelemetryState) : Prop := ∀ id ∈ ids s, Unescaped id ∧ ValidUtf8 id

/-- The components of a state are printed as numbers after a conversion. -/
def ComponentsPrintable (convert : Binary32 → Double) (s : TelemetryState) : Prop :=
  ∀ x ∈ components s, (convert x).isFinite = true

section Sample

variable {pieces : List Piece} {s : TelemetryState} {convert : Binary32 → Double}

/-- A sample inside other text is read with its members exactly when its
identifiers and components can be printed. -/
theorem readFrom_sample_iff (hshapes : pieces.map shapeOf = sampleShapes)
    (harguments : strings pieces = ids s ∧
      doubles pieces = tSec s.receivedAtNs :: (components s).map convert)
    (stack : List Frame) (rest : Bytes) (more : List Member) :
    readFrom ⟨stack, .value⟩ (textOf pieces ++ rest) =
        some ((sampleMembers s).map (Member.under stack) ++ more) ↔
      (∀ id ∈ ids s, Unescaped id) ∧ ComponentsPrintable convert s ∧
        readFrom ⟨stack, .after⟩ rest = some more := by
  have hfits := fits_sampleShapes
  rw [← hshapes] at hfits
  have hread := readFrom_textOf_iff hfits stack rest more
  have htime : (tSec s.receivedAtNs).isFinite = true := isFinite_divNat_ofInt64 _ _
  rw [harguments.1, harguments.2, fill_sampleSlots, List.forall_mem_cons, List.forall_mem_map,
    and_iff_right htime] at hread
  exact hread

/-- It is UTF-8 exactly when its identifiers and the rest are. -/
theorem validUtf8_sample_iff (hshapes : pieces.map shapeOf = sampleShapes)
    (hstrings : strings pieces = ids s) (rest : Bytes) :
    ValidUtf8 (textOf pieces ++ rest) ↔ (∀ id ∈ ids s, ValidUtf8 id) ∧ ValidUtf8 rest := by
  have hfits := fits_sampleShapes
  rw [← hshapes] at hfits
  rw [validUtf8_textOf_iff hfits, hstrings]

/-- A text of its own is a well-formed sample under these conditions. -/
theorem isSampleText_iff (hshapes : pieces.map shapeOf = sampleShapes)
    (harguments : strings pieces = ids s ∧
      doubles pieces = tSec s.receivedAtNs :: (components s).map convert) :
    IsSampleText s (textOf pieces) ↔ IdsPrintable s ∧ ComponentsPrintable convert s := by
  have hread := readFrom_sample_iff hshapes harguments [] [] []
  have hutf := validUtf8_sample_iff hshapes harguments.1 []
  rw [List.append_nil, List.append_nil, map_under_nil] at hread
  rw [List.append_nil] at hutf
  have hend : readFrom ⟨[], .after⟩ [] = some [] := rfl
  rw [IsSampleText, IsJson, Control.start, hread, hutf, and_iff_left hend, and_iff_left validUtf8_nil]
  unfold IdsPrintable
  constructor
  · rintro ⟨⟨hplain, hfinite⟩, hids⟩
    exact ⟨fun id hid => ⟨hplain id hid, hids id hid⟩, hfinite⟩
  · rintro ⟨hids, hfinite⟩
    exact ⟨⟨fun id hid => (hids id hid).1, hfinite⟩, fun id hid => (hids id hid).2⟩

end Sample

/-- The live sample. -/
theorem isSampleText_live_iff (s : TelemetryState) :
    IsSampleText s (format (telemetryStateToJson s)).bytes ↔
      IdsPrintable s ∧ ComponentsPrintable promoted s :=
  isSampleText_iff (shapes_live s) (arguments_live s)

/-- The replayed sample. -/
theorem isSampleText_replay_iff (s : TelemetryState) :
    IsSampleText s (replayText s) ↔ IdsPrintable s ∧ ComponentsPrintable readBack s := by
  rw [replayText_eq]
  exact isSampleText_iff (shapes_replay s) (arguments_replay s)

/-- Two items have a comma between them. -/
theorem commaJoin_cons_cons (s next : TelemetryState) (items : List TelemetryState) :
    commaJoin ((s :: next :: items).map fun r => itemText (storedRow r)) =
      itemText (storedRow s) ++
        44 :: commaJoin ((next :: items).map fun r => itemText (storedRow r)) := by
  change itemText (storedRow s) ++ lit "," ++ _ = _
  rw [List.append_assoc]
  rfl

/-- The items of a reply up to its end. -/
theorem readFrom_items_iff (s : TelemetryState) (items : List TelemetryState) :
    readFrom ⟨aroundItems, .value⟩
        (commaJoin ((s :: items).map fun r => itemText (storedRow r)) ++ lit "]\x7d") =
        some ((s :: items).flatMap fun r => (sampleMembers r).map (Member.under aroundItems)) ↔
      ∀ r ∈ s :: items, (∀ id ∈ ids r, Unescaped id) ∧ ComponentsPrintable readBack r := by
  induction items generalizing s with
  | nil =>
    have hread := readFrom_sample_iff (shapes_replay s) (arguments_replay s) aroundItems
      (lit "]\x7d") []
    have hend : readFrom ⟨aroundItems, .after⟩ (lit "]\x7d") = some [] := by decide
    rw [and_iff_left hend, List.append_nil] at hread
    rw [List.forall_mem_singleton, List.flatMap_singleton]
    exact hread
  | cons next items ih =>
    have hread := readFrom_sample_iff (shapes_replay s) (arguments_replay s) aroundItems
      (44 :: (commaJoin ((next :: items).map fun r => itemText (storedRow r)) ++ lit "]\x7d"))
      ((next :: items).flatMap fun r => (sampleMembers r).map (Member.under aroundItems))
    have hcomma : step ⟨aroundItems, .after⟩ 44 = some (⟨aroundItems, .value⟩, []) := by decide
    rw [readFrom_cons hcomma, ih, ← and_assoc] at hread
    rw [List.forall_mem_cons, List.flatMap_cons, commaJoin_cons_cons,
      List.append_assoc]
    exact hread

/-- The items are UTF-8 exactly when their identifiers are. -/
theorem validUtf8_items_iff (items : List TelemetryState) (rest : Bytes) :
    ValidUtf8 (commaJoin (items.map fun r => itemText (storedRow r)) ++ rest) ↔
      (∀ r ∈ items, ∀ id ∈ ids r, ValidUtf8 id) ∧ ValidUtf8 rest := by
  induction items with
  | nil => simp [commaJoin]
  | cons s items ih =>
    have hitem := fun later => validUtf8_sample_iff (shapes_replay s) (arguments_replay s).1 later
    cases items with
    | nil =>
      rw [List.forall_mem_singleton]
      exact hitem rest
    | cons next items =>
      rw [commaJoin_cons_cons, List.append_assoc, List.forall_mem_cons, and_assoc, ← ih]
      exact (hitem _).trans (and_congr_right fun _ => validUtf8_cons (by decide) _)

/-- The items start with an object. -/
theorem commaJoin_eq_cons (s : TelemetryState) (items : List TelemetryState) :
    ∃ rest, commaJoin ((s :: items).map fun r => itemText (storedRow r)) = 123 :: rest := by
  obtain ⟨rest, hrest⟩ : ∃ rest, itemText (storedRow s) = 123 :: rest := ⟨_, rfl⟩
  cases items with
  | nil => exact ⟨rest, hrest⟩
  | cons next items =>
    rw [commaJoin_cons_cons, hrest]
    exact ⟨_, rfl⟩

/-- The items of a reply are read from the start of the array. -/
theorem readFrom_reply_iff (items : List TelemetryState) :
    IsJson (historyText (items.map storedRow)) (replyMembers items) ↔
      ∀ r ∈ items, (∀ id ∈ ids r, Unescaped id) ∧ ComponentsPrintable readBack r := by
  have hstart : run .start (lit "\x7b\"type\":\"history\",\"items\":[") =
      some (⟨aroundItems, .valueOrClose⟩, [([lit "type"], lit "history")]) := by
    decide +kernel
  rw [IsJson, historyText, List.map_map, List.append_assoc]
  refine (readFrom_append_iff hstart _ _).trans ?_
  cases items with
  | nil => exact iff_of_true (by decide) nofun
  | cons s items =>
    obtain ⟨rest, hrest⟩ := commaJoin_eq_cons s items
    have hfirst : ∀ later, readFrom ⟨aroundItems, .valueOrClose⟩ (123 :: later) =
        readFrom ⟨aroundItems, .value⟩ (123 :: later) := by
      intro later
      have hopen : step ⟨aroundItems, .valueOrClose⟩ 123 =
          some (⟨.object [] :: aroundItems, .keyOrClose⟩, []) := by decide
      have hvalue : step ⟨aroundItems, .value⟩ 123 =
          some (⟨.object [] :: aroundItems, .keyOrClose⟩, []) := by decide
      rw [readFrom_cons hopen, readFrom_cons hvalue]
    have hitems := readFrom_items_iff s items
    rw [hrest, List.cons_append, ← hfirst, ← List.cons_append, ← hrest] at hitems
    exact hitems

/-- A reply is a well-formed one exactly when all its rows give well-formed
samples. -/
theorem isReplyText_iff (items : List TelemetryState) :
    IsReplyText items (historyText (items.map storedRow)) ↔
      ∀ r ∈ items, IsSampleText r (replayText r) := by
  have hutf : ValidUtf8 (historyText (items.map storedRow)) ↔
      ∀ r ∈ items, ∀ id ∈ ids r, ValidUtf8 id := by
    have hend : ValidUtf8 (lit "]\x7d") := validUtf8_of_ascii (by decide)
    rw [historyText, List.map_map, List.append_assoc, validUtf8_ascii_append (by decide)]
    exact (validUtf8_items_iff items _).trans (and_iff_left hend)
  rw [IsReplyText, readFrom_reply_iff, hutf]
  simp only [isSampleText_replay_iff, IdsPrintable]
  constructor
  · rintro ⟨hread, hids⟩ r hr
    exact ⟨fun id hid => ⟨(hread r hr).1 id hid, hids r hr id hid⟩, (hread r hr).2⟩
  · intro hall
    exact ⟨fun r hr => ⟨fun id hid => ((hall r hr).1 id hid).1, (hall r hr).2⟩,
      fun r hr id hid => ((hall r hr).1 id hid).2⟩

/-- An identifier of a message, cut to the bytes that its buffer has room for,
can be printed as it is; an absent or empty one gives way to a default that can. -/
def IdPrintable (room : ℕ) (id : Option CString) : Prop :=
  ∀ s ∈ id, Unescaped (s.bytes.take room) ∧ ValidUtf8 (s.bytes.take room)

/-- A component is neither NaN nor infinite: its exponent field is not full. -/
def NumberPrintable (x : Binary32) : Prop := x.toNat / 2 ^ 23 % 2 ^ 8 ≠ 255

/-- So are the components of a vector, where there is one. -/
def VectorPrintable (v : Option Vec3) : Prop :=
  ∀ w ∈ v, NumberPrintable w.x ∧ NumberPrintable w.y ∧ NumberPrintable w.z

/-- The messages whose identifiers and components can be printed. -/
structure Printable (st : TelemetryStateMsg) : Prop where
  /-- The robot identifier. -/
  robotId : IdPrintable 63 (st.header.bind HeaderMsg.robotId)
  /-- The IMU identifier. -/
  imuId : IdPrintable 31 st.imuId
  /-- The identifier of the tilt sensor. -/
  tiltId : IdPrintable 31 st.tiltId
  /-- The identifier of motor1. -/
  motor1 : IdPrintable 31 (st.motor1.bind MotorStateMsg.motorId)
  /-- The identifier of motor2. -/
  motor2 : IdPrintable 31 (st.motor2.bind MotorStateMsg.motorId)
  /-- Acceleration. -/
  accG : VectorPrintable st.accG
  /-- Angular rate. -/
  gyroDps : VectorPrintable st.gyroDps
  /-- Tilt angles. -/
  tiltDeg : VectorPrintable st.tiltDeg

/-- The text of a state is well formed wherever it is sent: live, replayed, and
in a reply together with other rows that are well formed. -/
structure WellFormed (s : TelemetryState) : Prop where
  /-- The text of the live stream. -/
  live : ∀ mallocOk text, telemetryStateToJsonAlloc mallocOk s = .ok text →
    IsSampleText s text.bytes
  /-- The text of the stored row. -/
  replay : IsSampleText s (replayText s)
  /-- The text of a reply with the stored row. -/
  reply : ∀ (limit : ℤ) (query : ℕ → List (List SqlValue)) (earlier later : List TelemetryState),
    ((query (clampLimit limit)).take (clampLimit limit)).reverse =
        (earlier ++ s :: later).map storedRow →
      (∀ r ∈ earlier ++ later, IsSampleText r (replayText r)) →
        ∀ sb, dbReaderHistoryLastJson .flawless limit query = .ok sb →
          IsReplyText (earlier ++ s :: later) sb.content

/-- A copied identifier can be printed exactly when the one of the message can,
if its default can. -/
theorem safeCopy_printable_iff {cap : ℕ} (hcap : 0 < cap) (id : Option CString) (fallback : CString)
    (hshort : fallback.bytes.length < cap)
    (hfallback : Unescaped fallback.bytes ∧ Ascii fallback.bytes) :
    (Unescaped (safeCopy cap hcap id (some fallback)).bytes ∧
        ValidUtf8 (safeCopy cap hcap id (some fallback)).bytes) ↔
      IdPrintable (cap - 1) id := by
  have hwhole : fallback.bytes.take (cap - 1) = fallback.bytes := List.take_of_length_le (by omega)
  have hdefault : Unescaped (fallback.bytes.take (cap - 1)) ∧
      ValidUtf8 (fallback.bytes.take (cap - 1)) := by
    rw [hwhole]
    exact ⟨hfallback.1, validUtf8_of_ascii hfallback.2⟩
  cases id with
  | none => exact iff_of_true hdefault fun t ht => absurd ht (Option.not_mem_none t)
  | some s =>
    by_cases hempty : s.bytes = []
    · have hcopy : (safeCopy cap hcap (some s) (some fallback)).bytes =
          fallback.bytes.take (cap - 1) := by
        simp [safeCopy, hempty, CharBuf.ofCString]
      rw [hcopy]
      refine iff_of_true hdefault fun t ht => ?_
      cases ht
      rw [hempty, List.take_nil]
      exact ⟨fun b hb => absurd hb List.not_mem_nil, validUtf8_nil⟩
    · have hcopy : (safeCopy cap hcap (some s) (some fallback)).bytes =
          s.bytes.take (cap - 1) := by
        simp [safeCopy, hempty, CharBuf.ofCString]
      rw [hcopy]
      exact ⟨fun h t ht => by cases ht; exact h, fun h => h s rfl⟩

/-- The components of a vector are printed as numbers, zeros where it is
absent. -/
theorem vector_printable_iff (v : Option Vec3) :
    ((promoted (v.getD Vec3.zero).x).isFinite = true ∧
      (promoted (v.getD Vec3.zero).y).isFinite = true ∧
        (promoted (v.getD Vec3.zero).z).isFinite = true) ↔ VectorPrintable v := by
  simp only [promoted, isFinite_ofBinary32_iff]
  cases v with
  | none => exact iff_of_true (by decide) nofun
  | some w => exact ⟨fun h t ht => by cases ht; exact h, fun h => h w rfl⟩

/-- A component that is printed as a number live is so in the replay. -/
theorem isFinite_readBack {x : Binary32} (h : (promoted x).isFinite = true) :
    (readBack x).isFinite = true := by
  rw [readBack, bindDouble]
  cases hx : promoted x with
  | nan negative => rw [hx] at h; cases h
  | infinite negative => rw [hx] at h; cases h
  | finite negative mantissa exponent => cases mantissa <;> rfl

/-- A state can be printed exactly when its message can. -/
theorem printable_iff (st : TelemetryStateMsg) (nowRealtimeNs : BitVec 64) (payload : Bytes)
    (rawAllocated : Bool) :
    (IdsPrintable (onMessageState st nowRealtimeNs payload rawAllocated) ∧
        ComponentsPrintable promoted (onMessageState st nowRealtimeNs payload rawAllocated)) ↔
      Printable st := by
  have hrobot := safeCopy_printable_iff (by decide : 0 < 64) (st.header.bind HeaderMsg.robotId)
    ⟨lit "robot", by decide⟩ (by decide) (by decide)
  have himu := safeCopy_printable_iff (by decide : 0 < 32) st.imuId imu0 (by decide) (by decide)
  have htilt := safeCopy_printable_iff (by decide : 0 < 32) st.tiltId tilt0 (by decide) (by decide)
  have hmotor1 := safeCopy_printable_iff (by decide : 0 < 32)
    (st.motor1.bind MotorStateMsg.motorId) (defaultMotorId firstMotor) (by decide) (by decide)
  have hmotor2 := safeCopy_printable_iff (by decide : 0 < 32)
    (st.motor2.bind MotorStateMsg.motorId) (defaultMotorId secondMotor) (by decide) (by decide)
  have haccG := vector_printable_iff st.accG
  have hgyroDps := vector_printable_iff st.gyroDps
  have htiltDeg := vector_printable_iff st.tiltDeg
  rw [IdsPrintable, ids, ComponentsPrintable, components]
  simp only [List.forall_mem_cons]
  constructor
  · rintro ⟨⟨h1, h2, h3, h4, h5, -⟩, hax, hay, haz, hgx, hgy, hgz, htx, hty, htz, -⟩
    exact ⟨hrobot.mp h1, himu.mp h2, htilt.mp h3, hmotor1.mp h4, hmotor2.mp h5,
      haccG.mp ⟨hax, hay, haz⟩, hgyroDps.mp ⟨hgx, hgy, hgz⟩, htiltDeg.mp ⟨htx, hty, htz⟩⟩
  · rintro ⟨h1, h2, h3, h4, h5, hacc, hgyro, htilts⟩
    obtain ⟨hax, hay, haz⟩ := haccG.mpr hacc
    obtain ⟨hgx, hgy, hgz⟩ := hgyroDps.mpr hgyro
    obtain ⟨htx, hty, htz⟩ := htiltDeg.mpr htilts
    exact ⟨⟨hrobot.mpr h1, himu.mpr h2, htilt.mpr h3, hmotor1.mpr h4, hmotor2.mpr h5, nofun⟩,
      hax, hay, haz, hgx, hgy, hgz, htx, hty, htz, nofun⟩

/-- For every message the text of its state is well formed on every path
exactly when the message can be printed. -/
theorem wellFormed_iff (st : TelemetryStateMsg) (nowRealtimeNs : BitVec 64) (payload : Bytes)
    (rawAllocated : Bool) :
    WellFormed (onMessageState st nowRealtimeNs payload rawAllocated) ↔ Printable st := by
  rw [← printable_iff st nowRealtimeNs payload rawAllocated]
  generalize onMessageState st nowRealtimeNs payload rawAllocated = s
  constructor
  · intro h
    exact (isSampleText_live_iff s).mp (h.live true _ rfl)
  · intro h
    have hreplay : IsSampleText s (replayText s) :=
      (isSampleText_replay_iff s).mpr ⟨h.1, fun x hx => isFinite_readBack (h.2 x hx)⟩
    refine ⟨fun mallocOk text htext => ?_, hreplay, ?_⟩
    · cases mallocOk with
      | false => cases htext
      | true =>
        cases htext
        exact (isSampleText_live_iff s).mpr h
    · intro limit query earlier later hrows hothers sb hreply
      obtain ⟨sb', hcall, hholds⟩ := dbReaderHistoryLastJson_flawless limit query
      cases hreply.symm.trans hcall
      rw [hrows] at hholds
      rw [hholds.content_eq, isReplyText_iff]
      intro r hr
      rcases List.mem_append.mp hr with hearlier | hrest
      · exact hothers r (List.mem_append_left later hearlier)
      · rcases List.mem_cons.mp hrest with rfl | hlater
        · exact hreplay
        · exact hothers r (List.mem_append_right earlier hlater)

/-- A message whose robot identifier has a quote in it. -/
def quotedIdMsg : TelemetryStateMsg where
  header := some ⟨some ⟨[97, 34, 98], by decide⟩, 1, 1⟩
  imuId := none
  accG := none
  gyroDps := none
  tiltId := none
  tiltDeg := none
  tiltStatus := 0
  motor1 := none
  motor2 := none

/-- Its live text, its replayed text and a reply in which another row is well
formed are no JSON. -/
theorem quoted_id_no_json :
    (∀ text ms, telemetryStateToJsonAlloc true (onMessageState quotedIdMsg 0 [] true) = .ok text →
        ¬ IsJson text.bytes ms) ∧
      (∀ ms, ¬ IsJson (replayText (onMessageState quotedIdMsg 0 [] true)) ms) ∧
      IsSampleText blankState (replayText blankState) ∧
      ∀ ms, ¬ IsJson (historyText
        ([blankState, onMessageState quotedIdMsg 0 [] true].map storedRow)) ms := by
  have hlive : readFrom .start
      (format (telemetryStateToJson (onMessageState quotedIdMsg 0 [] true))).bytes = none := by
    decide +kernel
  have hreplay : readFrom .start
      (format (samplePieces (selectRow (insertedRow (onMessageState quotedIdMsg 0 [] true))))).bytes =
        none := by
    decide +kernel
  have hreply : readFrom .start (historyText
      ([blankState, onMessageState quotedIdMsg 0 [] true].map storedRow)) = none := by
    decide +kernel
  refine ⟨fun text ms htext h => ?_, fun ms h => ?_, ?_, fun ms h => ?_⟩
  · cases htext
    cases hlive.symm.trans h
  · rw [IsJson, replayText_eq] at h
    cases hreplay.symm.trans h
  · have hblank : Printable ⟨none, none, none, none, none, none, 0, none, none⟩ :=
      ⟨nofun, nofun, nofun, nofun, nofun, nofun, nofun, nofun⟩
    obtain ⟨hids, hcomponents⟩ := (printable_iff _ 0 [] false).mpr hblank
    exact (isSampleText_replay_iff _).mpr
      ⟨hids, fun x hx => isFinite_readBack (hcomponents x hx)⟩
  · cases hreply.symm.trans h

end TelemetryPlatform.WellFormedSamples
