import TelemetryPlatform.SampleJson

/-!
# When live and replayed samples agree

The insert narrows two unsigned 32-bit fields to a signed column, the
select prints the signed value, a NaN comes back as zero, and so does negative
zero. Member by member, the replayed object equals the live one exactly when no field is in
the range that these conversions change.
-/

namespace TelemetryPlatform.ReplayEncoding

open CStrings Binary64 FormattedText StringBuilder TelemetryTypes SampleJson

/-- A 32-bit integer is read back with its bits unchanged. -/
theorem columnInt_bindInt (x : BitVec 32) : columnInt (bindInt x) = x := by
  simp only [bindInt, columnInt]
  ext i hi
  rw [BitVec.getElem_setWidth, BitVec.getLsbD_signExtend]
  simp [hi]
  omega

/-- Where a member is printed from the live state and from the stored row:
the texts are equal exactly under a condition, and they start apart otherwise. -/
structure Compare (live replay : Piece) (same : Prop) : Prop where
  /-- The condition decides equality. -/
  eq_iff : live.bytes = replay.bytes ↔ same
  /-- Different texts differ in their first byte. -/
  apart : live.bytes = replay.bytes ∨ Apart live.bytes replay.bytes

/-- A member printed by the same piece. -/
theorem Compare.refl (p : Piece) : Compare p p True := ⟨by simp, .inl rfl⟩

/-- A comparison from its two cases. -/
theorem Compare.of_cases {live replay : Piece} {same : Prop}
    (hsame : same → live.bytes = replay.bytes) (happart : ¬ same → Apart live.bytes replay.bytes) :
    Compare live replay same := by
  by_cases h : same
  · exact ⟨iff_of_true (hsame h) h, .inl (hsame h)⟩
  · have hne : live.bytes ≠ replay.bytes := fun heq => by
      have happend := (happart h).append_ne [] []
      rw [heq] at happend
      exact happend rfl
    exact ⟨iff_of_false hne h, .inr (happart h)⟩

/-- A natural number printed from its bits, unsigned and signed: the two
agree below half of the range and start apart from there on. -/
theorem decimal_signedDecimal_cases {w : ℕ} (x : BitVec w) :
    (2 * x.toNat < 2 ^ w → decimal x.toNat = signedDecimal x.toInt) ∧
      (¬ 2 * x.toNat < 2 ^ w → Apart (decimal x.toNat) (signedDecimal x.toInt)) := by
  have hlt : x.toNat < 2 ^ w := x.isLt
  constructor
  · intro hsmall
    rw [BitVec.toInt_eq_toNat_cond, if_pos hsmall, signedDecimal, if_neg (by omega), Int.natAbs_natCast]
  · intro hlarge
    apply apart_decimal_negative
    rw [BitVec.toInt_eq_toNat_cond, if_neg hlarge]
    have hcast : (x.toNat : ℤ) < ((2 ^ w : ℕ) : ℤ) := by exact_mod_cast hlt
    omega

/-- An unsigned 32-bit field printed through a signed column. -/
theorem compare_u_bindInt (x : BitVec 32) :
    Compare (.u x) (.d (columnInt (bindInt x))) (x.toNat < 2 ^ 31) := by
  rw [columnInt_bindInt]
  obtain ⟨hsame, happart⟩ := decimal_signedDecimal_cases x
  exact .of_cases (fun h => hsame (by omega)) fun h => happart (by omega)

/-- An unsigned 64-bit field printed through a signed column. -/
theorem compare_llu_bindInt64 (x : BitVec 64) :
    Compare (.llu x) (.lld (columnInt64 (bindInt64 x))) (x.toNat < 2 ^ 63) := by
  obtain ⟨hsame, happart⟩ := decimal_signedDecimal_cases x
  exact .of_cases (fun h => hsame (by omega)) fun h => happart (by omega)

/-- A signed 32-bit field survives its column. -/
theorem compare_d_bindInt (x : BitVec 32) :
    Compare (.d x) (.d (columnInt (bindInt x))) True := by
  rw [columnInt_bindInt]
  exact .refl _

/-- An unsigned 32-bit field survives a 64-bit column. -/
theorem compare_u_bindInt64 (x : BitVec 32) :
    Compare (.u x) (.lld (columnInt64 (bindInt64 (x.setWidth 64)))) True := by
  have hwide : (x.setWidth 64).toNat = x.toNat := by simp; omega
  obtain ⟨hsame, -⟩ := decimal_signedDecimal_cases (x.setWidth 64)
  rw [hwide] at hsame
  exact .of_cases (fun _ => hsame (by omega)) fun h => absurd trivial h

/-- The doubles that a column keeps: neither NaN nor negative zero. -/
def Storable (x : Double) : Prop := x.isNan = false ∧ x.isNegativeZero = false

/-- A double survives its column unless it is NaN or negative zero. -/
theorem compare_fixed_bindDouble (x : Double) :
    Compare (.fixed x) (.fixed (columnDouble (bindDouble x).stored)) (Storable x) := by
  cases x with
  | nan negative =>
    have hread : columnDouble (bindDouble (.nan negative)).stored = Double.zero := rfl
    have happart : Apart (fixedSix (.nan negative)) (fixedSix Double.zero) := apart_nan_zero rfl
    rw [hread]
    exact .of_cases (fun h => nomatch h.1) fun _ => happart
  | infinite negative => exact ⟨iff_of_true rfl ⟨rfl, rfl⟩, .inl rfl⟩
  | finite negative mantissa exponent =>
    cases mantissa with
    | succ mantissa =>
      have hstorable : Storable (.finite negative (mantissa + 1) exponent) :=
        ⟨rfl, by cases negative <;> rfl⟩
      exact ⟨iff_of_true rfl hstorable, .inl rfl⟩
    | zero =>
      cases negative with
      | false => exact ⟨iff_of_true rfl ⟨rfl, rfl⟩, .inl rfl⟩
      | true => exact .of_cases (fun h => nomatch h.2) fun _ => apart_signs 0 0 exponent exponent

/-- Two piece lists compared member by member. -/
inductive CompareAll : List Piece → List Piece → Prop → Prop
  /-- Nothing is left to compare. -/
  | nil : CompareAll [] [] True
  /-- The first members are compared, then the others. -/
  | cons {p q : Piece} {ps qs : List Piece} {same rest : Prop} :
      Compare p q same → CompareAll ps qs rest → CompareAll (p :: ps) (q :: qs) (same ∧ rest)

/-- The members are equal exactly under all conditions together. -/
theorem CompareAll.map_eq_iff {ps qs : List Piece} {same : Prop} (h : CompareAll ps qs same) :
    ps.map Piece.bytes = qs.map Piece.bytes ↔ same := by
  induction h with
  | nil => simp
  | cons hpq _ ih => rw [List.map_cons, List.map_cons, List.cons_eq_cons, hpq.eq_iff, ih]

/-- Members that differ start apart. -/
theorem CompareAll.forall₂ {ps qs : List Piece} {same : Prop} (h : CompareAll ps qs same) :
    List.Forall₂ (fun a b => a = b ∨ Apart a b) (ps.map Piece.bytes) (qs.map Piece.bytes) := by
  induction h with
  | nil => exact .nil
  | cons hpq _ ih => exact .cons hpq.apart ih

/-- The texts are equal exactly where the members are. -/
theorem CompareAll.format_eq_iff {ps qs : List Piece} {same : Prop} (h : CompareAll ps qs same) :
    (format ps).bytes = (format qs).bytes ↔ same :=
  (flatten_eq_iff h.forall₂).trans h.map_eq_iff

/-- No component of a vector is NaN or negative zero. -/
def VectorStorable (v : Vec3) : Prop :=
  Storable (promoted v.x) ∧ Storable (promoted v.y) ∧ Storable (promoted v.z)

/-- The states whose fields all survive the columns of the database. -/
structure Replayable (s : TelemetryState) : Prop where
  /-- The sequence identifier fits in a signed 32-bit column. -/
  seq : s.seq.toNat < 2 ^ 31
  /-- The source time stamp fits in a signed 64-bit column. -/
  msgTimestampNs : s.msgTimestampNs.toNat < 2 ^ 63
  /-- The tilt status fits in a signed 32-bit column. -/
  tiltStatus : s.tiltStatus.toNat < 2 ^ 31
  /-- No acceleration component is NaN or negative zero. -/
  accG : VectorStorable s.accG
  /-- No angular rate component is. -/
  gyroDps : VectorStorable s.gyroDps
  /-- No tilt component is. -/
  tiltDeg : VectorStorable s.tiltDeg

/-- The live object and the replayed object of one state, member by member. -/
theorem compareAll_sample (s : TelemetryState) :
    ∃ same, CompareAll (telemetryStateToJson s) (samplePieces (selectRow (insertedRow s))) same ∧
      (same ↔ Replayable s) := by
  have hall : CompareAll (telemetryStateToJson s)
      (samplePieces (selectRow (insertedRow s))) _ :=
    .cons (.refl _) <| .cons (.refl _) <| -- t
      .cons (.refl _) <| .cons (.refl _) <| -- t_ns
      .cons (.refl _) <| .cons (compare_u_bindInt _) <| -- seq
      .cons (.refl _) <| .cons (compare_llu_bindInt64 _) <| -- msg_ts_ns
      .cons (.refl _) <| .cons (.refl _) <| .cons (.refl _) <| .cons (.refl _) <|
      .cons (.refl _) <| .cons (.refl _) <| -- robot_id, imu_id, tilt_id
      .cons (.refl _) <| .cons (compare_u_bindInt _) <| -- tilt_status
      .cons (.refl _) <| .cons (compare_fixed_bindDouble _) <|
      .cons (.refl _) <| .cons (compare_fixed_bindDouble _) <|
      .cons (.refl _) <| .cons (compare_fixed_bindDouble _) <| -- accel
      .cons (.refl _) <| .cons (compare_fixed_bindDouble _) <|
      .cons (.refl _) <| .cons (compare_fixed_bindDouble _) <|
      .cons (.refl _) <| .cons (compare_fixed_bindDouble _) <| -- gyro
      .cons (.refl _) <| .cons (compare_fixed_bindDouble _) <|
      .cons (.refl _) <| .cons (compare_fixed_bindDouble _) <|
      .cons (.refl _) <| .cons (compare_fixed_bindDouble _) <| -- tilt
      .cons (.refl _) <|
      .cons (.refl _) <| .cons (.refl _) <| .cons (.refl _) <| .cons (compare_u_bindInt64 _) <|
      .cons (.refl _) <| .cons (compare_d_bindInt _) <|
      .cons (.refl _) <| .cons (compare_d_bindInt _) <|
      .cons (.refl _) <| .cons (compare_d_bindInt _) <|
      .cons (.refl _) <| .cons (compare_d_bindInt _) <| -- motor1
      .cons (.refl _) <| .cons (.refl _) <| .cons (.refl _) <| .cons (compare_u_bindInt64 _) <|
      .cons (.refl _) <| .cons (compare_d_bindInt _) <|
      .cons (.refl _) <| .cons (compare_d_bindInt _) <|
      .cons (.refl _) <| .cons (compare_d_bindInt _) <|
      .cons (.refl _) <| .cons (compare_d_bindInt _) <| -- motor2
      .cons (.refl _) <| .cons (.refl _) .nil
  refine ⟨_, hall, ?_⟩
  simp only [true_and, and_true]
  constructor
  · rintro ⟨hseq, hts, hstatus, hax, hay, haz, hgx, hgy, hgz, htx, hty, htz⟩
    exact ⟨hseq, hts, hstatus, ⟨hax, hay, haz⟩, ⟨hgx, hgy, hgz⟩, ⟨htx, hty, htz⟩⟩
  · rintro ⟨hseq, hts, hstatus, ⟨hax, hay, haz⟩, ⟨hgx, hgy, hgz⟩, ⟨htx, hty, htz⟩⟩
    exact ⟨hseq, hts, hstatus, hax, hay, haz, hgx, hgy, hgz, htx, hty, htz⟩

/-- The text that the history renderer appends to an empty buffer for the
stored row of a state. -/
def replayText (s : TelemetryState) : Bytes :=
  (appendRowAsSampleJson StrBuf.empty (selectRow (insertedRow s)) []).2.1.content

/-- The history renderer prints the pieces of the row. -/
theorem replayText_eq (s : TelemetryState) :
    replayText s = (format (samplePieces (selectRow (insertedRow s)))).bytes := by
  obtain ⟨sb, hcall, hholds⟩ :=
    appendRowAsSampleJson_nil StrBuf.holds_empty (selectRow (insertedRow s))
  rw [replayText, hcall]
  simpa using hholds.content_eq

/-- For every state that the gateway builds from a message, the live object
and the object replayed from its stored row have the same members with the
same values, and so the same text, exactly when the state is replayable. -/
theorem live_eq_replay_iff (st : TelemetryStateMsg) (nowRealtimeNs : BitVec 64) (payload : Bytes)
    (rawAllocated : Bool) :
    ((telemetryStateToJson (onMessageState st nowRealtimeNs payload rawAllocated)).map Piece.bytes =
        (samplePieces (selectRow (insertedRow
          (onMessageState st nowRealtimeNs payload rawAllocated)))).map Piece.bytes ↔
      Replayable (onMessageState st nowRealtimeNs payload rawAllocated)) ∧
    ((telemetryStateToJsonAlloc true
          (onMessageState st nowRealtimeNs payload rawAllocated)).map CString.bytes =
        .ok (replayText (onMessageState st nowRealtimeNs payload rawAllocated)) ↔
      Replayable (onMessageState st nowRealtimeNs payload rawAllocated)) := by
  generalize onMessageState st nowRealtimeNs payload rawAllocated = s
  obtain ⟨same, hall, hsame⟩ := compareAll_sample s
  constructor
  · exact hall.map_eq_iff.trans hsame
  · rw [telemetryStateToJsonAlloc, if_pos rfl, replayText_eq, Except.map, Except.ok.injEq]
    exact hall.format_eq_iff.trans hsame

/-- A message whose sequence identifier has its top bit set. -/
def wideSeqMsg : TelemetryStateMsg where
  header := some ⟨some robotSim, 1, 2147483648⟩
  imuId := none
  accG := none
  gyroDps := none
  tiltId := none
  tiltDeg := none
  tiltStatus := 0
  motor1 := none
  motor2 := none

/-- The live and the replayed sequence identifier of that message differ. -/
theorem live_ne_replay_wideSeq :
    (telemetryStateToJson (onMessageState wideSeqMsg 0 [] true)).map Piece.bytes ≠
        (samplePieces (selectRow (insertedRow (onMessageState wideSeqMsg 0 [] true)))).map
          Piece.bytes ∧
      (telemetryStateToJsonAlloc true (onMessageState wideSeqMsg 0 [] true)).map CString.bytes ≠
        .ok (replayText (onMessageState wideSeqMsg 0 [] true)) := by
  obtain ⟨same, hall, hsame⟩ := compareAll_sample (onMessageState wideSeqMsg 0 [] true)
  have hwide : ¬ same := fun h => absurd (hsame.mp h).seq (by decide)
  constructor
  · exact mt hall.map_eq_iff.mp hwide
  · rw [telemetryStateToJsonAlloc, if_pos rfl, replayText_eq, Except.map, ne_eq, Except.ok.injEq]
    exact mt hall.format_eq_iff.mp hwide

end TelemetryPlatform.ReplayEncoding
