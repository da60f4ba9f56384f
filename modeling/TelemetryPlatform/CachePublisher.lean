import Mathlib.Algebra.Order.Ring.Nat
import Mathlib.Data.Nat.Count
import TelemetryPlatform.TelemetryTypes

/-!
# The telemetry cache and its publisher

Four sensor threads update one cache under its lock; the publisher thread
takes a snapshot at every tick. The sequence counter of the cache counts the
updates that took effect, and a published message carries the value that its
snapshot found. Whether two messages share an identifier is therefore decided
by the updates between their ticks, not by the ticks.
-/

namespace TelemetryPlatform.CachePublisher

open CStrings TelemetryTypes

/-- The last values of all sensors and the update counter. -/
structure TelemetryCache where
  /-- Acceleration. -/
  accG : Vec3
  /-- Angular rate. -/
  gyroDps : Vec3
  /-- Tilt angles. -/
  tiltDeg : Vec3
  /-- Tilt sensor status. -/
  tiltStatus : BitVec 32
  /-- Raw encoder counters. -/
  motorTics : Fin 2 → BitVec 32
  /-- Signed revolutions per minute. -/
  motorRpm : Fin 2 → BitVec 32
  /-- Signed degrees Celsius. -/
  motorTempC : Fin 2 → BitVec 32
  /-- Signed millivolts. -/
  motorVoltageMv : Fin 2 → BitVec 32
  /-- Signed milliamperes. -/
  motorCurrentMa : Fin 2 → BitVec 32
  /-- Counter of the updates, a uint32_t. -/
  seq : BitVec 32

/-- The zeroed cache. -/
def telemetryCacheInit : TelemetryCache :=
  ⟨Vec3.zero, Vec3.zero, Vec3.zero, 0, fun _ => 0, fun _ => 0, fun _ => 0, fun _ => 0, fun _ => 0, 0⟩

/-- Update by the IMU thread. -/
def telemetryCacheSetImu (c : TelemetryCache) (acc gyro : Vec3) : TelemetryCache :=
  { c with accG := acc, gyroDps := gyro, seq := c.seq + 1 }

/-- Update by the tilt thread. -/
def telemetryCacheSetTilt (c : TelemetryCache) (deg : Vec3) (status : BitVec 32) :
    TelemetryCache :=
  { c with tiltDeg := deg, tiltStatus := status, seq := c.seq + 1 }

/-- The values of one motor update. -/
structure MotorUpdate where
  /-- Raw encoder counter. -/
  tics : BitVec 32
  /-- Signed revolutions per minute. -/
  rpm : BitVec 32
  /-- Signed degrees Celsius. -/
  temperatureC : BitVec 32
  /-- Signed millivolts. -/
  voltagePowerStageMv : BitVec 32
  /-- Signed milliamperes. -/
  currentPowerStageMa : BitVec 32

/-- The array index of a motor number, absent for a number that is rejected. -/
def motorIdx (motorIndex : ℤ) : Option (Fin 2) :=
  if motorIndex = 1 then some firstMotor else if motorIndex = 2 then some secondMotor else none

/-- Update by a motor thread; a motor number other than 1 and 2 is ignored. -/
def telemetryCacheSetMotor (c : TelemetryCache) (motorIndex : ℤ) (u : MotorUpdate) :
    TelemetryCache :=
  match motorIdx motorIndex with
  | none => c
  | some idx =>
    { c with
      motorTics := Function.update c.motorTics idx u.tics
      motorRpm := Function.update c.motorRpm idx u.rpm
      motorTempC := Function.update c.motorTempC idx u.temperatureC
      motorVoltageMv := Function.update c.motorVoltageMv idx u.voltagePowerStageMv
      motorCurrentMa := Function.update c.motorCurrentMa idx u.currentPowerStageMa
      seq := c.seq + 1 }

/-- The message that the publisher builds from one snapshot of the cache. -/
def telemetryPubMessage (c : TelemetryCache) (timestampNs : BitVec 64) : TelemetryStateMsg where
  header := some ⟨some robotSim, timestampNs, c.seq⟩
  imuId := some imu0
  accG := some c.accG
  gyroDps := some c.gyroDps
  tiltId := some tilt0
  tiltDeg := some c.tiltDeg
  tiltStatus := c.tiltStatus
  motor1 := some ⟨some (defaultMotorId firstMotor), c.motorTics firstMotor, c.motorRpm firstMotor,
    c.motorTempC firstMotor, c.motorVoltageMv firstMotor, c.motorCurrentMa firstMotor⟩
  motor2 := some ⟨some (defaultMotorId secondMotor), c.motorTics secondMotor,
    c.motorRpm secondMotor, c.motorTempC secondMotor, c.motorVoltageMv secondMotor,
    c.motorCurrentMa secondMotor⟩

/-- One atomic step of a sensor thread or one tick of the publisher. -/
inductive Action where
  /-- The IMU thread updates the cache. -/
  | setImu (acc gyro : Vec3)
  /-- The tilt thread updates the cache. -/
  | setTilt (deg : Vec3) (status : BitVec 32)
  /-- A motor thread updates the cache. -/
  | setMotor (motorIndex : ℤ) (u : MotorUpdate)
  /-- The publisher takes a snapshot; the flag says whether the message was
  allocated and accepted by the MQTT client. -/
  | tick (timestampNs : BitVec 64) (sent : Bool)

/-- The cache and the messages published so far, oldest first. -/
structure PubState where
  /-- The shared cache. -/
  cache : TelemetryCache
  /-- Published messages. -/
  published : List TelemetryStateMsg

/-- The state before any thread runs. -/
def PubState.init : PubState := ⟨telemetryCacheInit, []⟩

/-- The effect of one step. -/
def pubStep (s : PubState) : Action → PubState
  | .setImu acc gyro => { s with cache := telemetryCacheSetImu s.cache acc gyro }
  | .setTilt deg status => { s with cache := telemetryCacheSetTilt s.cache deg status }
  | .setMotor i u => { s with cache := telemetryCacheSetMotor s.cache i u }
  | .tick timestampNs sent =>
    if sent = true then
      { s with published := s.published ++ [telemetryPubMessage s.cache timestampNs] }
    else s

/-- The state after an interleaving of the five threads. -/
def pubRun (s : PubState) (actions : List Action) : PubState := actions.foldl pubStep s

/-- The steps that change the cache. -/
def Action.updates : Action → Bool
  | .setImu _ _ => true
  | .setTilt _ _ => true
  | .setMotor i _ => (motorIdx i).isSome
  | .tick _ _ => false

/-- The ticks that publish a message. -/
def Action.publishes : Action → Bool
  | .tick _ sent => sent
  | _ => false

/-- The sequence identifier of a message; a message without header counts as 0. -/
def msgSeq (msg : TelemetryStateMsg) : ℕ := (msg.header.map fun h => h.seq.toNat).getD 0

/-- The number of updates among the given steps. -/
def updateCount (actions : List Action) : ℕ := actions.countP Action.updates

/-- The identifiers that the published messages get when the counter never
wraps: each the number of updates before its tick. -/
def seqTrace (n : ℕ) : List Action → List ℕ
  | [] => []
  | a :: rest =>
    if a.updates = true then seqTrace (n + 1) rest
    else if a.publishes = true then n :: seqTrace n rest
    else seqTrace n rest

/-- Every two publishing ticks have an update between them. -/
def UpdateBetweenTicks (actions : List Action) : Prop :=
  ∀ before between after (t t' : Action), actions = before ++ t :: (between ++ t' :: after) →
    t.publishes = true → t'.publishes = true → 0 < updateCount between

/-- An update advances the counter by one and publishes nothing. -/
theorem pubStep_update {a : Action} (s : PubState) (ha : a.updates = true) :
    (pubStep s a).cache.seq = s.cache.seq + 1 ∧ (pubStep s a).published = s.published := by
  cases a with
  | setImu acc gyro => exact ⟨rfl, rfl⟩
  | setTilt deg status => exact ⟨rfl, rfl⟩
  | setMotor i u =>
    obtain ⟨idx, hidx⟩ := Option.isSome_iff_exists.mp ha
    simp only [pubStep, telemetryCacheSetMotor, hidx, and_self]
  | tick timestampNs sent => cases ha

/-- A step that is no update leaves the counter, and publishes at most the
counter's value. -/
theorem pubStep_tick {a : Action} (s : PubState) (ha : a.updates = false) :
    (pubStep s a).cache.seq = s.cache.seq ∧
      (pubStep s a).published.map msgSeq = s.published.map msgSeq ++
        (if a.publishes = true then [s.cache.seq.toNat] else []) := by
  cases a with
  | setImu acc gyro => cases ha
  | setTilt deg status => cases ha
  | setMotor i u =>
    have hidx : motorIdx i = none := Option.not_isSome_iff_eq_none.mp (by simpa [Action.updates] using ha)
    simp [pubStep, telemetryCacheSetMotor, hidx, Action.publishes]
  | tick timestampNs sent =>
    cases sent <;> simp [pubStep, Action.publishes, msgSeq, telemetryPubMessage]

/-- The identifiers published by a run, as long as the counter does not wrap. -/
theorem pubRun_seqs (actions : List Action) (s : PubState)
    (hwrap : s.cache.seq.toNat + updateCount actions < 2 ^ 32) :
    (pubRun s actions).published.map msgSeq =
      s.published.map msgSeq ++ seqTrace s.cache.seq.toNat actions := by
  induction actions generalizing s with
  | nil => simp [pubRun, seqTrace]
  | cons a rest ih =>
    cases ha : a.updates with
    | true =>
      obtain ⟨hseq, hpub⟩ := pubStep_update s ha
      have hcount : updateCount (a :: rest) = updateCount rest + 1 := by
        simp [updateCount, ha]
      have hnext : (pubStep s a).cache.seq.toNat = s.cache.seq.toNat + 1 := by
        rw [hseq, BitVec.toNat_add]
        simp only [BitVec.ofNat_eq_ofNat, BitVec.toNat_ofNat]
        omega
      have hrest := ih (pubStep s a) (by omega)
      rw [hnext, hpub] at hrest
      simpa only [pubRun, List.foldl_cons, seqTrace, ha, if_true] using hrest
    | false =>
      obtain ⟨hseq, hpub⟩ := pubStep_tick s ha
      have hcount : updateCount (a :: rest) = updateCount rest := by
        simp [updateCount, ha]
      have hrest := ih (pubStep s a) (by rw [hseq]; omega)
      rw [hseq, hpub, List.append_assoc] at hrest
      simp only [pubRun, List.foldl_cons, seqTrace, ha, Bool.false_eq_true, if_false]
      rw [pubRun] at hrest
      rw [hrest]
      split <;> simp

/-- The published identifiers are the update counts before the publishing ticks. -/
theorem mem_seqTrace {n k : ℕ} {actions : List Action} :
    k ∈ seqTrace n actions ↔ ∃ before t after, actions = before ++ t :: after ∧
      t.publishes = true ∧ k = n + updateCount before := by
  induction actions generalizing n with
  | nil => simp [seqTrace]
  | cons a rest ih =>
    have hpub : a.updates = true → a.publishes = false := by
      cases a <;> simp [Action.updates, Action.publishes]
    constructor
    · intro hk
      cases ha : a.updates with
      | true =>
        rw [seqTrace, if_pos ha] at hk
        obtain ⟨before, t, after, hrest, ht, hcount⟩ := ih.mp hk
        refine ⟨a :: before, t, after, by rw [hrest, List.cons_append], ht, ?_⟩
        simp only [updateCount, List.countP_cons, ha, if_true] at hcount ⊢
        omega
      | false =>
        have hlift : k ∈ seqTrace n rest → ∃ before t after, a :: rest = before ++ t :: after ∧
            t.publishes = true ∧ k = n + updateCount before := by
          intro hk
          obtain ⟨before, t, after, hrest, ht, hcount⟩ := ih.mp hk
          refine ⟨a :: before, t, after, by rw [hrest, List.cons_append], ht, ?_⟩
          simpa [updateCount, ha] using hcount
        simp only [seqTrace, ha, Bool.false_eq_true, if_false] at hk
        split at hk
        · rcases List.mem_cons.mp hk with rfl | hk
          · exact ⟨[], a, rest, rfl, by assumption, by simp [updateCount]⟩
          · exact hlift hk
        · exact hlift hk
    · rintro ⟨before, t, after, hall, ht, rfl⟩
      cases before with
      | nil =>
        obtain ⟨rfl, rfl⟩ := List.cons.inj hall
        have ha : a.updates = false := by
          cases hu : a.updates with
          | false => rfl
          | true => rw [hpub hu] at ht; cases ht
        simp [seqTrace, ha, ht, updateCount]
      | cons b before =>
        obtain ⟨rfl, rfl⟩ := List.cons.inj hall
        cases ha : a.updates with
        | true =>
          rw [seqTrace, if_pos ha]
          refine ih.mpr ⟨before, t, after, rfl, ht, ?_⟩
          simp only [updateCount, List.countP_cons, ha, if_true]
          omega
        | false =>
          have hin : n + updateCount (a :: before) ∈ seqTrace n (before ++ t :: after) :=
            ih.mpr ⟨before, t, after, rfl, ht, by simp [updateCount, ha]⟩
          simp only [seqTrace, ha, Bool.false_eq_true, if_false]
          split
          · exact List.mem_cons_of_mem _ hin
          · exact hin

/-- The identifiers never decrease along a run and start at the counter. -/
theorem seqTrace_le (n : ℕ) (actions : List Action) :
    (∀ k ∈ seqTrace n actions, n ≤ k) ∧ (seqTrace n actions).Pairwise (· ≤ ·) := by
  induction actions generalizing n with
  | nil => simp [seqTrace]
  | cons a rest ih =>
    obtain ⟨hlater, hsorted⟩ := ih n
    obtain ⟨hlater', hsorted'⟩ := ih (n + 1)
    rw [seqTrace]
    split_ifs
    · exact ⟨fun k hk => (Nat.le_succ n).trans (hlater' k hk), hsorted'⟩
    · exact ⟨by simpa using hlater, List.pairwise_cons.mpr ⟨hlater, hsorted⟩⟩
    · exact ⟨hlater, hsorted⟩

/-- A step that publishes nothing does not matter for the separation of ticks. -/
theorem updateBetweenTicks_cons_of_silent {a : Action} {rest : List Action}
    (ha : a.publishes = false) : UpdateBetweenTicks (a :: rest) ↔ UpdateBetweenTicks rest := by
  constructor
  · intro h before between after t t' hrest ht ht'
    exact h (a :: before) between after t t' (by rw [hrest, List.cons_append]) ht ht'
  · intro h before between after t t' hall ht ht'
    cases before with
    | nil =>
      obtain ⟨rfl, -⟩ := List.cons.inj hall
      rw [ha] at ht
      cases ht
    | cons b before =>
      obtain ⟨-, hrest⟩ := List.cons.inj hall
      exact h before between after t t' hrest ht ht'

/-- A publishing tick in front asks for an update before every later one. -/
theorem updateBetweenTicks_cons_of_publishes {a : Action} {rest : List Action} (n : ℕ)
    (ha : a.publishes = true) :
    UpdateBetweenTicks (a :: rest) ↔ (∀ k ∈ seqTrace n rest, n < k) ∧ UpdateBetweenTicks rest := by
  constructor
  · intro h
    constructor
    · intro k hk
      obtain ⟨between, t', after, hrest, ht', rfl⟩ := mem_seqTrace.mp hk
      have hpos := h [] between after a t' (by rw [hrest, List.nil_append]) ha ht'
      omega
    · intro before between after t t' hrest ht ht'
      exact h (a :: before) between after t t' (by rw [hrest, List.cons_append]) ht ht'
  · rintro ⟨hfirst, hrest⟩ before between after t t' hall ht ht'
    cases before with
    | nil =>
      obtain ⟨-, rfl⟩ := List.cons.inj hall
      have hlt := hfirst _ (mem_seqTrace.mpr ⟨between, t', after, rfl, ht', rfl⟩)
      omega
    | cons b before =>
      obtain ⟨-, hsplit⟩ := List.cons.inj hall
      exact hrest before between after t t' hsplit ht ht'

/-- The identifiers increase strictly exactly where updates separate the ticks. -/
theorem seqTrace_lt_iff (n : ℕ) (actions : List Action) :
    (seqTrace n actions).Pairwise (· < ·) ↔ UpdateBetweenTicks actions := by
  induction actions generalizing n with
  | nil =>
    refine ⟨fun _ before between after t t' hall => ?_, fun _ => .nil⟩
    simp at hall
  | cons a rest ih =>
    rw [seqTrace]
    split_ifs with ha hp
    · have hsilent : a.publishes = false := by
        revert ha
        cases a <;> simp [Action.updates, Action.publishes]
      rw [updateBetweenTicks_cons_of_silent hsilent, ih]
    · rw [updateBetweenTicks_cons_of_publishes n hp, List.pairwise_cons, ih]
    · rw [updateBetweenTicks_cons_of_silent (Bool.eq_false_of_not_eq_true hp), ih]

/-- Published identifiers never decrease in a run of fewer than 2^32
updates, and they increase strictly exactly when every two publishing ticks
have an update between them. -/
theorem published_seq_strict_iff (actions : List Action) (hwrap : updateCount actions < 2 ^ 32) :
    ((pubRun PubState.init actions).published.map msgSeq).Pairwise (· ≤ ·) ∧
      (((pubRun PubState.init actions).published.map msgSeq).Pairwise (· < ·) ↔
        UpdateBetweenTicks actions) := by
  have htrace : (pubRun PubState.init actions).published.map msgSeq = seqTrace 0 actions :=
    pubRun_seqs actions PubState.init ((Nat.zero_add _).trans_lt hwrap)
  rw [htrace]
  exact ⟨(seqTrace_le 0 actions).2, seqTrace_lt_iff 0 actions⟩

/-- An update between two ticks. -/
theorem published_seq_strict_iff_imu :
    ((pubRun PubState.init [.tick 1 true, .setImu Vec3.zero Vec3.zero, .tick 2 true]).published.map
        msgSeq).Pairwise (· ≤ ·) ∧
      (((pubRun PubState.init [.tick 1 true, .setImu Vec3.zero Vec3.zero, .tick 2 true]).published.map
        msgSeq).Pairwise (· < ·) ↔
        UpdateBetweenTicks [.tick 1 true, .setImu Vec3.zero Vec3.zero, .tick 2 true]) :=
  published_seq_strict_iff _ (by decide)

/-- Two ticks after one update publish the same identifier twice. -/
theorem published_seq_repeats :
    updateCount [.setImu Vec3.zero Vec3.zero, .tick 1 true, .tick 2 true] < 2 ^ 32 ∧
      ¬ ((pubRun PubState.init [.setImu Vec3.zero Vec3.zero, .tick 1 true, .tick 2 true]).published.map
        msgSeq).Pairwise (· < ·) := by
  decide

end TelemetryPlatform.CachePublisher
