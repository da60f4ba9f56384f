import Mathlib.Data.Nat.Digits.Defs
import TelemetryPlatform.RobotSnapshots

/-!
# The packets of a motor and the published states

Each value of a motor travels twice: in raw packets of its own, and in the
published states. Both show the samples of the motor, clamped to the width that
they are sent with, and the running sum of the encoder ticks. A packet shows
the sample of its number; a state shows the last sample that its snapshot has
seen.
-/

namespace TelemetryPlatform.RobotPackets

open CachePublisher CriticalSections CStrings GuardedRuns RobotCache RobotSnapshots RobotStages
open RobotThreads TelemetryTypes

/-- The number that bytes stand for, lowest byte first. -/
def readLe (bytes : Bytes) : ℕ := Nat.ofDigits 256 (bytes.map UInt8.toNat)

/-- The lowest bytes of a word give back the word up to their number of bits. -/
theorem readLe_bytes {w : ℕ} (v : BitVec w) (n : ℕ) :
    readLe ((List.range n).map (byteAt v)) = v.toNat % 256 ^ n := by
  induction n with
  | zero => simp [readLe, Nat.mod_one]
  | succ n ih =>
    have hbyte : (byteAt v n).toNat = v.toNat / 256 ^ n % 256 := by
      rw [byteAt, UInt8.toNat_ofNat_of_lt' (Nat.mod_lt _ (by decide)), BitVec.toNat_ushiftRight,
        Nat.shiftRight_eq_div_pow, Nat.pow_mul]
    rw [readLe] at ih ⊢
    rw [List.range_succ, List.map_append, List.map_append, Nat.ofDigits_append, ih, List.map_singleton,
      List.map_singleton, Nat.ofDigits_singleton, List.length_map, List.length_map, List.length_range,
      hbyte, Nat.mod_pow_succ]

/-- Thirty-two packed bits are read back. -/
theorem readLe_packU32Le (v : BitVec 32) : readLe (packU32Le v) = v.toNat := by
  have h := readLe_bytes v 4
  rw [Nat.mod_eq_of_lt (by exact v.isLt)] at h
  exact h

/-- So are sixteen. -/
theorem readLe_packI16Le (v : BitVec 16) : readLe (packI16Le v) = v.toNat := by
  have h := readLe_bytes v 2
  rw [Nat.mod_eq_of_lt (by exact v.isLt)] at h
  exact h

/-- The clamp is the nearest number of sixteen bits. -/
theorem toInt_clampI16 (v : ℤ) : (clampI16 v).toInt = max (-32768) (min 32767 v) := by
  rw [clampI16]
  split_ifs with hhigh hlow
  · rw [BitVec.toInt_ofInt, Int.bmod]
    omega
  · rw [BitVec.toInt_ofInt, Int.bmod]
    omega
  · rw [BitVec.toInt_ofInt, Int.bmod]
    omega

/-- The clamp is the nearest number of thirty-two bits. -/
theorem toInt_clampI32Ll (v : ℤ) :
    (clampI32Ll v).toInt = max (-2147483648) (min 2147483647 v) := by
  rw [clampI32Ll]
  split_ifs with hhigh hlow
  · rw [BitVec.toInt_ofInt, Int.bmod]
    omega
  · rw [BitVec.toInt_ofInt, Int.bmod]
    omega
  · rw [BitVec.toInt_ofInt, Int.bmod]
    omega

/-- A value as a receiver of its packets reads it. -/
def MotorValue.read (bytes : Bytes) : MotorValue → ℤ
  | .tics => readLe bytes
  | .rpm | .temperature => (BitVec.ofNat 16 (readLe bytes)).toInt
  | .voltagePowerStage | .currentPowerStage => (BitVec.ofNat 32 (readLe bytes)).toInt

/-- A value in the cache. -/
def MotorValue.ofUpdate (u : MotorUpdate) : MotorValue → ℤ
  | .tics => u.tics.toNat
  | .rpm => u.rpm.toInt
  | .temperature => u.temperatureC.toInt
  | .voltagePowerStage => u.voltagePowerStageMv.toInt
  | .currentPowerStage => u.currentPowerStageMa.toInt

/-- What a sample and the ticks up to it come to, clamped to the width of the value. -/
def MotorValue.expected (ticks : BitVec 32) (x : MotorSample) : MotorValue → ℤ
  | .tics => ticks.toNat
  | .rpm => max (-32768) (min 32767 x.rpm)
  | .temperature => max (-32768) (min 32767 x.tempC)
  | .voltagePowerStage => max (-2147483648) (min 2147483647 x.vPsMV)
  | .currentPowerStage => max (-2147483648) (min 2147483647 x.iPsMA)

/-- What samples come to, one after the other. -/
def expectedFrom (v : MotorValue) (ticks : BitVec 32) : List MotorSample → List ℤ
  | [] => []
  | x :: rest => MotorValue.expected (ticks + x.ticksInc) x v :: expectedFrom v (ticks + x.ticksInc) rest

/-- The ticks after samples. -/
def ticksAfter (ticks : BitVec 32) (xs : List MotorSample) : BitVec 32 :=
  xs.foldl (fun ticks x => ticks + x.ticksInc) ticks

/-- What one more sample comes to. -/
theorem expectedFrom_snoc (v : MotorValue) (ticks : BitVec 32) (xs : List MotorSample)
    (x : MotorSample) : expectedFrom v ticks (xs ++ [x]) =
      expectedFrom v ticks xs ++ [MotorValue.expected (ticksAfter ticks xs + x.ticksInc) x v] := by
  induction xs generalizing ticks with
  | nil => rfl
  | cons y rest ih =>
    rw [List.cons_append, expectedFrom, expectedFrom, ih]
    rfl

/-- The update of a sample holds what is expected. -/
theorem ofUpdate_motorUpdate (v : MotorValue) (ticks : BitVec 32) (x : MotorSample) :
    MotorValue.ofUpdate (motorUpdate ticks x) v = MotorValue.expected ticks x v := by
  cases v with
  | tics => rfl
  | rpm =>
    exact (BitVec.toInt_signExtend_of_le (by decide)).trans (toInt_clampI16 x.rpm)
  | temperature =>
    exact (BitVec.toInt_signExtend_of_le (by decide)).trans (toInt_clampI16 x.tempC)
  | voltagePowerStage => exact toInt_clampI32Ll x.vPsMV
  | currentPowerStage => exact toInt_clampI32Ll x.iPsMA

/-- All topics of the raw packets. -/
def allChannels : List Channel :=
  [.imuAcc, .imuGyro, .tilt] ++ (List.finRange 2).flatMap fun i =>
    [.tics, .rpm, .temperature, .voltagePowerStage, .currentPowerStage].map (.motor i)

/-- No two topics have one text. -/
theorem topic_inj {c d : Channel} : c.topic = d.topic ↔ c = d := by
  have hall : ∀ c, c ∈ allChannels := by
    intro c
    cases c with
    | motor i v =>
      refine List.mem_append_right _ (List.mem_flatMap.mpr ⟨i, List.mem_finRange i, ?_⟩)
      cases v <;> simp
    | _ => simp [allChannels]
  have hnodup : (allChannels.map Channel.topic).Nodup := by decide +kernel
  exact ⟨List.inj_on_of_nodup_map hnodup (hall c) (hall d), congrArg _⟩

/-- The payloads that are sent on the topic of a value of a motor. -/
def sentOn (i : Fin 2) (v : MotorValue) (packets : List Packet) : List Bytes :=
  (packets.filter fun p => decide (p.channel.topic = (Channel.motor i v).topic)).map Packet.payload

/-- The packets on a topic are counted one part after the other. -/
theorem sentOn_append (i : Fin 2) (v : MotorValue) (packets later : List Packet) :
    sentOn i v (packets ++ later) = sentOn i v packets ++ sentOn i v later := by
  rw [sentOn, List.filter_append, List.map_append]
  rfl

/-- The packets among what is left to do. -/
def packetsOf (todo : List Act) : List Packet :=
  todo.filterMap fun act => match act with
    | .publish p => some p
    | .update _ => none

/-- The update of a motor, if it is one. -/
def ofMotor (i : Fin 2) : CacheUpdate → Option MotorUpdate
  | .motor j u => if j = i then some u else none
  | _ => none

/-- The updates of a motor. -/
def motorUpdates (i : Fin 2) (updates : List CacheUpdate) : List MotorUpdate :=
  updates.filterMap (ofMotor i)

/-- The updates of a motor are counted one part after the other. -/
theorem motorUpdates_append (i : Fin 2) (updates later : List CacheUpdate) :
    motorUpdates i (updates ++ later) = motorUpdates i updates ++ motorUpdates i later :=
  List.filterMap_append

/-- The updates among what is left to do. -/
def updatesOf (todo : List Act) : List CacheUpdate :=
  todo.filterMap fun act => match act with
    | .publish _ => none
    | .update u => some u

/-- What a thread still has to do with its sample. -/
def todoOf : ThreadPc → List Act
  | .acting todo => todo
  | .updating u todo => .update u :: todo
  | _ => []

/-- The thread of a motor. -/
def motorThread (i : Fin 2) : RobotThread := if i = firstMotor then .motor1 else .motor2

/-- The sample of a motor that a step takes, if it takes one. -/
def sampleOf (i : Fin 2) : RobotAction → Option MotorSample
  | .thread t (.compute (.motor x)) => if t = motorThread i then some x else none
  | _ => none

/-- The samples of a motor in a run. -/
def measured (i : Fin 2) (steps : List RobotAction) : List MotorSample := steps.filterMap (sampleOf i)

/-- The packets of one sample show what is expected. -/
theorem read_motorIteration (i : Fin 2) (v : MotorValue) (ticks : BitVec 32) (x : MotorSample) :
    ∃ payload, sentOn i v (packetsOf (motorIteration i ticks x)) = [payload] ∧
      MotorValue.read payload v = MotorValue.expected ticks x v := by
  have hrpm : ∀ c : BitVec 16, (BitVec.ofNat 16 (readLe (packI16Le c))).toInt = c.toInt := by
    intro c
    rw [readLe_packI16Le, BitVec.ofNat_toNat, BitVec.setWidth_eq]
  have hvolt : ∀ c : BitVec 32, (BitVec.ofNat 32 (readLe (packI32Le c))).toInt = c.toInt := by
    intro c
    rw [packI32Le, readLe_packU32Le, BitVec.ofNat_toNat, BitVec.setWidth_eq]
  cases v with
  | tics =>
    refine ⟨packU32Le ticks, by simp [sentOn, packetsOf, motorIteration, topic_inj], ?_⟩
    rw [MotorValue.read, readLe_packU32Le]
    rfl
  | rpm =>
    exact ⟨packI16Le (clampI16 x.rpm), by simp [sentOn, packetsOf, motorIteration, topic_inj],
      (hrpm _).trans (toInt_clampI16 x.rpm)⟩
  | temperature =>
    exact ⟨packI16Le (clampI16 x.tempC), by simp [sentOn, packetsOf, motorIteration, topic_inj],
      (hrpm _).trans (toInt_clampI16 x.tempC)⟩
  | voltagePowerStage =>
    exact ⟨packI32Le (clampI32Ll x.vPsMV), by simp [sentOn, packetsOf, motorIteration, topic_inj],
      (hvolt _).trans (toInt_clampI32Ll x.vPsMV)⟩
  | currentPowerStage =>
    exact ⟨packI32Le (clampI32Ll x.iPsMA), by simp [sentOn, packetsOf, motorIteration, topic_inj],
      (hvolt _).trans (toInt_clampI32Ll x.iPsMA)⟩

/-- A motor measures and counts its ticks. -/
theorem iteration_motor {i : Fin 2} {tickCount tickCount' : Fin 2 → BitVec 32} {x : Sample}
    {todo : List Act} (hx : iteration tickCount (motorThread i) x = some (todo, tickCount')) :
    ∃ y, x = .motor y ∧ todo = motorIteration i (tickCount i + y.ticksInc) y ∧
      tickCount' = Function.update tickCount i (tickCount i + y.ticksInc) := by
  match i with
  | 0 =>
    cases x with
    | motor y =>
      cases hx
      exact ⟨y, rfl, rfl, rfl⟩
    | _ => cases hx
  | 1 =>
    cases x with
    | motor y =>
      cases hx
      exact ⟨y, rfl, rfl, rfl⟩
    | _ => cases hx

/-- Another sensor leaves the encoder counter alone. -/
theorem tickCount_of_iteration {i : Fin 2} {t : RobotThread} (ht : t ≠ motorThread i)
    {tickCount tickCount' : Fin 2 → BitVec 32} {x : Sample} {todo : List Act}
    (hx : iteration tickCount t x = some (todo, tickCount')) : tickCount' i = tickCount i := by
  match i with
  | 0 =>
    cases t with
    | motor1 => exact absurd rfl ht
    | _ =>
      cases x <;> cases hx
      all_goals rfl
  | 1 =>
    cases t with
    | motor2 => exact absurd rfl ht
    | _ =>
      cases x <;> cases hx
      all_goals rfl

/-- What was sent and updated, and what is left to do, are the samples. -/
structure Shown (i : Fin 2) (v : MotorValue) (todo : List Act) (packets : List Packet)
    (released : List CacheUpdate) (tickCount : BitVec 32) (xs : List MotorSample) : Prop where
  /-- What is left is the end of what a motor does with a sample. -/
  left : ∃ ticks x, todo <:+ motorIteration i ticks x
  /-- The packets show the samples. -/
  packets : (sentOn i v (packets ++ packetsOf todo)).map (fun payload => MotorValue.read payload v) =
    expectedFrom v 0 xs
  /-- The updates hold the samples. -/
  updates : (motorUpdates i (released ++ updatesOf todo)).map (fun u => MotorValue.ofUpdate u v) =
    expectedFrom v 0 xs
  /-- The ticks are counted. -/
  ticks : tickCount = ticksAfter 0 xs

section
variable {i : Fin 2} {v : MotorValue} {todo : List Act} {packets : List Packet}
  {released : List CacheUpdate} {tickCount : BitVec 32} {xs : List MotorSample}

/-- A sample is measured after everything is done with the last one. -/
theorem Shown.measure (h : Shown i v [] packets released tickCount xs) (x : MotorSample) :
    Shown i v (motorIteration i (tickCount + x.ticksInc) x) packets released
      (tickCount + x.ticksInc) (xs ++ [x]) := by
  obtain ⟨payload, hpayload, hread⟩ := read_motorIteration i v (tickCount + x.ticksInc) x
  have hone : motorUpdates i (updatesOf (motorIteration i (tickCount + x.ticksInc) x)) =
      [motorUpdate (tickCount + x.ticksInc) x] := by
    simp [motorUpdates, updatesOf, motorIteration, ofMotor]
  have hpackets := h.packets
  have hupdates := h.updates
  rw [packetsOf, List.filterMap_nil, List.append_nil] at hpackets
  rw [updatesOf, List.filterMap_nil, List.append_nil] at hupdates
  refine ⟨⟨_, x, List.suffix_refl _⟩, ?_, ?_, ?_⟩
  · rw [expectedFrom_snoc, sentOn_append, List.map_append, hpackets, hpayload, List.map_singleton,
      hread, h.ticks]
  · rw [expectedFrom_snoc, motorUpdates_append, List.map_append, hupdates, hone, List.map_singleton,
      ofUpdate_motorUpdate, h.ticks]
  · rw [h.ticks, ticksAfter, ticksAfter, List.foldl_append]
    rfl

/-- The next packet is handed over. -/
theorem Shown.hand {p : Packet} (h : Shown i v (.publish p :: todo) packets released tickCount xs) :
    Shown i v todo (packets ++ [p]) released tickCount xs := by
  obtain ⟨ticks, x, hsuffix⟩ := h.left
  refine ⟨⟨ticks, x, (List.suffix_cons _ _).trans hsuffix⟩, ?_, h.updates, h.ticks⟩
  rw [List.append_assoc]
  exact h.packets

/-- The update is released. -/
theorem Shown.release {u : CacheUpdate}
    (h : Shown i v (.update u :: todo) packets released tickCount xs) :
    Shown i v todo packets (released ++ [u]) tickCount xs := by
  obtain ⟨ticks, x, hsuffix⟩ := h.left
  refine ⟨⟨ticks, x, (List.suffix_cons _ _).trans hsuffix⟩, h.packets, ?_, h.ticks⟩
  rw [List.append_assoc]
  exact h.updates

/-- Packets and updates that are not the motor's do not matter. -/
theorem Shown.mono {packets' : List Packet} {released' : List CacheUpdate}
    (h : Shown i v todo packets released tickCount xs)
    (hpackets : sentOn i v packets' = sentOn i v packets)
    (hreleased : motorUpdates i released' = motorUpdates i released) :
    Shown i v todo packets' released' tickCount xs := by
  refine ⟨h.left, ?_, ?_, h.ticks⟩
  · rw [sentOn_append, hpackets, ← sentOn_append]
    exact h.packets
  · rw [motorUpdates_append, hreleased, ← motorUpdates_append]
    exact h.updates

end

variable {periodNs : RobotThread → ℕ} {r r' : Robot} {t : RobotThread} {steps : List RobotAction}
  {i : Fin 2} {v : MotorValue}

/-- The samples of a motor in a run, its packets and its updates. -/
def Shows (i : Fin 2) (v : MotorValue) (r : Robot) (steps : List RobotAction) : Prop :=
  Shown i v (todoOf (r.pc (motorThread i))) (r.packets.map Prod.fst) r.released (r.tickCount i)
    (measured i steps)

/-- What one more step adds to the samples of a motor. -/
theorem measured_snoc (i : Fin 2) (steps : List RobotAction) (a : RobotAction) :
    measured i (steps ++ [a]) = measured i steps ++ (sampleOf i a).toList := by
  rw [measured, List.filterMap_append]
  cases h : sampleOf i a with
  | none => simp [measured, h]
  | some x => simp [measured, h]

/-- A step that changes nothing for the motor. -/
theorem Shows.quiet {a : RobotAction} (h : Shows i v r steps)
    (htodo : todoOf (r'.pc (motorThread i)) = todoOf (r.pc (motorThread i)))
    (hpackets : sentOn i v (r'.packets.map Prod.fst) = sentOn i v (r.packets.map Prod.fst))
    (hreleased : motorUpdates i r'.released = motorUpdates i r.released)
    (hticks : r'.tickCount i = r.tickCount i) (ha : sampleOf i a = none) :
    Shows i v r' (steps ++ [a]) := by
  rw [Shows, htodo, hticks, measured_snoc, ha, Option.toList_none, List.append_nil]
  exact h.mono hpackets hreleased

/-- Steps of other threads change nothing for the motor. -/
theorem Shows.other {a : ThreadAction} (h : Shows i v r steps) (hfits : ∀ u, Fits u (r.pc u))
    (ht : t ≠ motorThread i) (hmove : ThreadMove periodNs r t a r') :
    Shows i v r' (steps ++ [.thread t a]) := by
  have htodo : todoOf (r'.pc (motorThread i)) = todoOf (r.pc (motorThread i)) := by
    rw [(runs_of_threadMove hmove).others _ (Ne.symm ht)]
  have hsample : sampleOf i (.thread t a) = none := by
    cases a with
    | compute x =>
      cases x with
      | motor y => exact if_neg ht
      | _ => rfl
    | _ => rfl
  have hown := hfits t
  cases hmove with
  | measured x todo tickCount hpc hx =>
    exact h.quiet htodo rfl rfl (tickCount_of_iteration ht hx) hsample
  | packetHanded p todo accepted hpc =>
    rw [hpc] at hown
    have hchannel : p.channel ≠ .motor i v := by
      intro heq
      have howner : Channel.owner p.channel = t := hown _ List.mem_cons_self
      rw [heq] at howner
      exact ht howner.symm
    refine h.quiet htodo ?_ rfl rfl hsample
    rw [List.map_append, sentOn_append]
    simp [sentOn, topic_inj, hchannel]
  | updateReleased u todo regs cache hpc hrelease =>
    rw [hpc] at hown
    have hmotor : ofMotor i u = none := by
      cases u with
      | motor j w =>
        refine if_neg fun heq => ht ?_
        have howner : CacheUpdate.owner (.motor j w) = t := hown.1
        rw [heq] at howner
        exact howner.symm
      | _ => rfl
    refine h.quiet htodo rfl ?_ rfl hsample
    rw [motorUpdates_append]
    simp [motorUpdates, hmotor]
  | _ => exact h.quiet htodo rfl rfl rfl hsample

/-- Steps of the thread of the motor. -/
theorem Shows.own {a : ThreadAction} (h : Shows i v r steps)
    (hmove : ThreadMove periodNs r (motorThread i) a r') :
    Shows i v r' (steps ++ [.thread (motorThread i) a]) := by
  cases hmove with
  | measured x todo tickCount hpc hx =>
    obtain ⟨y, rfl, rfl, rfl⟩ := iteration_motor hx
    have hsample : sampleOf i (.thread (motorThread i) (.compute (.motor y))) = some y := if_pos rfl
    rw [Shows, hpc] at h
    have hnext := Shown.measure h y
    rw [Shows, measured_snoc, hsample]
    simpa only [Robot.goto, Function.update_self, todoOf, Option.toList_some] using hnext
  | packetHanded p todo accepted hpc =>
    rw [Shows, hpc] at h
    have hnext := Shown.hand h
    rw [Shows, measured_snoc]
    simpa only [Robot.goto, Function.update_self, todoOf, sampleOf, Option.toList_none,
      List.append_nil, List.map_append, List.map_singleton] using hnext
  | updateReleased u todo regs cache hpc hrelease =>
    rw [Shows, hpc] at h
    have hnext := Shown.release h
    rw [Shows, measured_snoc]
    simpa only [Robot.goto, Robot.touch, Function.update_self, todoOf, sampleOf, Option.toList_none,
      List.append_nil] using hnext
  | operated cache hpc hop => exact h.quiet rfl rfl rfl rfl rfl
  | _ =>
    refine h.quiet ?_ rfl rfl rfl rfl
    rw [‹r.pc (motorThread i) = _›]
    exact (congrArg todoOf (Function.update_self (motorThread i) _ r.pc)).trans rfl

/-- Each step of the robot keeps the samples and what shows them together. -/
theorem Shows.move {a : RobotAction} (h : Shows i v r steps) (hfits : ∀ u, Fits u (r.pc u))
    (hstaged : Staged r) (hmove : Move periodNs r a r') : Shows i v r' (steps ++ [a]) := by
  cases hmove with
  | started t todo started hmain =>
    rw [Staged, hmain] at hstaged
    refine h.quiet ?_ rfl rfl rfl rfl
    show todoOf (Function.update r.pc t .connecting (motorThread i)) = _
    by_cases ht : motorThread i = t
    · rw [ht, Function.update_self, hstaged.2.1 t List.mem_cons_self]
      rfl
    · rw [Function.update_of_ne ht]
  | thread t a r' hmove =>
    by_cases ht : t = motorThread i
    · subst ht
      exact h.own hmove
    · exact h.other hfits ht hmove
  | _ => exact h.quiet rfl rfl rfl rfl rfl

end TelemetryPlatform.RobotPackets
