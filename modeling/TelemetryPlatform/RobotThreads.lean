import Mathlib.Data.Fin.VecNotation
import TelemetryPlatform.CachePublisher
import TelemetryPlatform.CriticalSections
import TelemetryPlatform.GuardedRuns
import TelemetryPlatform.HeldBlocks

/-!
# The threads of the robot

Four sensor threads and the publisher of the state share one cache behind a
lock. Inside the lock they store and load it word by word; every such access is
a step of its own, and so is each packet that a sensor hands to its MQTT client.
The main thread starts the threads in turn, stops all of them where a start
fails, and waits for their ends; the cache is a local variable of it. What the
simulated sensors measure comes from outside.
-/

namespace TelemetryPlatform.RobotThreads

open CachePublisher CriticalSections CStrings HeldBlocks TelemetryTypes

/-- A machine word of the cache. -/
abbrev Word := BitVec 32

/-- The words of the cache. -/
inductive CacheField where
  /-- Acceleration. -/
  | accG (i : Fin 3)
  /-- Angular rate. -/
  | gyroDps (i : Fin 3)
  /-- Tilt angles. -/
  | tiltDeg (i : Fin 3)
  /-- Tilt sensor status. -/
  | tiltStatus
  /-- Raw encoder counters. -/
  | motorTics (i : Fin 2)
  /-- Signed revolutions per minute. -/
  | motorRpm (i : Fin 2)
  /-- Signed degrees Celsius. -/
  | motorTempC (i : Fin 2)
  /-- Signed millivolts. -/
  | motorVoltageMv (i : Fin 2)
  /-- Signed milliamperes. -/
  | motorCurrentMa (i : Fin 2)
  /-- Counter of the updates. -/
  | seq
  deriving DecidableEq

/-- The memory of the cache, or the variables that it is copied to. -/
abbrev CacheWords := CacheField → Word

/-- One access to the cache. -/
inductive CacheOp where
  /-- Store a word. -/
  | store (f : CacheField) (w : Word)
  /-- Load a word into the variable of its own. -/
  | load (f : CacheField)
  /-- Store one more than the variable holds. -/
  | storeNext (f : CacheField)

/-- The effect of an access on the cache and on the variables of the thread. -/
def CacheOp.act : CacheOp → CacheWords × CacheWords → CacheWords × CacheWords
  | .store f w, (memory, regs) => (Function.update memory f w, regs)
  | .load f, (memory, regs) => (memory, Function.update regs f (memory f))
  | .storeNext f, (memory, regs) => (Function.update memory f (regs f + 1), regs)

/-- Stores of the components of a vector. -/
def storeVec (field : Fin 3 → CacheField) (v : Vec3) : List CacheOp :=
  [.store (field 0) v.x, .store (field 1) v.y, .store (field 2) v.z]

/-- The increment of the counter. -/
def countUpdate : List CacheOp := [.load .seq, .storeNext .seq]

/-- The accesses of telemetry_cache_set_imu. -/
def setImuOps (acc gyro : Vec3) : List CacheOp :=
  storeVec .accG acc ++ storeVec .gyroDps gyro ++ countUpdate

/-- The accesses of telemetry_cache_set_tilt. -/
def setTiltOps (deg : Vec3) (status : Word) : List CacheOp :=
  storeVec .tiltDeg deg ++ [.store .tiltStatus status] ++ countUpdate

/-- The accesses of telemetry_cache_set_motor for a motor that exists. -/
def setMotorOps (idx : Fin 2) (u : MotorUpdate) : List CacheOp :=
  [.store (.motorTics idx) u.tics, .store (.motorRpm idx) u.rpm,
    .store (.motorTempC idx) u.temperatureC, .store (.motorVoltageMv idx) u.voltagePowerStageMv,
    .store (.motorCurrentMa idx) u.currentPowerStageMa] ++ countUpdate

/-- Loads of the words of an array. -/
def loadAll {n : ℕ} (field : Fin n → CacheField) : List CacheOp :=
  (List.finRange n).map fun i => .load (field i)

/-- The accesses of telemetry_cache_get. -/
def getOps : List CacheOp :=
  loadAll .accG ++ loadAll .gyroDps ++ loadAll .tiltDeg ++ [.load .tiltStatus] ++
    loadAll .motorTics ++ loadAll .motorRpm ++ loadAll .motorTempC ++ loadAll .motorVoltageMv ++
    loadAll .motorCurrentMa ++ [.load .seq]

/-- The cache that the words hold. -/
def cacheOf (words : CacheWords) : TelemetryCache where
  accG := ⟨words (.accG 0), words (.accG 1), words (.accG 2)⟩
  gyroDps := ⟨words (.gyroDps 0), words (.gyroDps 1), words (.gyroDps 2)⟩
  tiltDeg := ⟨words (.tiltDeg 0), words (.tiltDeg 1), words (.tiltDeg 2)⟩
  tiltStatus := words .tiltStatus
  motorTics i := words (.motorTics i)
  motorRpm i := words (.motorRpm i)
  motorTempC i := words (.motorTempC i)
  motorVoltageMv i := words (.motorVoltageMv i)
  motorCurrentMa i := words (.motorCurrentMa i)
  seq := words .seq

/-- Zeroed words. -/
def zeroWords : CacheWords := fun _ => 0

/-- An update of the cache by a sensor. -/
inductive CacheUpdate where
  /-- By the IMU. -/
  | imu (acc gyro : Vec3)
  /-- By the tilt sensor. -/
  | tilt (deg : Vec3) (status : Word)
  /-- By a motor. -/
  | motor (i : Fin 2) (u : MotorUpdate)

/-- The accesses of an update. -/
def CacheUpdate.ops : CacheUpdate → List CacheOp
  | .imu acc gyro => setImuOps acc gyro
  | .tilt deg status => setTiltOps deg status
  | .motor i u => setMotorOps i u

/-- A byte of a word, counted from the lowest. -/
def byteAt {w : ℕ} (v : BitVec w) (k : ℕ) : UInt8 := UInt8.ofNat ((v >>> (8 * k)).toNat % 256)

/-- Sixteen unsigned bits, lowest byte first. -/
def packU16Le (v : BitVec 16) : Bytes := [byteAt v 0, byteAt v 1]

/-- Sixteen signed bits, lowest byte first. -/
def packI16Le (v : BitVec 16) : Bytes := packU16Le v

/-- Thirty-two unsigned bits, lowest byte first. -/
def packU32Le (v : BitVec 32) : Bytes := [byteAt v 0, byteAt v 1, byteAt v 2, byteAt v 3]

/-- Thirty-two signed bits, lowest byte first. -/
def packI32Le (v : BitVec 32) : Bytes := packU32Le v

/-- A number as sixteen signed bits, the nearest that there is. -/
def clampI16 (v : ℤ) : BitVec 16 :=
  if 32767 < v then BitVec.ofInt 16 32767
  else if v < -32768 then BitVec.ofInt 16 (-32768)
  else BitVec.ofInt 16 v

/-- A number as thirty-two signed bits, the nearest that there is. -/
def clampI32Ll (v : ℤ) : BitVec 32 :=
  if 2147483647 < v then BitVec.ofInt 32 2147483647
  else if v < -2147483648 then BitVec.ofInt 32 (-2147483648)
  else BitVec.ofInt 32 v

/-- Three counts of an acceleration, a rate or a tilt. -/
structure Counts where
  /-- First component. -/
  x : ℤ
  /-- Second component. -/
  y : ℤ
  /-- Third component. -/
  z : ℤ

/-- Three counts, clamped and packed. -/
def packCounts (c : Counts) : Bytes :=
  packI16Le (clampI16 c.x) ++ packI16Le (clampI16 c.y) ++ packI16Le (clampI16 c.z)

/-- What the IMU measures: real units, and rounded counts of the sensor. -/
structure ImuSample where
  /-- Acceleration. -/
  acc : Vec3
  /-- Angular rate. -/
  gyro : Vec3
  /-- Counts of the acceleration. -/
  accCounts : Counts
  /-- Counts of the angular rate. -/
  gyroCounts : Counts

/-- What the tilt sensor measures. -/
structure TiltSample where
  /-- Angles. -/
  deg : Vec3
  /-- Counts of the angles. -/
  counts : Counts

/-- What a motor measures, rounded to integers. -/
structure MotorSample where
  /-- Encoder ticks since the last sample. -/
  ticksInc : BitVec 32
  /-- Revolutions per minute. -/
  rpm : ℤ
  /-- Degrees Celsius. -/
  tempC : ℤ
  /-- Millivolts. -/
  vPsMV : ℤ
  /-- Milliamperes. -/
  iPsMA : ℤ

/-- A sample of any sensor. -/
inductive Sample where
  /-- Of the IMU. -/
  | imu (x : ImuSample)
  /-- Of the tilt sensor. -/
  | tilt (x : TiltSample)
  /-- Of a motor. -/
  | motor (x : MotorSample)

/-- What a motor sends. -/
inductive MotorValue where
  /-- Encoder counter. -/
  | tics
  /-- Revolutions per minute. -/
  | rpm
  /-- Temperature. -/
  | temperature
  /-- Voltage of the power stage. -/
  | voltagePowerStage
  /-- Current of the power stage. -/
  | currentPowerStage
  deriving DecidableEq

/-- The last part of the topic of a motor. -/
def MotorValue.name : MotorValue → Bytes
  | .tics => lit "tics"
  | .rpm => lit "rpm"
  | .temperature => lit "temperature"
  | .voltagePowerStage => lit "voltage_power_stage"
  | .currentPowerStage => lit "current_power_stage"

/-- The topics of the raw packets. -/
inductive Channel where
  /-- Acceleration. -/
  | imuAcc
  /-- Angular rate. -/
  | imuGyro
  /-- Tilt angles and status. -/
  | tilt
  /-- A value of a motor. -/
  | motor (i : Fin 2) (v : MotorValue)
  deriving DecidableEq

/-- The text of a topic. -/
def Channel.topic : Channel → Bytes
  | .imuAcc => lit "/robot/sensors/imu0/acc"
  | .imuGyro => lit "/robot/sensors/imu0/gyro"
  | .tilt => lit "/robot/sensors/tilt0/tilt"
  | .motor i v =>
    (if i = firstMotor then lit "/robot/sensors/motor1/" else lit "/robot/sensors/motor2/") ++ v.name

/-- A raw packet. -/
structure Packet where
  /-- Its topic. -/
  channel : Channel
  /-- Its payload. -/
  payload : Bytes

/-- What a sensor does with a sample, one after the other. -/
inductive Act where
  /-- Hand a packet to the MQTT client. -/
  | publish (p : Packet)
  /-- Update the cache. -/
  | update (u : CacheUpdate)

/-- The body of the loop of the IMU thread. -/
def imuIteration (x : ImuSample) : List Act :=
  [.publish ⟨.imuAcc, packCounts x.accCounts⟩, .update (.imu x.acc x.gyro),
    .publish ⟨.imuGyro, packCounts x.gyroCounts⟩]

/-- The body of the loop of the tilt thread; the status is always zero. -/
def tiltIteration (x : TiltSample) : List Act :=
  [.update (.tilt x.deg ((0 : BitVec 16).setWidth 32)),
    .publish ⟨.tilt, packCounts x.counts ++ packU16Le 0⟩]

/-- The values of a motor sample after the ticks were counted. -/
def motorUpdate (tickCount : BitVec 32) (x : MotorSample) : MotorUpdate where
  tics := tickCount
  rpm := (clampI16 x.rpm).signExtend 32
  temperatureC := (clampI16 x.tempC).signExtend 32
  voltagePowerStageMv := clampI32Ll x.vPsMV
  currentPowerStageMa := clampI32Ll x.iPsMA

/-- The body of the loop of a motor thread. -/
def motorIteration (i : Fin 2) (tickCount : BitVec 32) (x : MotorSample) : List Act :=
  [.update (.motor i (motorUpdate tickCount x)),
    .publish ⟨.motor i .tics, packU32Le tickCount⟩,
    .publish ⟨.motor i .rpm, packI16Le (clampI16 x.rpm)⟩,
    .publish ⟨.motor i .temperature, packI16Le (clampI16 x.tempC)⟩,
    .publish ⟨.motor i .voltagePowerStage, packI32Le (clampI32Ll x.vPsMV)⟩,
    .publish ⟨.motor i .currentPowerStage, packI32Le (clampI32Ll x.iPsMA)⟩]

/-- The threads that the main thread starts. -/
inductive RobotThread where
  /-- The IMU. -/
  | imu
  /-- The tilt sensor. -/
  | tilt
  /-- The first motor. -/
  | motor1
  /-- The second motor. -/
  | motor2
  /-- The publisher of the state. -/
  | state
  deriving DecidableEq

/-- A point of the monotonic clock. -/
structure Timespec where
  /-- Seconds. -/
  tvSec : ℤ
  /-- Nanoseconds. -/
  tvNsec : ℕ
  deriving DecidableEq

/-- Nanoseconds of a second. -/
def nsPerSec : ℕ := 1000000000

/-- Carry whole seconds over from the nanoseconds, as long as there are any; the
first argument bounds the number of turns. -/
def carrySeconds : ℕ → Timespec → Timespec
  | 0, next => next
  | turns + 1, next =>
    if nsPerSec ≤ next.tvNsec then carrySeconds turns ⟨next.tvSec + 1, next.tvNsec - nsPerSec⟩
    else next

/-- The point up to which sleep_until_next_tick sleeps. -/
def nextTick (next : Timespec) (periodNs : ℕ) : Timespec :=
  let tvNsec := next.tvNsec + periodNs
  carrySeconds (tvNsec / nsPerSec) ⟨next.tvSec, tvNsec⟩

/-- Where a thread stands. -/
inductive ThreadPc where
  /-- It was not created. -/
  | absent
  /-- Connecting its MQTT client. -/
  | connecting
  /-- At the head of its loop. -/
  | head
  /-- Measuring, or about to read the cache. -/
  | computing
  /-- The rest of what it does with a sample. -/
  | acting (todo : List Act)
  /-- Updating the cache. -/
  | updating (u : CacheUpdate) (todo : List Act)
  /-- Reading the cache. -/
  | reading
  /-- The cache is read. -/
  | stamping (snapshot : CacheWords)
  /-- The message is filled. -/
  | allocating (msg : TelemetryStateMsg)
  /-- The message is packed. -/
  | publishing (msg : TelemetryStateMsg)
  /-- There was no memory for the message. -/
  | retrying
  /-- Sleeping until the next tick. -/
  | sleeping
  /-- Closing its MQTT client. -/
  | closing
  /-- It has ended. -/
  | exited

/-- Where the main thread stands. -/
inductive MainPc where
  /-- Starting these threads after those. -/
  | starting (todo started : List RobotThread)
  /-- Waiting for the ends of these threads. -/
  | joining (todo : List RobotThread) (status : ℕ)
  /-- It has returned, and the cache is gone. -/
  | returned (status : ℕ)

/-- The robot and its threads. The fields from released on record what
happened; the code does not read them. -/
structure Robot where
  /-- The running flag. -/
  running : Bool
  /-- The cache behind its lock. -/
  cache : Locked RobotThread CacheOp CacheWords CacheWords
  /-- Where each thread stands. -/
  pc : RobotThread → ThreadPc
  /-- The next tick of each thread. -/
  next : RobotThread → Timespec
  /-- The encoder counters. -/
  tickCount : Fin 2 → BitVec 32
  /-- The argument block of each thread. -/
  args : RobotThread → Option ℕ
  /-- The memory of the argument blocks. -/
  blocks : Blocks
  /-- The main thread. -/
  main : MainPc
  /-- Packets handed to the MQTT clients, and whether they were accepted. -/
  packets : List (Packet × Bool)
  /-- Messages that the MQTT client of the publisher has accepted. -/
  published : List TelemetryStateMsg
  /-- Updates whose lock was given back. -/
  released : List CacheUpdate
  /-- How many of them there were when the publisher last gave its lock back. -/
  seen : ℕ
  /-- How many of them the accepted messages have seen. -/
  sources : List ℕ
  /-- Whether a thread has used the cache after the end of the main thread. -/
  strayed : Bool

/-- The threads in the order of their start. -/
def startOrder : List RobotThread := [.imu, .tilt, .motor1, .motor2, .state]

/-- The robot after the cache is set up. -/
def Robot.init : Robot where
  running := true
  cache := ⟨zeroWords, none⟩
  pc := fun _ => .absent
  next := fun _ => ⟨0, 0⟩
  tickCount := fun _ => 0
  args := fun _ => none
  blocks := Blocks.init
  main := .starting startOrder []
  packets := []
  published := []
  released := []
  seen := 0
  sources := []
  strayed := false

/-- How the start of a thread ends. -/
inductive StartOutcome where
  /-- There is no memory for its arguments. -/
  | noMemory
  /-- The thread was not created. -/
  | noThread
  /-- The thread runs. -/
  | created
  deriving DecidableEq

/-- Steps of the threads, with what the calls in them return. -/
inductive ThreadAction where
  /-- Connect, and read the monotonic clock where this succeeds. -/
  | connect (ok : Bool) (now : Timespec)
  /-- Read the running flag. -/
  | head
  /-- Measure. -/
  | compute (x : Sample)
  /-- Hand the next packet to the MQTT client. -/
  | publishPacket (accepted : Bool)
  /-- Take the lock of the cache. -/
  | lock
  /-- The next access to the cache. -/
  | operate
  /-- Give the lock back. -/
  | unlock
  /-- Read the clock and fill the message. -/
  | stamp (timestampNs : BitVec 64)
  /-- Allocate the message and pack it. -/
  | allocate (ok : Bool)
  /-- Begin again after a failed allocation. -/
  | retry
  /-- Hand the message to the MQTT client. -/
  | publishState (accepted : Bool)
  /-- Advance the tick and fall asleep. -/
  | tick
  /-- Wake up. -/
  | wake
  /-- Close the MQTT client and free the arguments. -/
  | close

/-- Steps of the robot. -/
inductive RobotAction where
  /-- A signal clears the running flag. -/
  | signal
  /-- The main thread starts the next thread. -/
  | start (outcome : StartOutcome)
  /-- The main thread goes on to wait, waits for one thread, or returns. -/
  | join
  /-- A step of a thread. -/
  | thread (t : RobotThread) (a : ThreadAction)

/-- Steps of one thread. -/
def stepsOf (t : RobotThread) (steps : List ThreadAction) : List RobotAction := steps.map (.thread t)

/-- The step leads the thread to another place. -/
def Robot.goto (r : Robot) (t : RobotThread) (pc : ThreadPc) : Robot :=
  { r with pc := Function.update r.pc t pc }

/-- Whether the cache still exists. -/
def Robot.alive (r : Robot) : Bool :=
  match r.main with
  | .returned _ => false
  | _ => true

/-- The thread accesses the cache or its lock. -/
def Robot.touch (r : Robot) : Robot := { r with strayed := r.strayed || !r.alive }

/-- The thread reads its arguments. -/
def Robot.readArgs (r : Robot) (t : RobotThread) : Robot :=
  { r with blocks := r.blocks.readAt (r.args t) }

/-- The IMU and the tilt sensor read their rate behind the tick, the other
threads read nothing there. -/
def Robot.readRate (r : Robot) (t : RobotThread) : Robot :=
  { r with blocks := r.blocks.readAt (if t = .imu ∨ t = .tilt then r.args t else none) }

/-- The thread frees its arguments. -/
def Robot.freeArgs (r : Robot) (t : RobotThread) : Robot :=
  { r with blocks := r.blocks.freeAt (r.args t), args := Function.update r.args t none }

/-- What a sensor does with a sample, and the encoder counters after it. -/
def iteration (tickCount : Fin 2 → BitVec 32) :
    RobotThread → Sample → Option (List Act × (Fin 2 → BitVec 32))
  | .imu, .imu x => some (imuIteration x, tickCount)
  | .tilt, .tilt x => some (tiltIteration x, tickCount)
  | .motor1, .motor x =>
    let count := tickCount firstMotor + x.ticksInc
    some (motorIteration firstMotor count x, Function.update tickCount firstMotor count)
  | .motor2, .motor x =>
    let count := tickCount secondMotor + x.ticksInc
    some (motorIteration secondMotor count x, Function.update tickCount secondMotor count)
  | _, _ => none

/-- The thread holds the lock and is about to do these accesses. -/
def lockCache (r : Robot) (t : RobotThread) (ops : List CacheOp) (pc : ThreadPc) : Option Robot :=
  (r.cache.acquire ⟨t, zeroWords, ops⟩).map fun cache =>
    { (r.touch.readArgs t).goto t pc with cache := cache }

/-- Steps of the sensor threads and of the publisher. -/
def threadStep (periodNs : RobotThread → ℕ) (r : Robot) (t : RobotThread) :
    ThreadAction → Option Robot
  | .connect ok now =>
    match r.pc t with
    | .connecting =>
      if ok = true then
        some { (r.readArgs t).goto t .head with next := Function.update r.next t now }
      else some (((r.readArgs t).freeArgs t).goto t .exited)
    | _ => none
  | .head =>
    match r.pc t with
    | .head => some ((r.readArgs t).goto t (if r.running = true then .computing else .closing))
    | _ => none
  | .compute x =>
    match r.pc t with
    | .computing =>
      (iteration r.tickCount t x).map fun y => { r.goto t (.acting y.1) with tickCount := y.2 }
    | _ => none
  | .publishPacket accepted =>
    match r.pc t with
    | .acting (.publish p :: todo) =>
      some { r.goto t (.acting todo) with packets := r.packets ++ [(p, accepted)] }
    | _ => none
  | .lock =>
    match r.pc t with
    | .acting (.update u :: todo) => lockCache r t u.ops (.updating u todo)
    | .computing => if t = .state then lockCache r t getOps .reading else none
    | _ => none
  | .operate =>
    match r.pc t with
    | .updating _ _ | .reading =>
      (r.cache.operate CacheOp.act t).map fun cache => { r.touch with cache := cache }
    | _ => none
  | .unlock =>
    match r.pc t with
    | .updating u todo =>
      (r.cache.release t).map fun x =>
        { r.touch.goto t (.acting todo) with cache := x.2, released := r.released ++ [u] }
    | .reading =>
      (r.cache.release t).map fun x =>
        { r.touch.goto t (.stamping x.1) with cache := x.2, seen := r.released.length }
    | _ => none
  | .stamp timestampNs =>
    match r.pc t with
    | .stamping snapshot =>
      some ((r.readArgs t).goto t
        (.allocating (telemetryPubMessage (cacheOf snapshot) timestampNs)))
    | _ => none
  | .allocate ok =>
    match r.pc t with
    | .allocating msg => some (r.goto t (if ok = true then .publishing msg else .retrying))
    | _ => none
  | .retry =>
    match r.pc t with
    | .retrying => some (r.goto t .head)
    | _ => none
  | .publishState accepted =>
    match r.pc t with
    | .publishing msg =>
      if accepted = true then
        some { r.goto t (.acting []) with
          published := r.published ++ [msg]
          sources := r.sources ++ [r.seen] }
      else some (r.goto t (.acting []))
    | _ => none
  | .tick =>
    match r.pc t with
    | .acting [] =>
      some { r.goto t .sleeping with
        next := Function.update r.next t (nextTick (r.next t) (periodNs t)) }
    | _ => none
  | .wake =>
    match r.pc t with
    | .sleeping => some ((r.readRate t).goto t .head)
    | _ => none
  | .close =>
    match r.pc t with
    | .closing => some ((r.freeArgs t).goto t .exited)
    | _ => none

/-- The main thread starts the next thread. Where this fails it stops those that
it has started, if there are any. -/
def startStep (r : Robot) (outcome : StartOutcome) : Option Robot :=
  match r.main with
  | .starting (t :: todo) started =>
    let (block, blocks) := r.blocks.alloc
    match outcome with
    | .created =>
      some { r.goto t .connecting with
        args := Function.update r.args t (some block)
        blocks := blocks
        main := .starting todo (started ++ [t]) }
    | .noThread =>
      some { r with
        running := r.running && started.isEmpty
        blocks := blocks.free block
        main := .joining started 1 }
    | .noMemory =>
      some { r with
        running := r.running && started.isEmpty
        main := .joining started 1 }
  | _ => none

/-- The main thread waits for the threads, one after the other, and returns. -/
def joinStep (r : Robot) : Option Robot :=
  match r.main with
  | .starting [] started => some { r with main := .joining started 0 }
  | .joining (t :: todo) status =>
    match r.pc t with
    | .exited => some { r with main := .joining todo status }
    | _ => none
  | .joining [] status => some { r with main := .returned status }
  | _ => none

/-- One step of the robot. -/
def robotStep (periodNs : RobotThread → ℕ) (r : Robot) : RobotAction → Option Robot
  | .signal => some { r with running := false }
  | .start outcome => startStep r outcome
  | .join => joinStep r
  | .thread t a => threadStep periodNs r t a

/-- The steps of a thread with the states they lead to. -/
inductive ThreadMove (periodNs : RobotThread → ℕ) (r : Robot) (t : RobotThread) :
    ThreadAction → Robot → Prop
  /-- It has connected. -/
  | connected (now : Timespec) (hpc : r.pc t = .connecting) :
      ThreadMove periodNs r t (.connect true now)
        { (r.readArgs t).goto t .head with next := Function.update r.next t now }
  /-- It cannot connect. -/
  | unconnected (now : Timespec) (hpc : r.pc t = .connecting) :
      ThreadMove periodNs r t (.connect false now) (((r.readArgs t).freeArgs t).goto t .exited)
  /-- It begins a turn of its loop. -/
  | turned (hpc : r.pc t = .head) (hrunning : r.running = true) :
      ThreadMove periodNs r t .head ((r.readArgs t).goto t .computing)
  /-- It leaves its loop. -/
  | ended (hpc : r.pc t = .head) (hrunning : r.running = false) :
      ThreadMove periodNs r t .head ((r.readArgs t).goto t .closing)
  /-- A sensor has measured. -/
  | measured (x : Sample) (todo : List Act) (tickCount : Fin 2 → BitVec 32)
      (hpc : r.pc t = .computing) (hx : iteration r.tickCount t x = some (todo, tickCount)) :
      ThreadMove periodNs r t (.compute x) { r.goto t (.acting todo) with tickCount := tickCount }
  /-- A packet is handed to the MQTT client. -/
  | packetHanded (p : Packet) (todo : List Act) (accepted : Bool)
      (hpc : r.pc t = .acting (.publish p :: todo)) :
      ThreadMove periodNs r t (.publishPacket accepted)
        { r.goto t (.acting todo) with packets := r.packets ++ [(p, accepted)] }
  /-- A sensor has the lock for an update. -/
  | updateBegun (u : CacheUpdate) (todo : List Act)
      (cache : Locked RobotThread CacheOp CacheWords CacheWords)
      (hpc : r.pc t = .acting (.update u :: todo))
      (hlock : r.cache.acquire ⟨t, zeroWords, u.ops⟩ = some cache) :
      ThreadMove periodNs r t .lock
        { (r.touch.readArgs t).goto t (.updating u todo) with cache := cache }
  /-- The publisher has the lock for its reads. -/
  | readBegun (cache : Locked RobotThread CacheOp CacheWords CacheWords)
      (hpc : r.pc t = .computing) (ht : t = .state)
      (hlock : r.cache.acquire ⟨t, zeroWords, getOps⟩ = some cache) :
      ThreadMove periodNs r t .lock { (r.touch.readArgs t).goto t .reading with cache := cache }
  /-- One access to the cache. -/
  | operated (cache : Locked RobotThread CacheOp CacheWords CacheWords)
      (hpc : (∃ u todo, r.pc t = .updating u todo) ∨ r.pc t = .reading)
      (hop : r.cache.operate CacheOp.act t = some cache) :
      ThreadMove periodNs r t .operate { r.touch with cache := cache }
  /-- The lock is given back after an update. -/
  | updateReleased (u : CacheUpdate) (todo : List Act) (regs : CacheWords)
      (cache : Locked RobotThread CacheOp CacheWords CacheWords)
      (hpc : r.pc t = .updating u todo) (hrelease : r.cache.release t = some (regs, cache)) :
      ThreadMove periodNs r t .unlock { r.touch.goto t (.acting todo) with
        cache := cache
        released := r.released ++ [u] }
  /-- The lock is given back after the reads. -/
  | readReleased (snapshot : CacheWords)
      (cache : Locked RobotThread CacheOp CacheWords CacheWords)
      (hpc : r.pc t = .reading) (hrelease : r.cache.release t = some (snapshot, cache)) :
      ThreadMove periodNs r t .unlock { r.touch.goto t (.stamping snapshot) with
        cache := cache
        seen := r.released.length }
  /-- The message is filled. -/
  | stamped (snapshot : CacheWords) (timestampNs : BitVec 64) (hpc : r.pc t = .stamping snapshot) :
      ThreadMove periodNs r t (.stamp timestampNs)
        ((r.readArgs t).goto t
          (.allocating (telemetryPubMessage (cacheOf snapshot) timestampNs)))
  /-- The message is packed. -/
  | allocated (msg : TelemetryStateMsg) (hpc : r.pc t = .allocating msg) :
      ThreadMove periodNs r t (.allocate true) (r.goto t (.publishing msg))
  /-- There is no memory for the message. -/
  | unallocated (msg : TelemetryStateMsg) (hpc : r.pc t = .allocating msg) :
      ThreadMove periodNs r t (.allocate false) (r.goto t .retrying)
  /-- The publisher begins again. -/
  | retried (hpc : r.pc t = .retrying) : ThreadMove periodNs r t .retry (r.goto t .head)
  /-- The MQTT client accepts the message. -/
  | stateAccepted (msg : TelemetryStateMsg) (hpc : r.pc t = .publishing msg) :
      ThreadMove periodNs r t (.publishState true) { r.goto t (.acting []) with
        published := r.published ++ [msg]
        sources := r.sources ++ [r.seen] }
  /-- The MQTT client refuses the message. -/
  | stateRefused (msg : TelemetryStateMsg) (hpc : r.pc t = .publishing msg) :
      ThreadMove periodNs r t (.publishState false) (r.goto t (.acting []))
  /-- The tick is advanced. -/
  | ticked (hpc : r.pc t = .acting []) :
      ThreadMove periodNs r t .tick { r.goto t .sleeping with
        next := Function.update r.next t (nextTick (r.next t) (periodNs t)) }
  /-- The thread wakes up. -/
  | woke (hpc : r.pc t = .sleeping) : ThreadMove periodNs r t .wake ((r.readRate t).goto t .head)
  /-- The thread ends. -/
  | closed (hpc : r.pc t = .closing) :
      ThreadMove periodNs r t .close ((r.freeArgs t).goto t .exited)

variable {periodNs : RobotThread → ℕ} {r r' : Robot} {t : RobotThread}

/-- Steps of a thread. -/
theorem threadStep_cases {a : ThreadAction} (hstep : threadStep periodNs r t a = some r') :
    ThreadMove periodNs r t a r' := by
  cases a with
  | connect ok now =>
    cases hpc : r.pc t with
    | connecting =>
      simp only [threadStep, hpc] at hstep
      cases ok <;> cases hstep
      · exact .unconnected now hpc
      · exact .connected now hpc
    | _ => simp [threadStep, hpc] at hstep
  | head =>
    cases hpc : r.pc t with
    | head =>
      simp only [threadStep, hpc] at hstep
      cases hrunning : r.running <;> rw [hrunning] at hstep <;> cases hstep
      · exact .ended hpc hrunning
      · exact .turned hpc hrunning
    | _ => simp [threadStep, hpc] at hstep
  | compute x =>
    cases hpc : r.pc t with
    | computing =>
      simp only [threadStep, hpc] at hstep
      obtain ⟨⟨todo, tickCount⟩, hx, rfl⟩ := Option.map_eq_some_iff.mp hstep
      exact .measured x todo tickCount hpc hx
    | _ => simp [threadStep, hpc] at hstep
  | publishPacket accepted =>
    cases hpc : r.pc t with
    | acting todo =>
      cases todo with
      | nil => simp [threadStep, hpc] at hstep
      | cons act todo =>
        cases act with
        | publish p =>
          simp only [threadStep, hpc] at hstep
          cases hstep
          exact .packetHanded p todo accepted hpc
        | update u => simp [threadStep, hpc] at hstep
    | _ => simp [threadStep, hpc] at hstep
  | lock =>
    cases hpc : r.pc t with
    | acting todo =>
      cases todo with
      | nil => simp [threadStep, hpc] at hstep
      | cons act todo =>
        cases act with
        | publish p => simp [threadStep, hpc] at hstep
        | update u =>
          simp only [threadStep, hpc, lockCache] at hstep
          obtain ⟨cache, hlock, rfl⟩ := Option.map_eq_some_iff.mp hstep
          exact .updateBegun u todo cache hpc hlock
    | computing =>
      simp only [threadStep, hpc, lockCache] at hstep
      split_ifs at hstep with ht
      obtain ⟨cache, hlock, rfl⟩ := Option.map_eq_some_iff.mp hstep
      exact .readBegun cache hpc ht hlock
    | _ => simp [threadStep, hpc] at hstep
  | operate =>
    cases hpc : r.pc t with
    | updating u todo =>
      simp only [threadStep, hpc] at hstep
      obtain ⟨cache, hop, rfl⟩ := Option.map_eq_some_iff.mp hstep
      exact .operated cache (.inl ⟨u, todo, hpc⟩) hop
    | reading =>
      simp only [threadStep, hpc] at hstep
      obtain ⟨cache, hop, rfl⟩ := Option.map_eq_some_iff.mp hstep
      exact .operated cache (.inr hpc) hop
    | _ => simp [threadStep, hpc] at hstep
  | unlock =>
    cases hpc : r.pc t with
    | updating u todo =>
      simp only [threadStep, hpc] at hstep
      obtain ⟨⟨regs, cache⟩, hrelease, rfl⟩ := Option.map_eq_some_iff.mp hstep
      exact .updateReleased u todo regs cache hpc hrelease
    | reading =>
      simp only [threadStep, hpc] at hstep
      obtain ⟨⟨snapshot, cache⟩, hrelease, rfl⟩ := Option.map_eq_some_iff.mp hstep
      exact .readReleased snapshot cache hpc hrelease
    | _ => simp [threadStep, hpc] at hstep
  | stamp timestampNs =>
    cases hpc : r.pc t with
    | stamping snapshot =>
      simp only [threadStep, hpc] at hstep
      cases hstep
      exact .stamped snapshot timestampNs hpc
    | _ => simp [threadStep, hpc] at hstep
  | allocate ok =>
    cases hpc : r.pc t with
    | allocating msg =>
      simp only [threadStep, hpc] at hstep
      cases ok <;> cases hstep
      · exact .unallocated msg hpc
      · exact .allocated msg hpc
    | _ => simp [threadStep, hpc] at hstep
  | retry =>
    cases hpc : r.pc t with
    | retrying =>
      simp only [threadStep, hpc] at hstep
      cases hstep
      exact .retried hpc
    | _ => simp [threadStep, hpc] at hstep
  | publishState accepted =>
    cases hpc : r.pc t with
    | publishing msg =>
      simp only [threadStep, hpc] at hstep
      cases accepted <;> cases hstep
      · exact .stateRefused msg hpc
      · exact .stateAccepted msg hpc
    | _ => simp [threadStep, hpc] at hstep
  | tick =>
    cases hpc : r.pc t with
    | acting todo =>
      cases todo with
      | nil =>
        simp only [threadStep, hpc] at hstep
        cases hstep
        exact .ticked hpc
      | cons act todo => simp [threadStep, hpc] at hstep
    | _ => simp [threadStep, hpc] at hstep
  | wake =>
    cases hpc : r.pc t with
    | sleeping =>
      simp only [threadStep, hpc] at hstep
      cases hstep
      exact .woke hpc
    | _ => simp [threadStep, hpc] at hstep
  | close =>
    cases hpc : r.pc t with
    | closing =>
      simp only [threadStep, hpc] at hstep
      cases hstep
      exact .closed hpc
    | _ => simp [threadStep, hpc] at hstep

/-- The steps of the robot with the states they lead to. -/
inductive Move (periodNs : RobotThread → ℕ) (r : Robot) : RobotAction → Robot → Prop
  /-- A signal arrives. -/
  | signalled : Move periodNs r .signal { r with running := false }
  /-- A thread is started. -/
  | started (t : RobotThread) (todo started : List RobotThread)
      (hmain : r.main = .starting (t :: todo) started) :
      Move periodNs r (.start .created) { r.goto t .connecting with
        args := Function.update r.args t (some r.blocks.alloc.1)
        blocks := r.blocks.alloc.2
        main := .starting todo (started ++ [t]) }
  /-- A thread is not created. -/
  | unstarted (t : RobotThread) (todo started : List RobotThread)
      (hmain : r.main = .starting (t :: todo) started) :
      Move periodNs r (.start .noThread) { r with
        running := r.running && started.isEmpty
        blocks := r.blocks.alloc.2.free r.blocks.alloc.1
        main := .joining started 1 }
  /-- There is no memory for the arguments of a thread. -/
  | outOfMemory (t : RobotThread) (todo started : List RobotThread)
      (hmain : r.main = .starting (t :: todo) started) :
      Move periodNs r (.start .noMemory) { r with
        running := r.running && started.isEmpty
        main := .joining started 1 }
  /-- All threads are started. -/
  | waiting (started : List RobotThread) (hmain : r.main = .starting [] started) :
      Move periodNs r .join { r with main := .joining started 0 }
  /-- One thread has ended. -/
  | joined (t : RobotThread) (todo : List RobotThread) (status : ℕ)
      (hmain : r.main = .joining (t :: todo) status) (hpc : r.pc t = .exited) :
      Move periodNs r .join { r with main := .joining todo status }
  /-- The main thread returns. -/
  | returned (status : ℕ) (hmain : r.main = .joining [] status) :
      Move periodNs r .join { r with main := .returned status }
  /-- A thread takes a step. -/
  | thread (t : RobotThread) (a : ThreadAction) (r' : Robot) (h : ThreadMove periodNs r t a r') :
      Move periodNs r (.thread t a) r'

/-- Every step is one of these. -/
theorem robotStep_cases {a : RobotAction} (hstep : robotStep periodNs r a = some r') :
    Move periodNs r a r' := by
  cases a with
  | signal =>
    cases hstep
    exact .signalled
  | start outcome =>
    cases hmain : r.main with
    | starting todo started =>
      cases todo with
      | nil => simp [robotStep, startStep, hmain] at hstep
      | cons t todo =>
        simp only [robotStep, startStep, hmain] at hstep
        cases outcome <;> cases hstep
        · exact .outOfMemory t todo started hmain
        · exact .unstarted t todo started hmain
        · exact .started t todo started hmain
    | _ => simp [robotStep, startStep, hmain] at hstep
  | join =>
    cases hmain : r.main with
    | starting todo started =>
      cases todo with
      | nil =>
        simp only [robotStep, joinStep, hmain] at hstep
        cases hstep
        exact .waiting started hmain
      | cons t todo => simp [robotStep, joinStep, hmain] at hstep
    | joining todo status =>
      cases todo with
      | nil =>
        simp only [robotStep, joinStep, hmain] at hstep
        cases hstep
        exact .returned status hmain
      | cons t todo =>
        simp only [robotStep, joinStep, hmain] at hstep
        cases hpc : r.pc t with
        | exited =>
          simp only [hpc] at hstep
          cases hstep
          exact .joined t todo status hmain hpc
        | _ => simp [hpc] at hstep
    | returned status => simp [robotStep, joinStep, hmain] at hstep
  | thread t a => exact .thread t a r' (threadStep_cases hstep)

end TelemetryPlatform.RobotThreads
