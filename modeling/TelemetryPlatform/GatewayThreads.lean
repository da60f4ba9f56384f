import Mathlib.Data.Int.Notation
import TelemetryPlatform.GuardedRuns
import TelemetryPlatform.HeldBlocks
import TelemetryPlatform.SampleQueue
import TelemetryPlatform.WriterThread

/-!
# The threads of the gateway

The network thread receives messages, the writer stores and publishes them,
the statistics thread reports, and the main thread stops all of them. They
share the running flag, the queue and the counters; each section guarded by a
lock is one step, and so is each access outside of the locks. Waiting for a
sample is a state of its own that a signal, a broadcast or nothing at all may
end. The payload of a message is copied to a block of its own, whose pointer
goes with the sample until some thread frees it.
-/

namespace TelemetryPlatform.GatewayThreads

open CStrings FormattedText GuardedRuns HeldBlocks SampleQueue SampleJson TelemetryTypes
open WriterConnection WriterThread

/-- A sample with the block that holds the copy of its payload. -/
structure Sample where
  /-- The sample without the pointer. -/
  state : TelemetryState
  /-- The copy of the payload, NULL where there is none. -/
  raw : Option ℕ

/-- A message as the MQTT library hands it over. -/
structure MqttMessage where
  /-- The topic; a NULL pointer is none. -/
  topic : Option CString
  /-- The payload. -/
  payload : Bytes

/-- What the start of the gateway settles. -/
structure Settings where
  /-- Samples in one batch. -/
  batchSize : ℤ
  /-- Whether the buffer of the writer is allocated. -/
  bufferOk : Bool
  /-- Whether the writer thread was created. -/
  writerStarted : Bool
  /-- Whether the statistics thread was created. -/
  statsStarted : Bool
  /-- Whether the MQTT client is connected and its thread runs. -/
  mqttConnected : Bool

/-- The most samples that the writer pops at once. -/
def Settings.maxn (cfg : Settings) : ℕ :=
  if cfg.bufferOk = true then if 0 < cfg.batchSize then cfg.batchSize.toNat else 50 else 1

/-- The counters that the statistics lock protects. -/
structure Counters where
  /-- Messages received. -/
  rxMsgs : ℕ
  /-- Payload bytes received. -/
  rxBytes : ℕ
  /-- Rows handed to the database. -/
  dbRows : ℕ
  /-- Transactions. -/
  commitCount : ℕ
  /-- Total time of the transactions. -/
  commitNsSum : ℤ
  /-- Longest transaction. -/
  commitNsMax : ℤ

/-- Zeroed counters. -/
def Counters.zero : Counters := ⟨0, 0, 0, 0, 0, 0⟩

/-- One line of statistics, in the integers from which its rates are computed. -/
structure Report where
  /-- Time since the last report. -/
  dtNs : ℤ
  /-- The counters at the report. -/
  total : Counters
  /-- Messages since the last report. -/
  dRxMsgs : ℤ
  /-- Bytes since the last report. -/
  dRxBytes : ℤ
  /-- Rows since the last report. -/
  dDbRows : ℤ
  /-- Transactions since the last report. -/
  dCommit : ℤ
  /-- Time of the transactions since the last report. -/
  dCommitNsSum : ℤ
  /-- Number of queued samples. -/
  qLen : BitVec 64
  /-- Largest number of queued samples. -/
  qMax : BitVec 64

/-- Where the network thread stands in on_message. -/
inductive ReceiverPc where
  /-- Outside of the callback. -/
  | idle
  /-- The message is admitted. -/
  | admitted (msg : MqttMessage)
  /-- The message is counted. -/
  | counted (msg : MqttMessage)
  /-- The sample is built. -/
  | built (s : Sample)
  /-- The thread does not run. -/
  | closed

/-- Where the writer thread stands. -/
inductive WriterPc where
  /-- At the head of its loop. -/
  | head
  /-- At the test of the queue. -/
  | checking
  /-- Waiting for a signal. -/
  | asleep
  /-- A batch is popped. -/
  | popped (buf : List Sample)
  /-- The begin failed; these samples still hold their payloads. -/
  | dropping (rest : List Sample)
  /-- Inserting the batch, of which the latter samples are left. -/
  | inserting (buf todo : List Sample) (ok : Bool) (t0 : ℤ)
  /-- The transaction is over after this time. -/
  | counting (buf : List Sample) (dt : ℤ)
  /-- Publishing; these samples are left. -/
  | publishing (rest : List Sample)
  /-- The thread does not run. -/
  | done

/-- Where the statistics thread stands. -/
inductive StatsPc where
  /-- At the head of its loop. -/
  | head
  /-- Sleeping. -/
  | sleeping
  /-- About to read the counters. -/
  | sampling (nowNs : ℤ)
  /-- The counters are read. -/
  | sampled (nowNs : ℤ) (now : Counters)
  /-- The thread does not run. -/
  | done

/-- Where the main thread stands in the stop of the gateway. -/
inductive StopPc where
  /-- The stop is not called. -/
  | working
  /-- The running flag is cleared. -/
  | flagged
  /-- The writer is woken. -/
  | woken
  /-- The writer has ended. -/
  | writerJoined
  /-- The statistics thread has ended. -/
  | statsJoined
  /-- Everything is closed and the queue is freed from this node on. -/
  | draining (q : Addr)
  /-- The gateway is freed. -/
  | freed

/-- The gateway and its threads. The fields after the clock of the last
report record what happened; the code does not read them. -/
structure Gateway where
  /-- The running flag. -/
  running : Bool
  /-- The queue. -/
  queue : Queue Sample
  /-- The memory of the payloads. -/
  blocks : Blocks
  /-- The writer connection. -/
  conn : DbConn TelemetryState
  /-- The counters. -/
  counters : Counters
  /-- The network thread. -/
  receiver : ReceiverPc
  /-- The writer thread. -/
  writer : WriterPc
  /-- The statistics thread. -/
  stats : StatsPc
  /-- The main thread. -/
  stop : StopPc
  /-- The counters at the last report. -/
  last : Counters
  /-- The clock at the last report. -/
  lastMonoNs : ℤ
  /-- Whether a node was touched that is not allocated. -/
  strayed : Bool
  /-- Messages that did not unpack. -/
  unreadable : ℕ
  /-- Samples for which no node was allocated. -/
  unqueued : ℕ
  /-- Samples pushed. -/
  pushed : List Sample
  /-- Samples popped. -/
  popped : List Sample
  /-- Samples of the batches whose begin failed. -/
  dropped : List Sample
  /-- Samples of the batches that were counted. -/
  counted : List Sample
  /-- Samples handed to the broadcast. -/
  published : List Sample
  /-- Samples whose text was not allocated. -/
  textless : List Sample
  /-- Samples freed by the stop. -/
  drained : List Sample
  /-- The reports. -/
  reports : List Report

/-- The gateway after its start. -/
def Gateway.init (cfg : Settings) (startMonoNs : ℤ) : Gateway where
  running := true
  queue := Queue.init
  blocks := Blocks.init
  conn := ⟨none, []⟩
  counters := Counters.zero
  receiver := if cfg.mqttConnected = true then .idle else .closed
  writer := if cfg.writerStarted = true then .head else .done
  stats := if cfg.statsStarted = true then .head else .done
  stop := .working
  last := Counters.zero
  lastMonoNs := startMonoNs
  strayed := false
  unreadable := 0
  unqueued := 0
  pushed := []
  popped := []
  dropped := []
  counted := []
  published := []
  textless := []
  drained := []
  reports := []

/-- Steps of the threads, with what the calls in them return. -/
inductive Action where
  /-- A message arrives. -/
  | receive (msg : MqttMessage)
  /-- Count the message. -/
  | countMessage
  /-- Unpack the message and build its sample, if it unpacks; the other
  arguments are the realtime clock and whether the copy is allocated. -/
  | unpack (st : Option TelemetryStateMsg) (nowRealtimeNs : BitVec 64) (rawOk : Bool)
  /-- Push the sample in a newly allocated node, absent where the allocation fails. -/
  | queuePush (node : Option Addr)
  /-- The writer reads the running flag. -/
  | writerHead
  /-- The writer tests the queue and waits or pops a batch. -/
  | popBatch
  /-- The writer wakes up without a signal. -/
  | wakeWriter
  /-- Begin the transaction, after the monotonic clock was read. -/
  | beginTransaction (granted : Bool) (t0 : ℤ)
  /-- Free the next payload of a dropped batch. -/
  | dropRaw
  /-- Insert the next sample. -/
  | insertState (outcome : InsertOutcome)
  /-- Commit or roll back, and read the monotonic clock. -/
  | endTransaction (commit : CommitOutcome) (rollbackOk : Bool) (t1 : ℤ)
  /-- Update the counters. -/
  | countBatch
  /-- Publish the next sample. -/
  | publish (mallocOk : Bool)
  /-- The statistics thread reads the running flag. -/
  | statsHead
  /-- The statistics thread wakes up at this time. -/
  | statsWake (nowNs : ℤ)
  /-- Read the counters. -/
  | readCounters
  /-- Read the length of the queue and report. -/
  | report
  /-- The next step of the stop. -/
  | stop

/-- A signal or a broadcast wakes the writer if it waits. -/
def WriterPc.wake : WriterPc → WriterPc
  | .asleep => .checking
  | pc => pc

/-- The sample of an unpacked message. The copy of the payload is allocated
for a payload that is not empty, if the allocator has room. -/
def buildSample (m : Blocks) (msg : MqttMessage) (st : TelemetryStateMsg)
    (nowRealtimeNs : BitVec 64) (rawOk : Bool) : Sample × Blocks :=
  let state := onMessageState st nowRealtimeNs msg.payload rawOk
  if state.raw ≠ none then (⟨state, some m.alloc.1⟩, m.alloc.2) else (⟨state, none⟩, m)

/-- The counters after a batch. -/
def Counters.addBatch (c : Counters) (rows : ℕ) (dt : ℤ) : Counters :=
  { c with
    dbRows := c.dbRows + rows
    commitCount := c.commitCount + 1
    commitNsSum := c.commitNsSum + dt
    commitNsMax := if c.commitNsMax < dt then dt else c.commitNsMax }

/-- Time since the last report, one second where the clock did not advance. -/
def sinceLast (nowNs lastMonoNs : ℤ) : ℤ :=
  if lastMonoNs < nowNs then nowNs - lastMonoNs else 1000000000

/-- The report on the counters and the queue. -/
def Gateway.reportOn (g : Gateway) (nowNs : ℤ) (now : Counters) : Report where
  dtNs := sinceLast nowNs g.lastMonoNs
  total := now
  dRxMsgs := now.rxMsgs - g.last.rxMsgs
  dRxBytes := now.rxBytes - g.last.rxBytes
  dDbRows := now.dbRows - g.last.dbRows
  dCommit := now.commitCount - g.last.commitCount
  dCommitNsSum := now.commitNsSum - g.last.commitNsSum
  qLen := g.queue.qLen
  qMax := g.queue.qLenMax

/-- Steps of the network thread. -/
def onMessageStep (g : Gateway) : Action → Option Gateway
  | .receive msg =>
    match g.receiver with
    | .idle =>
      if g.running = true ∧ msg.topic.map CString.bytes = some topicTelemetryState.bytes then
        some { g with receiver := .admitted msg }
      else some g
    | _ => none
  | .countMessage =>
    match g.receiver with
    | .admitted msg =>
      some { g with
        receiver := .counted msg
        counters := { g.counters with
          rxMsgs := g.counters.rxMsgs + 1
          rxBytes := g.counters.rxBytes + msg.payload.length } }
    | _ => none
  | .unpack st nowRealtimeNs rawOk =>
    match g.receiver, st with
    | .counted _, none => some { g with receiver := .idle, unreadable := g.unreadable + 1 }
    | .counted msg, some st =>
      let (s, blocks) := buildSample g.blocks msg st nowRealtimeNs rawOk
      some { g with receiver := .built s, blocks := blocks }
    | _, _ => none
  | .queuePush node =>
    match g.receiver, node with
    | .built s, none =>
      some { g with
        receiver := .idle
        blocks := g.blocks.freeAt s.raw
        unqueued := g.unqueued + 1 }
    | .built s, some n =>
      if n ≠ 0 ∧ g.queue.nodes n = none then
        match queuePush g.queue n s with
        | none => some { g with strayed := true }
        | some q =>
          some { g with
            receiver := .idle
            queue := q
            writer := g.writer.wake
            pushed := g.pushed ++ [s] }
      else none
    | _, _ => none
  | _ => none

/-- Steps of the writer thread. -/
def writerThreadStep (cfg : Settings) (g : Gateway) : Action → Option Gateway
  | .writerHead =>
    match g.writer with
    | .head => some { g with writer := if g.running = true then .checking else .done }
    | _ => none
  | .popBatch =>
    match g.writer with
    | .checking =>
      if g.running = true ∧ g.queue.qHead = 0 then some { g with writer := .asleep }
      else
        match queuePopBatch cfg.maxn g.queue with
        | none => some { g with strayed := true }
        | some (out, q) =>
          some { g with
            queue := q
            writer := if out.isEmpty then .head else .popped out
            popped := g.popped ++ out }
    | _ => none
  | .wakeWriter =>
    match g.writer with
    | .asleep => some { g with writer := .checking }
    | _ => none
  | .beginTransaction granted t0 =>
    match g.writer with
    | .popped buf =>
      let (rc, conn) := dbWriterBegin g.conn granted
      if rc ≠ 0 then
        some { g with conn := conn, writer := .dropping buf, dropped := g.dropped ++ buf }
      else some { g with conn := conn, writer := .inserting buf buf true t0 }
    | _ => none
  | .dropRaw =>
    match g.writer with
    | .dropping [] => some { g with writer := .head }
    | .dropping (s :: rest) =>
      some { g with writer := .dropping rest, blocks := g.blocks.freeAt s.raw }
    | _ => none
  | .insertState outcome =>
    match g.writer with
    | .inserting buf (s :: todo) ok t0 =>
      let (rc, conn) := dbWriterInsertState g.conn s.state outcome
      some { g with
        conn := conn
        blocks := g.blocks.readAt s.raw
        writer := .inserting buf todo (if rc ≠ 0 then false else ok) t0 }
    | _ => none
  | .endTransaction commit rollbackOk t1 =>
    match g.writer with
    | .inserting buf [] ok t0 =>
      some { g with
        conn := if ok = true then (dbWriterCommit g.conn commit).2 else rollback g.conn rollbackOk
        writer := .counting buf (elapsed t0 t1) }
    | _ => none
  | .countBatch =>
    match g.writer with
    | .counting buf dt =>
      some { g with
        counters := g.counters.addBatch buf.length dt
        writer := .publishing buf
        counted := g.counted ++ buf }
    | _ => none
  | .publish mallocOk =>
    match g.writer with
    | .publishing [] => some { g with writer := .head }
    | .publishing (s :: rest) =>
      let g' := { g with writer := .publishing rest, blocks := g.blocks.freeAt s.raw }
      match telemetryStateToJsonAlloc mallocOk s.state with
      | .ok _ => some { g' with published := g.published ++ [s] }
      | .error _ => some { g' with textless := g.textless ++ [s] }
    | _ => none
  | _ => none

/-- Steps of the statistics thread. -/
def statsThreadStep (g : Gateway) : Action → Option Gateway
  | .statsHead =>
    match g.stats with
    | .head => some { g with stats := if g.running = true then .sleeping else .done }
    | _ => none
  | .statsWake nowNs =>
    match g.stats with
    | .sleeping => some { g with stats := if g.running = true then .sampling nowNs else .done }
    | _ => none
  | .readCounters =>
    match g.stats with
    | .sampling nowNs => some { g with stats := .sampled nowNs g.counters }
    | _ => none
  | .report =>
    match g.stats with
    | .sampled nowNs now =>
      some { g with
        stats := .head
        last := now
        lastMonoNs := nowNs
        reports := g.reports ++ [g.reportOn nowNs now] }
    | _ => none
  | _ => none

/-- Steps of the stop. Joining a thread waits for its end, and closing the
MQTT client waits for the callback that is under way. -/
def gatewayStopStep (g : Gateway) : Option Gateway :=
  match g.stop with
  | .working => some { g with running := false, stop := .flagged }
  | .flagged => some { g with writer := g.writer.wake, stop := .woken }
  | .woken =>
    match g.writer with
    | .done => some { g with stop := .writerJoined }
    | _ => none
  | .writerJoined =>
    match g.stats with
    | .done => some { g with stop := .statsJoined }
    | _ => none
  | .statsJoined =>
    match g.receiver with
    | .idle => some { g with receiver := .closed, stop := .draining g.queue.qHead }
    | .closed => some { g with stop := .draining g.queue.qHead }
    | _ => none
  | .draining q =>
    if q = 0 then some { g with stop := .freed }
    else
      match g.queue.nodes q with
      | none => some { g with strayed := true }
      | some node =>
        some { g with
          blocks := g.blocks.freeAt node.value.raw
          queue := { g.queue with nodes := Function.update g.queue.nodes q none }
          stop := .draining node.next
          drained := g.drained ++ [node.value] }
  | .freed => none

/-- One step of one of the threads. -/
def gatewayStep (cfg : Settings) (g : Gateway) (a : Action) : Option Gateway :=
  match a with
  | .receive _ | .countMessage | .unpack _ _ _ | .queuePush _ => onMessageStep g a
  | .statsHead | .statsWake _ | .readCounters | .report => statsThreadStep g a
  | .stop => gatewayStopStep g
  | _ => writerThreadStep cfg g a

/-- The steps of the threads with the states they lead to, all but those that
stray from the allocated nodes. -/
inductive Move (cfg : Settings) (g : Gateway) : Action → Gateway → Prop
  /-- A message that is not admitted changes nothing. -/
  | ignored (msg : MqttMessage) (hpc : g.receiver = .idle) : Move cfg g (.receive msg) g
  /-- A message is admitted. -/
  | admitted (msg : MqttMessage) (hpc : g.receiver = .idle) (hrunning : g.running = true) :
      Move cfg g (.receive msg) { g with receiver := .admitted msg }
  /-- It is counted. -/
  | messageCounted (msg : MqttMessage) (hpc : g.receiver = .admitted msg) :
      Move cfg g .countMessage { g with
        receiver := .counted msg
        counters := { g.counters with
          rxMsgs := g.counters.rxMsgs + 1
          rxBytes := g.counters.rxBytes + msg.payload.length } }
  /-- It cannot be unpacked. -/
  | unreadable (msg : MqttMessage) (now : BitVec 64) (rawOk : Bool)
      (hpc : g.receiver = .counted msg) :
      Move cfg g (.unpack none now rawOk)
        { g with receiver := .idle, unreadable := g.unreadable + 1 }
  /-- Its sample is built. -/
  | built (msg : MqttMessage) (st : TelemetryStateMsg) (now : BitVec 64) (rawOk : Bool)
      (hpc : g.receiver = .counted msg) :
      Move cfg g (.unpack (some st) now rawOk) { g with
        receiver := .built (buildSample g.blocks msg st now rawOk).1
        blocks := (buildSample g.blocks msg st now rawOk).2 }
  /-- There is no memory for the node of the sample. -/
  | unqueued (s : Sample) (hpc : g.receiver = .built s) :
      Move cfg g (.queuePush none) { g with
        receiver := .idle
        blocks := g.blocks.freeAt s.raw
        unqueued := g.unqueued + 1 }
  /-- The sample is queued and the writer woken. -/
  | pushed (s : Sample) (n : Addr) (q : Queue Sample) (hpc : g.receiver = .built s) (hnull : n ≠ 0)
      (hfresh : g.queue.nodes n = none) (hpush : queuePush g.queue n s = some q) :
      Move cfg g (.queuePush (some n)) { g with
        receiver := .idle
        queue := q
        writer := g.writer.wake
        pushed := g.pushed ++ [s] }
  /-- The writer begins a turn of its loop. -/
  | turned (hpc : g.writer = .head) (hrunning : g.running = true) :
      Move cfg g .writerHead { g with writer := .checking }
  /-- The writer leaves its loop. -/
  | writerEnded (hpc : g.writer = .head) (hrunning : g.running = false) :
      Move cfg g .writerHead { g with writer := .done }
  /-- The writer waits for samples. -/
  | fellAsleep (hpc : g.writer = .checking) (hrunning : g.running = true)
      (hempty : g.queue.qHead = 0) : Move cfg g .popBatch { g with writer := .asleep }
  /-- Nothing was queued, which happens after the gateway stopped running. -/
  | poppedNone (q : Queue Sample) (hpc : g.writer = .checking)
      (hready : g.running = false ∨ g.queue.qHead ≠ 0)
      (hpop : queuePopBatch cfg.maxn g.queue = some ([], q)) :
      Move cfg g .popBatch { g with queue := q, writer := .head }
  /-- The writer takes a batch. -/
  | popped (s : Sample) (rest : List Sample) (q : Queue Sample) (hpc : g.writer = .checking)
      (hpop : queuePopBatch cfg.maxn g.queue = some (s :: rest, q)) :
      Move cfg g .popBatch { g with
        queue := q
        writer := .popped (s :: rest)
        popped := g.popped ++ s :: rest }
  /-- The writer is woken and looks again. -/
  | wokeUp (hpc : g.writer = .asleep) : Move cfg g .wakeWriter { g with writer := .checking }
  /-- The transaction cannot begin. -/
  | notBegun (buf : List Sample) (granted : Bool) (t0 : ℤ) (hpc : g.writer = .popped buf) :
      Move cfg g (.beginTransaction granted t0) { g with
        conn := (dbWriterBegin g.conn granted).2
        writer := .dropping buf
        dropped := g.dropped ++ buf }
  /-- The transaction begins. -/
  | begun (buf : List Sample) (granted : Bool) (t0 : ℤ) (hpc : g.writer = .popped buf) :
      Move cfg g (.beginTransaction granted t0) { g with
        conn := (dbWriterBegin g.conn granted).2
        writer := .inserting buf buf true t0 }
  /-- The payload of a sample that is not stored is freed. -/
  | rawDropped (s : Sample) (rest : List Sample) (hpc : g.writer = .dropping (s :: rest)) :
      Move cfg g .dropRaw { g with writer := .dropping rest, blocks := g.blocks.freeAt s.raw }
  /-- All of them are freed. -/
  | allDropped (hpc : g.writer = .dropping []) : Move cfg g .dropRaw { g with writer := .head }
  /-- A sample is inserted, or this fails. -/
  | inserted (buf : List Sample) (s : Sample) (todo : List Sample) (ok ok' : Bool) (t0 : ℤ)
      (outcome : InsertOutcome) (hpc : g.writer = .inserting buf (s :: todo) ok t0) :
      Move cfg g (.insertState outcome) { g with
        conn := (dbWriterInsertState g.conn s.state outcome).2
        blocks := g.blocks.readAt s.raw
        writer := .inserting buf todo ok' t0 }
  /-- The transaction is committed or rolled back. -/
  | ended (buf : List Sample) (ok : Bool) (t0 t1 : ℤ) (commit : CommitOutcome) (rollbackOk : Bool)
      (hpc : g.writer = .inserting buf [] ok t0) :
      Move cfg g (.endTransaction commit rollbackOk t1) { g with
        conn := if ok = true then (dbWriterCommit g.conn commit).2 else rollback g.conn rollbackOk
        writer := .counting buf (elapsed t0 t1) }
  /-- The batch is counted. -/
  | batchCounted (buf : List Sample) (dt : ℤ) (hpc : g.writer = .counting buf dt) :
      Move cfg g .countBatch { g with
        counters := g.counters.addBatch buf.length dt
        writer := .publishing buf
        counted := g.counted ++ buf }
  /-- The text of a sample is handed to the server. -/
  | published (s : Sample) (rest : List Sample) (mallocOk : Bool)
      (hpc : g.writer = .publishing (s :: rest)) :
      Move cfg g (.publish mallocOk) { g with
        writer := .publishing rest
        blocks := g.blocks.freeAt s.raw
        published := g.published ++ [s] }
  /-- There is no memory for the text of a sample. -/
  | textless (s : Sample) (rest : List Sample) (mallocOk : Bool)
      (hpc : g.writer = .publishing (s :: rest)) :
      Move cfg g (.publish mallocOk) { g with
        writer := .publishing rest
        blocks := g.blocks.freeAt s.raw
        textless := g.textless ++ [s] }
  /-- The batch is done. -/
  | allPublished (mallocOk : Bool) (hpc : g.writer = .publishing []) :
      Move cfg g (.publish mallocOk) { g with writer := .head }
  /-- The statistics thread falls asleep. -/
  | slept (hpc : g.stats = .head) (hrunning : g.running = true) :
      Move cfg g .statsHead { g with stats := .sleeping }
  /-- The statistics thread leaves its loop. -/
  | statsEnded (hpc : g.stats = .head) (hrunning : g.running = false) :
      Move cfg g .statsHead { g with stats := .done }
  /-- The statistics thread wakes up and reads the clock. -/
  | sampling (nowNs : ℤ) (hpc : g.stats = .sleeping) (hrunning : g.running = true) :
      Move cfg g (.statsWake nowNs) { g with stats := .sampling nowNs }
  /-- The statistics thread wakes up to find the gateway stopped. -/
  | wokeToEnd (nowNs : ℤ) (hpc : g.stats = .sleeping) (hrunning : g.running = false) :
      Move cfg g (.statsWake nowNs) { g with stats := .done }
  /-- It reads the counters. -/
  | sampled (nowNs : ℤ) (hpc : g.stats = .sampling nowNs) :
      Move cfg g .readCounters { g with stats := .sampled nowNs g.counters }
  /-- It reports. -/
  | reported (nowNs : ℤ) (now : Counters) (hpc : g.stats = .sampled nowNs now) :
      Move cfg g .report { g with
        stats := .head
        last := now
        lastMonoNs := nowNs
        reports := g.reports ++ [g.reportOn nowNs now] }
  /-- The stop clears the running flag. -/
  | flagged (hpc : g.stop = .working) : Move cfg g .stop { g with running := false, stop := .flagged }
  /-- The stop wakes the writer. -/
  | woken (hpc : g.stop = .flagged) :
      Move cfg g .stop { g with writer := g.writer.wake, stop := .woken }
  /-- The writer has ended. -/
  | writerJoined (hpc : g.stop = .woken) (hdone : g.writer = .done) :
      Move cfg g .stop { g with stop := .writerJoined }
  /-- The statistics thread has ended. -/
  | statsJoined (hpc : g.stop = .writerJoined) (hdone : g.stats = .done) :
      Move cfg g .stop { g with stop := .statsJoined }
  /-- The network thread is stopped. -/
  | closed (hpc : g.stop = .statsJoined) (hquiet : g.receiver = .idle ∨ g.receiver = .closed) :
      Move cfg g .stop { g with receiver := .closed, stop := .draining g.queue.qHead }
  /-- A node that is left in the queue is freed. -/
  | drained (q : Addr) (node : LinkedChains.Node Addr Sample) (hpc : g.stop = .draining q)
      (hq : q ≠ 0) (hnode : g.queue.nodes q = some node) :
      Move cfg g .stop { g with
        blocks := g.blocks.freeAt node.value.raw
        queue := { g.queue with nodes := Function.update g.queue.nodes q none }
        stop := .draining node.next
        drained := g.drained ++ [node.value] }
  /-- Nothing is left in the queue. -/
  | freed (hpc : g.stop = .draining 0) : Move cfg g .stop { g with stop := .freed }

/-- The next step strays from the allocated nodes. -/
inductive Stray (cfg : Settings) (g : Gateway) : Prop
  /-- The last node of the queue is not allocated. -/
  | push (s : Sample) (n : Addr) (hpc : g.receiver = .built s) (hnull : n ≠ 0)
      (hfresh : g.queue.nodes n = none) (hpush : queuePush g.queue n s = none)
  /-- A node of the batch is not allocated. -/
  | pop (hpc : g.writer = .checking) (hpop : queuePopBatch cfg.maxn g.queue = none)
  /-- A node that is left in the queue is not allocated. -/
  | drain (q : Addr) (hpc : g.stop = .draining q) (hq : q ≠ 0) (hnode : g.queue.nodes q = none)

variable {cfg : Settings} {g t : Gateway} {a : Action}

/-- Steps of the network thread. -/
theorem onMessageStep_cases (hstep : onMessageStep g a = some t) : Move cfg g a t ∨ Stray cfg g := by
  cases a with
  | receive msg =>
    cases hpc : g.receiver with
    | idle =>
      simp only [onMessageStep, hpc] at hstep
      split_ifs at hstep with hadmit <;> cases hstep
      · exact .inl (.admitted msg hpc hadmit.1)
      · exact .inl (.ignored msg hpc)
    | _ => simp [onMessageStep, hpc] at hstep
  | countMessage =>
    cases hpc : g.receiver with
    | admitted msg =>
      simp only [onMessageStep, hpc, Option.some.injEq] at hstep
      exact .inl (hstep ▸ .messageCounted msg hpc)
    | _ => simp [onMessageStep, hpc] at hstep
  | unpack st now rawOk =>
    cases hpc : g.receiver with
    | counted msg =>
      cases st with
      | none =>
        simp only [onMessageStep, hpc, Option.some.injEq] at hstep
        exact .inl (hstep ▸ .unreadable msg now rawOk hpc)
      | some st =>
        simp only [onMessageStep, hpc, Option.some.injEq] at hstep
        exact .inl (hstep ▸ .built msg st now rawOk hpc)
    | _ => simp [onMessageStep, hpc] at hstep
  | queuePush node =>
    cases hpc : g.receiver with
    | built s =>
      cases node with
      | none =>
        simp only [onMessageStep, hpc, Option.some.injEq] at hstep
        exact .inl (hstep ▸ .unqueued s hpc)
      | some n =>
        simp only [onMessageStep, hpc] at hstep
        split_ifs at hstep with hn
        cases hpush : queuePush g.queue n s with
        | none => exact .inr (.push s n hpc hn.1 hn.2 hpush)
        | some q =>
          simp only [hpush, Option.some.injEq] at hstep
          exact .inl (hstep ▸ .pushed s n q hpc hn.1 hn.2 hpush)
    | _ => simp [onMessageStep, hpc] at hstep
  | _ => cases hstep

/-- The writer pops a batch or goes to sleep. -/
theorem writerThreadStep_popBatch_cases (hstep : writerThreadStep cfg g .popBatch = some t) :
    Move cfg g .popBatch t ∨ Stray cfg g := by
  cases hpc : g.writer with
  | checking =>
    simp only [writerThreadStep, hpc] at hstep
    split_ifs at hstep with hempty
    · cases hstep
      exact .inl (.fellAsleep hpc hempty.1 hempty.2)
    · have hready : g.running = false ∨ g.queue.qHead ≠ 0 := by
        rwa [not_and_or, Bool.not_eq_true] at hempty
      cases hpop : queuePopBatch cfg.maxn g.queue with
      | none => exact .inr (.pop hpc hpop)
      | some popped =>
        obtain ⟨out, q⟩ := popped
        cases out with
        | nil =>
          simp only [hpop, List.isEmpty_nil, if_true, List.append_nil, Option.some.injEq] at hstep
          exact .inl (hstep ▸ .poppedNone q hpc hready hpop)
        | cons s rest =>
          simp only [hpop, List.isEmpty_cons, Bool.false_eq_true, if_false,
            Option.some.injEq] at hstep
          exact .inl (hstep ▸ .popped s rest q hpc hpop)
  | _ => simp [writerThreadStep, hpc] at hstep

/-- Steps of the writer thread. -/
theorem writerThreadStep_cases (hstep : writerThreadStep cfg g a = some t) : Move cfg g a t ∨ Stray cfg g := by
  cases a with
  | writerHead =>
    cases hpc : g.writer with
    | head =>
      simp only [writerThreadStep, hpc] at hstep
      by_cases hrunning : g.running = true
      · simp only [if_pos hrunning, Option.some.injEq] at hstep
        exact .inl (hstep ▸ .turned hpc hrunning)
      · simp only [if_neg hrunning, Option.some.injEq] at hstep
        exact .inl (hstep ▸ .writerEnded hpc (Bool.eq_false_iff.mpr hrunning))
    | _ => simp [writerThreadStep, hpc] at hstep
  | popBatch => exact writerThreadStep_popBatch_cases hstep
  | wakeWriter =>
    cases hpc : g.writer with
    | asleep =>
      simp only [writerThreadStep, hpc, Option.some.injEq] at hstep
      exact .inl (hstep ▸ .wokeUp hpc)
    | _ => simp [writerThreadStep, hpc] at hstep
  | beginTransaction granted t0 =>
    cases hpc : g.writer with
    | popped buf =>
      simp only [writerThreadStep, hpc] at hstep
      split_ifs at hstep <;> cases hstep
      · exact .inl (.notBegun buf granted t0 hpc)
      · exact .inl (.begun buf granted t0 hpc)
    | _ => simp [writerThreadStep, hpc] at hstep
  | dropRaw =>
    cases hpc : g.writer with
    | dropping rest =>
      cases rest <;> simp only [writerThreadStep, hpc, Option.some.injEq] at hstep
      · exact .inl (hstep ▸ .allDropped hpc)
      · exact .inl (hstep ▸ .rawDropped _ _ hpc)
    | _ => simp [writerThreadStep, hpc] at hstep
  | insertState outcome =>
    cases hpc : g.writer with
    | inserting buf todo ok t0 =>
      cases todo with
      | nil => simp [writerThreadStep, hpc] at hstep
      | cons s todo =>
        simp only [writerThreadStep, hpc, Option.some.injEq] at hstep
        exact .inl (hstep ▸ .inserted buf s todo ok _ t0 outcome hpc)
    | _ => simp [writerThreadStep, hpc] at hstep
  | endTransaction commit rollbackOk t1 =>
    cases hpc : g.writer with
    | inserting buf todo ok t0 =>
      cases todo with
      | nil =>
        simp only [writerThreadStep, hpc, Option.some.injEq] at hstep
        exact .inl (hstep ▸ .ended buf ok t0 t1 commit rollbackOk hpc)
      | cons s todo => simp [writerThreadStep, hpc] at hstep
    | _ => simp [writerThreadStep, hpc] at hstep
  | countBatch =>
    cases hpc : g.writer with
    | counting buf dt =>
      simp only [writerThreadStep, hpc, Option.some.injEq] at hstep
      exact .inl (hstep ▸ .batchCounted buf dt hpc)
    | _ => simp [writerThreadStep, hpc] at hstep
  | publish mallocOk =>
    cases hpc : g.writer with
    | publishing rest =>
      cases rest with
      | nil =>
        simp only [writerThreadStep, hpc, Option.some.injEq] at hstep
        exact .inl (hstep ▸ .allPublished mallocOk hpc)
      | cons s rest =>
        simp only [writerThreadStep, hpc] at hstep
        split at hstep <;> cases hstep
        · exact .inl (.published s rest mallocOk hpc)
        · exact .inl (.textless s rest mallocOk hpc)
    | _ => simp [writerThreadStep, hpc] at hstep
  | _ => cases hstep

/-- Steps of the statistics thread. -/
theorem statsThreadStep_cases (hstep : statsThreadStep g a = some t) : Move cfg g a t := by
  cases a with
  | statsHead =>
    cases hpc : g.stats with
    | head =>
      simp only [statsThreadStep, hpc] at hstep
      by_cases hrunning : g.running = true
      · simp only [if_pos hrunning, Option.some.injEq] at hstep
        exact hstep ▸ .slept hpc hrunning
      · simp only [if_neg hrunning, Option.some.injEq] at hstep
        exact hstep ▸ .statsEnded hpc (Bool.eq_false_iff.mpr hrunning)
    | _ => simp [statsThreadStep, hpc] at hstep
  | statsWake nowNs =>
    cases hpc : g.stats with
    | sleeping =>
      simp only [statsThreadStep, hpc] at hstep
      by_cases hrunning : g.running = true
      · simp only [if_pos hrunning, Option.some.injEq] at hstep
        exact hstep ▸ .sampling nowNs hpc hrunning
      · simp only [if_neg hrunning, Option.some.injEq] at hstep
        exact hstep ▸ .wokeToEnd nowNs hpc (Bool.eq_false_iff.mpr hrunning)
    | _ => simp [statsThreadStep, hpc] at hstep
  | readCounters =>
    cases hpc : g.stats with
    | sampling nowNs =>
      simp only [statsThreadStep, hpc, Option.some.injEq] at hstep
      exact hstep ▸ .sampled nowNs hpc
    | _ => simp [statsThreadStep, hpc] at hstep
  | report =>
    cases hpc : g.stats with
    | sampled nowNs now =>
      simp only [statsThreadStep, hpc, Option.some.injEq] at hstep
      exact hstep ▸ .reported nowNs now hpc
    | _ => simp [statsThreadStep, hpc] at hstep
  | _ => cases hstep

/-- Steps of the stop. -/
theorem gatewayStopStep_cases (hstep : gatewayStopStep g = some t) : Move cfg g .stop t ∨ Stray cfg g := by
  cases hpc : g.stop with
  | working =>
    simp only [gatewayStopStep, hpc, Option.some.injEq] at hstep
    exact .inl (hstep ▸ .flagged hpc)
  | flagged =>
    simp only [gatewayStopStep, hpc, Option.some.injEq] at hstep
    exact .inl (hstep ▸ .woken hpc)
  | woken =>
    simp only [gatewayStopStep, hpc] at hstep
    split at hstep
    · rename_i hdone
      cases hstep
      exact .inl (.writerJoined hpc hdone)
    · cases hstep
  | writerJoined =>
    simp only [gatewayStopStep, hpc] at hstep
    split at hstep
    · rename_i hdone
      cases hstep
      exact .inl (.statsJoined hpc hdone)
    · cases hstep
  | statsJoined =>
    simp only [gatewayStopStep, hpc] at hstep
    split at hstep
    · rename_i hidle
      cases hstep
      exact .inl (.closed hpc (.inl hidle))
    · rename_i hclosed
      cases hstep
      have hmove : Move cfg g .stop _ := .closed hpc (.inr hclosed)
      rw [← hclosed] at hmove
      exact .inl hmove
    · cases hstep
  | draining q =>
    simp only [gatewayStopStep, hpc] at hstep
    split_ifs at hstep with hq
    · cases hstep
      exact .inl (.freed (hq ▸ hpc))
    · cases hnode : g.queue.nodes q with
      | none => exact .inr (.drain q hpc hq hnode)
      | some node =>
        simp only [hnode, Option.some.injEq] at hstep
        exact .inl (hstep ▸ .drained q node hpc hq hnode)
  | freed => simp [gatewayStopStep, hpc] at hstep

/-- Every step is one of the moves, unless it strays. -/
theorem gatewayStep_cases (hstep : gatewayStep cfg g a = some t) :
    Move cfg g a t ∨ Stray cfg g := by
  cases a with
  | receive _ | countMessage | unpack _ _ _ | queuePush _ => exact onMessageStep_cases hstep
  | statsHead | statsWake _ | readCounters | report => exact .inl (statsThreadStep_cases hstep)
  | stop => exact gatewayStopStep_cases hstep
  | _ => exact writerThreadStep_cases hstep

end TelemetryPlatform.GatewayThreads
