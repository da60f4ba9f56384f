import Mathlib.Logic.Function.Basic
import TelemetryPlatform.CallStreams
import TelemetryPlatform.GuardedRuns
import TelemetryPlatform.WsFrames

/-!
# The WebSocket server as a transition system

One accept thread, one thread for each client, the broadcast of the writer
thread and the stop of the server take steps in any order. A section under the
server mutex is one step, except that the broadcast keeps the mutex while it
sends. Every send is a step of its own that takes a part of the current buffer
or fails. Descriptors are numbers that the kernel hands out again after a
close; a closed or foreign descriptor is used where the source uses it. A
freed record keeps its last contents.
-/

namespace TelemetryPlatform.WsServer

open CStrings CallStreams GuardedRuns WsFrames

/-- The configuration of the server. -/
structure WsConfig where
  /-- Delay of each broadcast in milliseconds. -/
  delayMs : ℕ
  /-- Largest jitter of the delay in milliseconds. -/
  jitterMs : ℕ
  /-- Percentage of dropped broadcasts. -/
  dropPct : ℕ
  /-- Start of the cut window in seconds after the anchor. -/
  cutStartS : ℕ
  /-- Length of the cut window in seconds. -/
  cutDurationS : ℕ
  /-- Whether the cut closes all clients. -/
  reconnectModeClose : Bool
  /-- Tag of the experiment. -/
  expTag : CharBuf 64
  /-- Whether the server has a database reader. -/
  hasDb : Bool

/-- A call that is being sent. -/
structure SendOp where
  /-- Number of the call. -/
  call : ℕ
  /-- The descriptor that the call was given, absent for -1. -/
  fd : Option ℕ
  /-- Bytes sent so far. -/
  sent : Bytes
  /-- What is left of the current buffer, and the buffers behind it. -/
  todo : List Bytes

/-- The operation after the kernel took some bytes of the current buffer. -/
def SendOp.advance (op : SendOp) (n : ℕ) : SendOp :=
  match op.todo with
  | [] => op
  | buffer :: rest =>
    { op with
      sent := op.sent ++ buffer.take n
      todo := if n < buffer.length then buffer.drop n :: rest else rest }

/-- Where a client thread is. -/
inductive ClientPc where
  /-- The thread is not created. -/
  | unborn
  /-- Before the descriptor is read for the handshake. -/
  | starting
  /-- Reading the handshake request from that descriptor. -/
  | handshaking (fd : Option ℕ)
  /-- Sending the answer to the handshake. -/
  | responding (op : SendOp)
  /-- Before the anchor of the experiment time. -/
  | anchoring
  /-- Before the status message. -/
  | greeting
  /-- At the head of the frame loop. -/
  | loopHead
  /-- Receiving a frame. -/
  | receiving
  /-- Before the query of a history request. -/
  | querying (last : ℤ)
  /-- Sending a frame; the flag says whether the loop is left afterwards. -/
  | sending (op : SendOp) (leave : Bool)
  /-- Before the alive flag is cleared. -/
  | leaving
  /-- Before the descriptor is closed. -/
  | closing
  /-- Before the closed descriptor is forgotten. -/
  | clearing
  /-- Before the record is taken from the list. -/
  | removing
  /-- Before the record is freed. -/
  | freeing
  /-- The thread has returned, or was never created and its record is freed. -/
  | finished

/-- A client record with its thread. -/
structure Client where
  /-- The descriptor, absent for -1. -/
  fd : Option ℕ
  /-- The alive flag. -/
  alive : Bool
  /-- Number of times the record was freed. -/
  freed : ℕ
  /-- Where its thread is. -/
  pc : ClientPc
  /-- Whether its handshake is complete: the whole answer was sent. -/
  handshaken : Bool
  /-- The descriptor number that the accept returned. -/
  desc : ℕ

/-- A record that is not allocated yet. -/
def Client.blank : Client := ⟨none, false, 0, .unborn, false, 0⟩

/-- Who makes a call. -/
inductive Caller where
  /-- The client thread. -/
  | thread
  /-- The broadcast. -/
  | broadcast
  deriving DecidableEq

/-- A call that was made: by whom, for which client, and what it sends. -/
structure Call where
  /-- The caller. -/
  caller : Caller
  /-- The client whose record gave the descriptor. -/
  client : ℕ
  /-- What is to be sent. -/
  unit : WsUnit

/-- Where the accept thread is. -/
inductive AcceptPc where
  /-- At the head of its loop. -/
  | loopHead
  /-- In the accept call. -/
  | accepting
  /-- Before the record is put into the list. -/
  | registering (i : ℕ)
  /-- Before the client thread is created. -/
  | creating (i : ℕ)
  /-- The creation failed; before the alive flag is cleared. -/
  | dropping (i : ℕ)
  /-- Before the descriptor is closed. -/
  | closing (i : ℕ)
  /-- Before the record is taken from the list. -/
  | removing (i : ℕ)
  /-- Before the record is freed. -/
  | freeing (i : ℕ)
  /-- The thread has returned. -/
  | finished

/-- Where the broadcast is. -/
inductive CasterPc where
  /-- No broadcast is made. -/
  | idle
  /-- Sleeping without the mutex, until a time. -/
  | sleeping (msg : Bytes) (wakeAt : ℤ)
  /-- Walking the list: the records kept so far and the rest. -/
  | passing (msg : Bytes) (visited rest : List ℕ)
  /-- Sending to a client between those. -/
  | sending (msg : Bytes) (visited : List ℕ) (c : ℕ) (rest : List ℕ) (op : SendOp)

/-- Where the stop of the server is. -/
inductive StopPc where
  /-- Not called. -/
  | running
  /-- Waiting for the accept thread, then before the list is detached. -/
  | joining
  /-- Freeing the detached records. -/
  | freeing (detached : List ℕ)

/-- The state of the server. The calls, the streams, the descriptor numbers
and the handshake flags of the clients record what happened; the code does not
read them. -/
structure Server where
  /-- The running flag. -/
  running : Bool
  /-- The client list from its head. -/
  clients : List ℕ
  /-- All records in the order of acceptance. -/
  client : ℕ → Client
  /-- Number of accepted connections. -/
  accepted : ℕ
  /-- The descriptor table: the connection behind each open descriptor. -/
  fds : ℕ → Option ℕ
  /-- All calls made so far. -/
  calls : List Call
  /-- What was written to each connection. -/
  stream : ℕ → Stream UInt8
  /-- The accept thread. -/
  acceptor : AcceptPc
  /-- The broadcast. -/
  caster : CasterPc
  /-- The stop. -/
  stopper : StopPc
  /-- The monotonic clock in nanoseconds. -/
  clock : ℤ
  /-- The anchor of the experiment time, once it is set. -/
  anchor : Option ℤ
  /-- Whether the cut closed the clients in this window. -/
  cutCloseFired : Bool
  /-- Number of dropped broadcasts. -/
  droppedMsgs : ℕ
  /-- Number of delayed broadcasts. -/
  delayedMsgs : ℕ
  /-- Number of broadcasts in the cut window. -/
  cutMsgs : ℕ

/-- The server after its start. -/
def Server.init : Server where
  running := true
  clients := []
  client := fun _ => Client.blank
  accepted := 0
  fds := fun _ => none
  calls := []
  stream := fun _ => []
  acceptor := .loopHead
  caster := .idle
  stopper := .running
  clock := 0
  anchor := none
  cutCloseFired := false
  droppedMsgs := 0
  delayedMsgs := 0
  cutMsgs := 0

/-- Outcome of one step of the accept thread. -/
inductive AcceptInput where
  /-- Go on; a created client thread starts. -/
  | proceed
  /-- A connection is accepted on a free descriptor and its record allocated. -/
  | accepted (fd : ℕ)
  /-- No connection, or no memory for its record. -/
  | failed

/-- Outcome of one step of a client thread. -/
inductive ClientInput where
  /-- Go on. -/
  | proceed
  /-- The handshake request is read; the accept key where it is valid. -/
  | request (accept : Option CString)
  /-- A send took some bytes. -/
  | wrote (n : ℕ)
  /-- A send failed. -/
  | sendFailed
  /-- A frame with opcode and payload, or a failure to receive one. -/
  | frame (received : Option (UInt8 × Bytes))
  /-- The history query returned a reply or a negative code. -/
  | answered (reply : Except ℤ Bytes)

/-- Outcome of one step of the broadcast. -/
inductive CasterInput where
  /-- Wake up, visit the next client or return. -/
  | proceed
  /-- A send took some bytes. -/
  | wrote (n : ℕ)
  /-- A send failed. -/
  | sendFailed

/-- Steps of the server. -/
inductive Action where
  /-- Time passes. -/
  | clock (now : ℤ)
  /-- The accept thread. -/
  | acceptor (input : AcceptInput)
  /-- A client thread. -/
  | client (i : ℕ) (input : ClientInput)
  /-- A broadcast is called, with the numbers that it may draw. -/
  | broadcast (msg : Bytes) (dropRoll jitterRoll : ℕ)
  /-- The broadcast goes on. -/
  | caster (input : CasterInput)
  /-- The stop is called or goes on. -/
  | stop

variable (cfg : WsConfig)

/-- Change one client record. -/
def Server.setClient (s : Server) (i : ℕ) (f : Client → Client) : Server :=
  { s with client := Function.update s.client i (f (s.client i)) }

/-- Move a client thread. -/
def Server.goto (s : Server) (i : ℕ) (pc : ClientPc) : Server :=
  s.setClient i fun c => { c with pc := pc }

/-- Close a descriptor. -/
def Server.closeFd (s : Server) (fd : Option ℕ) : Server :=
  match fd with
  | none => s
  | some n => { s with fds := Function.update s.fds n none }

/-- The mutex is free: no broadcast walks the list. -/
def Server.muFree (s : Server) : Bool :=
  match s.caster with
  | .idle => true
  | .sleeping _ _ => true
  | .passing _ _ _ => false
  | .sending _ _ _ _ _ => false

/-- The operation that a new call starts on a descriptor. -/
def Server.startOp (s : Server) (fd : Option ℕ) (unit : WsUnit) : SendOp :=
  ⟨s.calls.length, fd, [], unit.buffers⟩

/-- Record a new call. -/
def Server.record (s : Server) (caller : Caller) (client : ℕ) (unit : WsUnit) : Server :=
  { s with calls := s.calls ++ [⟨caller, client, unit⟩] }

/-- The connection that a send of an operation reaches. -/
def Server.target (s : Server) (op : SendOp) : Option ℕ := op.fd.bind s.fds

/-- One successful send: some bytes of the current buffer reach the connection
behind the descriptor. -/
def Server.send (s : Server) (op : SendOp) (n : ℕ) : Option Server :=
  match op.todo with
  | [] => none
  | buffer :: _ =>
    match s.target op with
    | none => none
    | some k =>
      if 1 ≤ n ∧ n ≤ buffer.length then
        some { s with stream := Function.update s.stream k (s.stream k ++ [⟨op.call, buffer.take n⟩]) }
      else none

/-- Start a call of a client thread. -/
def Server.startSending (s : Server) (i : ℕ) (unit : WsUnit) (leave : Bool) : Server :=
  (s.record .thread i unit).goto i (.sending (s.startOp (s.client i).fd unit) leave)

/-- What a client thread does with a received text. -/
def handleText (s : Server) (i : ℕ) (txt : CString) : Server :=
  if isHistoryRequest txt = true then
    if cfg.hasDb = true then s.goto i (.querying (jsonFindInt txt (lit "\"last\"") 300))
    else s.startSending i (.text dbNotAvailable) false
  else s.goto i .loopHead

/-- What a client thread does with a received frame. -/
def handleFrame (s : Server) (i : ℕ) (opcode : UInt8) (payload : Bytes) : Server :=
  if opcode = 0x8 then s.startSending i (.control 0x8 []) true
  else if opcode = 0x9 then s.startSending i (.control 0xA payload) false
  else if opcode = 0xA then s.goto i .loopHead
  else if opcode ≠ 0x1 then s.goto i .loopHead
  else handleText cfg s i (payloadText payload)

/-- One step of a client thread. -/
def clientStep (s : Server) (i : ℕ) (input : ClientInput) : Option Server :=
  match (s.client i).pc, input with
  | .starting, .proceed => some (s.goto i (.handshaking (s.client i).fd))
  | .handshaking _, .request none => some (s.goto i .leaving)
  | .handshaking fd, .request (some accept) =>
    if (handshakeResponse accept).bytes.length < 256 then
      some ((s.record .thread i (.response accept)).goto i
        (.responding (s.startOp fd (.response accept))))
    else some (s.goto i .leaving)
  | .responding op, .wrote n =>
    (s.send op n).map fun s =>
      if (op.advance n).todo = [] then
        s.setClient i fun c => { c with pc := .anchoring, handshaken := true }
      else s.goto i (.responding (op.advance n))
  | .responding _, .sendFailed => some (s.goto i .leaving)
  | .anchoring, .proceed =>
    if s.muFree = true then
      some { s.goto i .greeting with anchor := some (s.anchor.getD s.clock) }
    else none
  | .greeting, .proceed =>
    if (statusText cfg.expTag.toCString).bytes.length < 256 then
      some (s.startSending i (.text (statusText cfg.expTag.toCString).bytes) false)
    else some (s.goto i .loopHead)
  | .loopHead, .proceed =>
    if s.running = true ∧ (s.client i).alive = true then some (s.goto i .receiving)
    else some (s.goto i .leaving)
  | .receiving, .frame none => some (s.goto i .leaving)
  | .receiving, .frame (some (opcode, payload)) => some (handleFrame cfg s i opcode payload)
  | .querying _, .answered (.ok json) => some (s.startSending i (.text json) false)
  | .querying _, .answered (.error _) => some (s.startSending i (.text historyQueryFailed) false)
  | .sending op leave, .wrote n =>
    (s.send op n).map fun s =>
      if (op.advance n).todo = [] then s.goto i (if leave = true then .leaving else .loopHead)
      else s.goto i (.sending (op.advance n) leave)
  | .sending _ leave, .sendFailed => some (s.goto i (if leave = true then .leaving else .loopHead))
  | .leaving, .proceed => some (s.setClient i fun c => { c with alive := false, pc := .closing })
  | .closing, .proceed =>
    match (s.client i).fd with
    | some n => some ((s.closeFd (some n)).goto i .clearing)
    | none => some (s.goto i .removing)
  | .clearing, .proceed => some (s.setClient i fun c => { c with fd := none, pc := .removing })
  | .removing, .proceed =>
    if s.muFree = true then some { s.goto i .freeing with clients := s.clients.erase i } else none
  | .freeing, .proceed =>
    some (s.setClient i fun c => { c with freed := c.freed + 1, pc := .finished })
  | _, _ => none

/-- One step of the accept thread. -/
def acceptorStep (s : Server) (input : AcceptInput) : Option Server :=
  match s.acceptor, input with
  | .loopHead, .proceed =>
    if s.running = true then some { s with acceptor := .accepting }
    else some { s with acceptor := .finished }
  | .accepting, .failed => some { s with acceptor := .loopHead }
  | .accepting, .accepted fd =>
    if s.fds fd = none then
      some { s with
        client := Function.update s.client s.accepted ⟨some fd, true, 0, .unborn, false, fd⟩
        accepted := s.accepted + 1
        fds := Function.update s.fds fd (some s.accepted)
        acceptor := .registering s.accepted }
    else none
  | .registering i, .proceed =>
    if s.muFree = true then some { s with clients := i :: s.clients, acceptor := .creating i }
    else none
  | .creating i, .proceed => some { s.goto i .starting with acceptor := .loopHead }
  | .creating i, .failed => some { s with acceptor := .dropping i }
  | .dropping i, .proceed =>
    some { s.setClient i fun c => { c with alive := false } with acceptor := .closing i }
  | .closing i, .proceed =>
    some { s.closeFd (some (s.client i).desc) with acceptor := .removing i }
  | .removing i, .proceed =>
    if s.muFree = true then
      some { s with clients := s.clients.erase i, acceptor := .freeing i }
    else none
  | .freeing i, .proceed =>
    some { s.setClient i fun c => { c with freed := c.freed + 1, pc := .finished } with
      acceptor := .loopHead }
  | _, _ => none

/-- Whether the cut window is active. -/
def impairmentCutActive (s : Server) : Bool :=
  if cfg.cutDurationS = 0 then false
  else
    match s.anchor with
    | none => false
    | some start =>
      let elapsedNs := max (s.clock - start) 0
      let startNs : ℤ := cfg.cutStartS * 1000000000
      let endNs : ℤ := startNs + cfg.cutDurationS * 1000000000
      startNs ≤ elapsedNs && elapsedNs < endNs

/-- Whether a broadcast is dropped. -/
def impairmentShouldDrop (dropRoll : ℕ) : Bool := 0 < cfg.dropPct && dropRoll % 100 < cfg.dropPct

/-- The delay of a broadcast in milliseconds. -/
def impairmentDelayForMsgMs (jitterRoll : ℕ) : ℕ :=
  if 0 < cfg.jitterMs then cfg.delayMs + jitterRoll % (cfg.jitterMs * 2 + 1) - cfg.jitterMs
  else cfg.delayMs

/-- Clear the alive flags of all listed clients and close their connections. -/
def wsCloseAllClients (s : Server) : List ℕ → Server
  | [] => s
  | i :: rest =>
    wsCloseAllClients
      ((s.closeFd (s.client i).fd).setClient i fun c => { c with alive := false, fd := none }) rest

/-- The start of a broadcast up to the walk over the list. -/
def wsServerBroadcast (s : Server) (msg : Bytes) (dropRoll jitterRoll : ℕ) : Server :=
  if impairmentCutActive cfg s = true then
    let s := { s with cutMsgs := s.cutMsgs + 1 }
    if cfg.reconnectModeClose = true ∧ s.cutCloseFired = false then
      { wsCloseAllClients s s.clients with cutCloseFired := true }
    else s
  else
    let s := { s with cutCloseFired := false }
    if impairmentShouldDrop cfg dropRoll = true then { s with droppedMsgs := s.droppedMsgs + 1 }
    else
      let delayMs := impairmentDelayForMsgMs cfg jitterRoll
      if 0 < delayMs then
        { s with
          delayedMsgs := s.delayedMsgs + 1
          caster := .sleeping msg (s.clock + delayMs * 1000000) }
      else { s with caster := .passing msg [] s.clients }

/-- Unlink and free a record during the walk, closing its descriptor. -/
def Server.release (s : Server) (msg : Bytes) (visited : List ℕ) (c : ℕ) (rest : List ℕ) : Server :=
  { (s.closeFd (s.client c).fd).setClient c fun r => { r with freed := r.freed + 1 } with
    clients := visited ++ rest
    caster := .passing msg visited rest }

/-- One step of a broadcast after its start. -/
def casterStep (s : Server) (input : CasterInput) : Option Server :=
  match s.caster, input with
  | .sleeping msg wakeAt, .proceed =>
    if wakeAt ≤ s.clock then some { s with caster := .passing msg [] s.clients } else none
  | .passing _ _ [], .proceed => some { s with caster := .idle }
  | .passing msg visited (c :: rest), .proceed =>
    if (s.client c).alive = true then
      some { s.record .broadcast c (.text msg) with
        caster := .sending msg visited c rest (s.startOp (s.client c).fd (.text msg)) }
    else some (s.release msg visited c rest)
  | .sending msg visited c rest op, .wrote n =>
    (s.send op n).map fun s =>
      if (op.advance n).todo = [] then { s with caster := .passing msg (visited ++ [c]) rest }
      else { s with caster := .sending msg visited c rest (op.advance n) }
  | .sending msg visited c rest _, .sendFailed =>
    some ((s.setClient c fun r => { r with alive := false }).release msg visited c rest)
  | _, _ => none

/-- One step of the stop. -/
def wsServerStop (s : Server) : Option Server :=
  match s.stopper with
  | .running => some { s with running := false, stopper := .joining }
  | .joining =>
    match s.acceptor with
    | .finished =>
      if s.muFree = true then some { s with clients := [], stopper := .freeing s.clients } else none
    | _ => none
  | .freeing [] => none
  | .freeing (c :: rest) =>
    some { (s.closeFd (s.client c).fd).setClient c fun r =>
        { r with alive := false, freed := r.freed + 1 } with
      stopper := .freeing rest }

/-- One step of the server. -/
def serverStep (s : Server) : Action → Option Server
  | .clock now => if s.clock ≤ now then some { s with clock := now } else none
  | .acceptor input => acceptorStep s input
  | .client i input => clientStep cfg s i input
  | .broadcast msg dropRoll jitterRoll =>
    match s.caster with
    | .idle => some (wsServerBroadcast cfg s msg dropRoll jitterRoll)
    | _ => none
  | .caster input => casterStep s input
  | .stop => wsServerStop s

/-- The operation of a client thread. -/
def ClientPc.op : ClientPc → Option SendOp
  | .responding op => some op
  | .sending op _ => some op
  | _ => none

/-- The descriptor that a client thread has read for its call. -/
def ClientPc.fd : ClientPc → Option ℕ
  | .handshaking fd => fd
  | .responding op => op.fd
  | .sending op _ => op.fd
  | _ => none

/-- How far a client thread is: before its answer, answering, connected, leaving. -/
def ClientPc.stage : ClientPc → ℕ
  | .unborn => 0
  | .starting => 0
  | .handshaking _ => 0
  | .responding _ => 1
  | .anchoring => 2
  | .greeting => 2
  | .loopHead => 2
  | .receiving => 2
  | .querying _ => 2
  | .sending _ _ => 2
  | .leaving => 3
  | .closing => 3
  | .clearing => 3
  | .removing => 3
  | .freeing => 3
  | .finished => 3

/-- The client, the message and the operation of a broadcast. -/
def CasterPc.op : CasterPc → Option (ℕ × Bytes × SendOp)
  | .sending msg _ c _ op => some (c, msg, op)
  | _ => none

/-- The caller, the client and the operation of a step that is a successful send. -/
def writing (s : Server) : Action → Option (Caller × ℕ × SendOp)
  | .client i (.wrote _) => (s.client i).pc.op.map fun op => (.thread, i, op)
  | .caster (.wrote _) => s.caster.op.map fun (c, _, op) => (.broadcast, c, op)
  | _ => none

/-- The record that a step of the broadcast visits. -/
def visiting (s : Server) : Action → Option ℕ
  | .caster .proceed =>
    match s.caster with
    | .passing _ _ (c :: _) => some c
    | _ => none
  | _ => none

/-- Changing a record shows in that record. -/
@[simp] theorem client_setClient_self (s : Server) (i : ℕ) (f : Client → Client) :
    (s.setClient i f).client i = f (s.client i) :=
  Function.update_self i _ _

/-- Changing a record leaves the others alone. -/
theorem client_setClient_of_ne (s : Server) {i j : ℕ} (f : Client → Client) (hne : j ≠ i) :
    (s.setClient i f).client j = s.client j :=
  Function.update_of_ne hne _ _

/-- Moving a thread shows in its record. -/
@[simp] theorem client_goto_self (s : Server) (i : ℕ) (pc : ClientPc) :
    (s.goto i pc).client i = { s.client i with pc := pc } :=
  client_setClient_self s i _

/-- Moving a thread leaves the other records alone. -/
theorem client_goto_of_ne (s : Server) {i j : ℕ} (pc : ClientPc) (hne : j ≠ i) :
    (s.goto i pc).client j = s.client j :=
  client_setClient_of_ne s _ hne

/-- Closing a descriptor changes nothing but the descriptor table. -/
theorem closeFd_eq (s : Server) (fd : Option ℕ) :
    s.closeFd fd = { s with fds := (s.closeFd fd).fds } := by
  cases fd <;> rfl

/-- What a successful send does. -/
theorem send_eq_some {s t : Server} {op : SendOp} {n : ℕ} (h : s.send op n = some t) :
    ∃ buffer rest k, op.todo = buffer :: rest ∧ s.target op = some k ∧ 1 ≤ n ∧ n ≤ buffer.length ∧
      t = { s with
        stream := Function.update s.stream k (s.stream k ++ [⟨op.call, buffer.take n⟩]) } := by
  unfold Server.send at h
  split at h
  · cases h
  · rename_i buffer rest htodo
    split at h
    · cases h
    · rename_i k htarget
      split_ifs at h with hn
      cases h
      exact ⟨buffer, rest, k, htodo, htarget, hn.1, hn.2, rfl⟩

end TelemetryPlatform.WsServer
