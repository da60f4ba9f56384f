import Mathlib.Algebra.Order.Floor.Ring
import Mathlib.Data.Rat.Floor
import Mathlib.Logic.Function.Basic
import TelemetryPlatform.GuardedRuns

/-!
# The browser interface as a transition system

The interface reacts to clicks, to the expiry of its timer and to the events of
the sockets that it has created. The handlers of a socket stay attached when
another socket takes its place, and all of them work on one shared state.
Sockets and timers are numbers in the order of their creation. Wall times, run
tags and what is only shown are left out.
-/

namespace TelemetryPlatform.UiSession

open GuardedRuns

/-- The ready state of a socket. -/
inductive ReadyState where
  /-- The connection is being made. -/
  | connecting
  /-- The connection is open. -/
  | opened
  /-- The close was asked for. -/
  | closing
  /-- The connection is closed. -/
  | closed
  deriving DecidableEq

/-- A sample as the interface reads it. -/
structure Sample where
  /-- Sequence identifier, where it is a number. -/
  seq : Option ℤ
  /-- Gateway time in nanoseconds, where it is a number. -/
  tNs : Option ℤ
  deriving DecidableEq

/-- A received message after JSON.parse. -/
inductive Message where
  /-- A status message. -/
  | status
  /-- A live sample. -/
  | telemetry (s : Sample)
  /-- A history reply: its items, each a sample or something else; absent where
  they are no array. -/
  | history (items : Option (List (Option Sample)))
  /-- An error report of the server. -/
  | error
  /-- No JSON object, or an object of another type. -/
  | other

/-- The events of the log. -/
inductive UiEvent where
  /-- A run begins. -/
  | runStart
  /-- A socket is created by a click. -/
  | wsConnectAttempt
  /-- A socket is created by the timer. -/
  | wsReconnectAttempt
  /-- A socket has opened. -/
  | wsOpen
  /-- A socket has closed. -/
  | wsClose
  /-- A socket has failed. -/
  | wsError
  /-- The server has reported an error. -/
  | serverError
  /-- A sample from the live stream. -/
  | telemetryLive
  /-- A sample from a history reply. -/
  | telemetryReplay
  /-- The samples of a history reply were taken over. -/
  | historyBatchLoaded
  /-- A history request was sent. -/
  | historyRequest
  deriving DecidableEq

/-- A row of the log. -/
structure UiRow where
  /-- What happened. -/
  event : UiEvent
  /-- Sequence identifier of a sample. -/
  seq : Option ℤ
  /-- Gateway time of a sample. -/
  tNs : Option ℤ
  /-- Distance from the last live identifier. -/
  gapFromPrev : Option ℤ
  /-- Ready state of the current socket. -/
  wsState : Option ReadyState
  /-- Requested number of samples. -/
  last : Option ℚ
  /-- Number of samples in a history reply. -/
  count : Option ℕ

/-- A row with nothing but its event. -/
def UiRow.plain (event : UiEvent) : UiRow := ⟨event, none, none, none, none, none, none⟩

/-- The state of the interface with its buttons, its input field, and the
sockets and timers of the browser. -/
structure Ui where
  /-- The current socket. -/
  ws : Option ℕ
  /-- Whether the display is paused. -/
  paused : Bool
  /-- Whether the user has disconnected. -/
  manualDisconnect : Bool
  /-- Whether samples are to be asked for after a reconnection. -/
  pendingRecovery : Bool
  /-- The reconnect timer. -/
  reconnectTimer : Option ℕ
  /-- Number of scheduled reconnections. -/
  reconnectCount : ℕ
  /-- The samples that are shown. -/
  samples : List Sample
  /-- The sample that is shown as the latest. -/
  latest : Option Sample
  /-- The log. -/
  uiLog : List UiRow
  /-- The last live identifier. -/
  lastLiveSeq : Option ℤ
  /-- The number in the input field, absent where it holds none. -/
  lastN : Option ℚ
  /-- Whether the connect button is disabled. -/
  btnConnectDisabled : Bool
  /-- Whether the disconnect button is disabled. -/
  btnDisconnectDisabled : Bool
  /-- Whether the pause button is disabled. -/
  btnPauseDisabled : Bool
  /-- Whether the history button is disabled. -/
  btnHistoryDisabled : Bool
  /-- Number of sockets created. -/
  created : ℕ
  /-- Ready state of each socket. -/
  readyState : ℕ → ReadyState
  /-- Whether a socket has emitted its open event. -/
  openEmitted : ℕ → Bool
  /-- Timers that have not expired and were not cleared. -/
  timers : List ℕ
  /-- Number of timers set. -/
  timersSet : ℕ
  /-- History requests sent: the socket and the number of samples. -/
  sent : List (ℕ × ℕ)

/-- The interface after the page is loaded. -/
def Ui.init : Ui where
  ws := none
  paused := false
  manualDisconnect := false
  pendingRecovery := false
  reconnectTimer := none
  reconnectCount := 0
  samples := []
  latest := none
  uiLog := []
  lastLiveSeq := none
  lastN := some 300
  btnConnectDisabled := false
  btnDisconnectDisabled := true
  btnPauseDisabled := true
  btnHistoryDisabled := true
  created := 0
  readyState := fun _ => .connecting
  openEmitted := fun _ => false
  timers := []
  timersSet := 0
  sent := []

/-- Whether reconnections are automatic; nothing changes it. -/
def autoReconnect : Bool := true

/-- Size of the sample buffer. -/
def maxSamples : ℕ := 500

/-- Append a row to the log. -/
def logUiEvent (u : Ui) (row : UiRow) : Ui :=
  { u with uiLog := u.uiLog ++ [{ row with wsState := u.ws.map u.readyState }] }

/-- Append a sample to the buffer. -/
def pushSample (u : Ui) (s : Sample) : Ui :=
  let samples := u.samples ++ [s]
  { u with samples := samples.drop (samples.length - maxSamples) }

/-- The number of samples to ask for. -/
def getRequestedHistoryCount (u : Ui) : ℕ :=
  match u.lastN with
  | none => 0
  | some raw => if raw ≤ 0 then 0 else min 5000 ⌊raw⌋.toNat

/-- Ask for samples on the current socket. -/
def requestHistory (u : Ui) : Ui :=
  let n := getRequestedHistoryCount u
  if n = 0 then u
  else
    match u.ws with
    | none => u
    | some i =>
      if u.readyState i = .opened then
        let u := logUiEvent u { UiRow.plain .historyRequest with last := some n }
        { u with sent := u.sent ++ [(i, n)] }
      else u

/-- The distance of a live identifier from the last one. -/
def liveGap (lastLiveSeq seq : Option ℤ) : ℤ :=
  match lastLiveSeq, seq with
  | some last, some x => if last < x then x - last else 0
  | _, _ => 0

/-- A live sample is received. -/
def handleTelemetry (u : Ui) (s : Sample) : Ui :=
  if u.paused = true then u
  else
    let gap := liveGap u.lastLiveSeq s.seq
    let u := { u with pendingRecovery := false }
    let u := logUiEvent u
      { UiRow.plain .telemetryLive with seq := s.seq, tNs := s.tNs, gapFromPrev := some gap }
    let u := { u with lastLiveSeq := s.seq.or u.lastLiveSeq }
    { pushSample u s with latest := some s }

/-- A sample of a history reply is taken over. -/
def handleHistoryItem (u : Ui) (s : Sample) : Ui :=
  pushSample (logUiEvent u { UiRow.plain .telemetryReplay with seq := s.seq, tNs := s.tNs }) s

/-- A history reply is received. -/
def handleHistory (u : Ui) (items : Option (List (Option Sample))) : Ui :=
  match items with
  | none => u
  | some items =>
    let loaded := items.filterMap id
    let u := loaded.foldl handleHistoryItem u
    let u := logUiEvent u
      { UiRow.plain .historyBatchLoaded with count := some loaded.length, last := u.lastN }
    if u.paused = false ∧ u.samples ≠ [] then { u with latest := u.samples.getLast? } else u

/-- Set the reconnect timer, unless the user has disconnected or it is set. -/
def scheduleReconnect (u : Ui) : Ui :=
  if autoReconnect = false ∨ u.manualDisconnect = true then u
  else if u.reconnectTimer.isSome = true then u
  else
    { u with
      reconnectCount := u.reconnectCount + 1
      reconnectTimer := some u.timersSet
      timers := u.timersSet :: u.timers
      timersSet := u.timersSet + 1 }

/-- Clear the reconnect timer where it is set. -/
def clearReconnectTimer (u : Ui) : Ui :=
  match u.reconnectTimer with
  | none => u
  | some timer => { u with timers := u.timers.erase timer, reconnectTimer := none }

/-- Ask a socket to close. -/
def closeSocket (u : Ui) (i : ℕ) : Ui :=
  if u.readyState i = .closed then u
  else { u with readyState := Function.update u.readyState i .closing }

/-- Give up the timer and the current socket. -/
def disconnect (u : Ui) (manual : Bool) : Ui :=
  let u := clearReconnectTimer { u with manualDisconnect := manual }
  match u.ws with
  | none => u
  | some i => { closeSocket u i with ws := none }

/-- Forget the samples and the log of the last run. -/
def resetRunStateForNewManualRun (u : Ui) : Ui :=
  { u with uiLog := [], samples := [], lastLiveSeq := none, reconnectCount := 0,
           pendingRecovery := false }

/-- Connect; the flag tells whether the browser creates the socket or throws. -/
def connect (u : Ui) (isReconnect creates : Bool) : Ui :=
  let u := disconnect u false
  let u := if isReconnect = true then u
    else logUiEvent (resetRunStateForNewManualRun u) (UiRow.plain .runStart)
  let u := { u with manualDisconnect := false }
  if creates = false then u
  else
    logUiEvent { u with ws := some u.created, created := u.created + 1 }
      (UiRow.plain (if isReconnect = true then .wsReconnectAttempt else .wsConnectAttempt))

/-- Enable the buttons that make sense while connected, or those that do not. -/
def setButtons (u : Ui) (connected : Bool) : Ui :=
  { u with btnConnectDisabled := connected, btnDisconnectDisabled := !connected,
           btnPauseDisabled := !connected, btnHistoryDisabled := !connected }

/-- A socket has opened. -/
def onOpen (u : Ui) : Ui :=
  let u := clearReconnectTimer (setButtons u true)
  let u := logUiEvent u (UiRow.plain .wsOpen)
  if u.pendingRecovery = true ∧ 0 < getRequestedHistoryCount u then requestHistory u else u

/-- A socket has closed. -/
def onClose (u : Ui) : Ui :=
  scheduleReconnect (logUiEvent (setButtons u false) (UiRow.plain .wsClose))

/-- A socket has failed. -/
def onError (u : Ui) : Ui := logUiEvent u (UiRow.plain .wsError)

/-- A socket has received a message. -/
def onMessage (u : Ui) (m : Message) : Ui :=
  match m with
  | .status => u
  | .telemetry s => handleTelemetry u s
  | .history items => { handleHistory u items with pendingRecovery := false }
  | .error => logUiEvent u (UiRow.plain .serverError)
  | .other => u

/-- Forget what is shown and the log. -/
def clearAll (u : Ui) : Ui := { u with samples := [], lastLiveSeq := none, uiLog := [], latest := none }

/-- What the interface reacts to. -/
inductive UiAction where
  /-- The connect button. -/
  | clickConnect (creates : Bool)
  /-- The disconnect button. -/
  | clickDisconnect
  /-- The pause button. -/
  | clickPause
  /-- The history button. -/
  | clickHistory
  /-- The clear button. -/
  | clickClear
  /-- The input field is changed. -/
  | input (lastN : Option ℚ)
  /-- A timer expires. -/
  | timer (id : ℕ) (creates : Bool)
  /-- The open event of a socket. -/
  | socketOpen (i : ℕ)
  /-- The close event of a socket. -/
  | socketClose (i : ℕ)
  /-- The error event of a socket. -/
  | socketError (i : ℕ)
  /-- The message event of a socket. -/
  | socketMessage (i : ℕ) (m : Message)

/-- A socket was created and has not closed. -/
def Ui.live (u : Ui) (i : ℕ) : Prop := i < u.created ∧ u.readyState i ≠ .closed

instance (u : Ui) (i : ℕ) : Decidable (u.live i) := inferInstanceAs (Decidable (_ ∧ _))

/-- One reaction. A disabled button has no effect, and a socket opens once at
most, closes once, and does nothing after that. -/
def uiStep (u : Ui) : UiAction → Option Ui
  | .clickConnect creates => if u.btnConnectDisabled = true then none else some (connect u false creates)
  | .clickDisconnect => if u.btnDisconnectDisabled = true then none else some (disconnect u true)
  | .clickPause => if u.btnPauseDisabled = true then none else some { u with paused := !u.paused }
  | .clickHistory => if u.btnHistoryDisabled = true then none else some (requestHistory u)
  | .clickClear => some (clearAll u)
  | .input lastN => some { u with lastN := lastN }
  | .timer id creates =>
    if id ∈ u.timers then
      some (connect { u with timers := u.timers.erase id, reconnectTimer := none,
                             pendingRecovery := true } true creates)
    else none
  | .socketOpen i =>
    if u.live i ∧ u.openEmitted i = false then
      some (onOpen { u with
        openEmitted := Function.update u.openEmitted i true
        readyState := if u.readyState i = .connecting then Function.update u.readyState i .opened
          else u.readyState })
    else none
  | .socketClose i =>
    if u.live i then some (onClose { u with readyState := Function.update u.readyState i .closed })
    else none
  | .socketError i => if u.live i then some (onError u) else none
  | .socketMessage i m => if u.live i then some (onMessage u m) else none

end TelemetryPlatform.UiSession
