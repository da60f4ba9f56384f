import Mathlib.Logic.Relation
import TelemetryPlatform.UiSession

/-!
# What a reaction of the interface changes

Every reaction of the interface is a sequence of elementary changes, and each of
those touches a few fields of the state. The reactions are taken apart here
once. What the changes of some kinds keep is then kept by every reaction that is
made of them.
-/

namespace TelemetryPlatform.UiChanges

open UiSession

variable {u v : Ui} {a : UiAction}

/-- The kinds of changes. -/
inductive Kind where
  /-- Another event is logged. -/
  | note
  /-- A live sample is taken over. -/
  | live
  /-- A sample of a history reply is taken over. -/
  | replay
  /-- Samples are asked for. -/
  | request
  /-- The log and the samples are forgotten. -/
  | reset
  /-- Another sample is shown as the latest. -/
  | latest
  /-- A recovery begins or ends. -/
  | recovery
  /-- The sockets change. -/
  | link
  /-- No timer is set any more. -/
  | untime
  /-- A timer is set. -/
  | schedule
  /-- The buttons are enabled or disabled. -/
  | buttons
  /-- The display is paused or goes on. -/
  | pause
  /-- The number in the input field changes. -/
  | input
  deriving DecidableEq

/-- An event that is neither a sample nor a request. -/
def UiEvent.isNote : UiEvent → Bool
  | .telemetryLive => false
  | .telemetryReplay => false
  | .historyRequest => false
  | _ => true

/-- Such an event is told apart from a sample and from a request. -/
theorem ne_of_isNote {event other : UiEvent} (hnote : UiEvent.isNote event = true)
    (hother : UiEvent.isNote other = false) : event ≠ other := by
  rintro rfl
  exact Bool.false_ne_true (hother.symm.trans hnote)

/-- An elementary change of the state. -/
inductive Change (u : Ui) : Kind → Ui → Prop
  /-- Another event is logged. -/
  | note (row : UiRow) : UiEvent.isNote row.event = true → Change u .note (logUiEvent u row)
  /-- A live sample is taken over. -/
  | live (s : Sample) : Change u .live (handleTelemetry u s)
  /-- A sample of a history reply is taken over. -/
  | replay (s : Sample) : Change u .replay (handleHistoryItem u s)
  /-- A request is logged and sent. -/
  | request {i n : ℕ} : 1 ≤ n → n ≤ 5000 →
      Change u .request
        { logUiEvent u { UiRow.plain .historyRequest with last := some (n : ℚ) } with
          sent := u.sent ++ [(i, n)] }
  /-- The log and the samples are forgotten. -/
  | reset (latest : Option Sample) (reconnectCount : ℕ) (pendingRecovery : Bool) :
      Change u .reset
        { u with uiLog := [], samples := [], lastLiveSeq := none, latest := latest,
                 reconnectCount := reconnectCount, pendingRecovery := pendingRecovery }
  /-- Another sample is shown as the latest. -/
  | latest (latest : Option Sample) : Change u .latest { u with latest := latest }
  /-- A recovery begins or ends. -/
  | recovery (pendingRecovery : Bool) :
      Change u .recovery { u with pendingRecovery := pendingRecovery }
  /-- The sockets change. -/
  | link (ws : Option ℕ) (manualDisconnect : Bool) (created : ℕ) (readyState : ℕ → ReadyState)
      (openEmitted : ℕ → Bool) :
      Change u .link
        { u with ws := ws, manualDisconnect := manualDisconnect, created := created,
                 readyState := readyState, openEmitted := openEmitted }
  /-- No timer is set any more. -/
  | untime (timers : List ℕ) :
      Change u .untime { u with timers := timers, reconnectTimer := none }
  /-- A timer is set. -/
  | schedule :
      Change u .schedule
        { u with reconnectCount := u.reconnectCount + 1, reconnectTimer := some u.timersSet,
                 timers := u.timersSet :: u.timers, timersSet := u.timersSet + 1 }
  /-- The buttons are enabled or disabled. -/
  | buttons (connected : Bool) : Change u .buttons (setButtons u connected)
  /-- The display is paused or goes on. -/
  | pause : Change u .pause { u with paused := !u.paused }
  /-- The number in the input field changes. -/
  | input (lastN : Option ℚ) : Change u .input { u with lastN := lastN }

/-- Changes of some kinds after each other. -/
def Changes (kinds : List Kind) : Ui → Ui → Prop :=
  Relation.ReflTransGen fun u v => ∃ k ∈ kinds, Change u k v

/-- No change at all. -/
theorem Changes.refl {kinds : List Kind} (u : Ui) : Changes kinds u u := Relation.ReflTransGen.refl

/-- Some changes after others. -/
theorem Changes.trans {kinds : List Kind} {w : Ui} (h : Changes kinds u v)
    (h' : Changes kinds v w) : Changes kinds u w :=
  Relation.ReflTransGen.trans h h'

/-- One change. -/
theorem Change.changes {k : Kind} {kinds : List Kind} (h : Change u k v) (hk : k ∈ kinds) :
    Changes kinds u v :=
  Relation.ReflTransGen.single ⟨k, hk, h⟩

/-- Changes of some kinds are changes of more kinds. -/
theorem Changes.mono {kinds more : List Kind} (h : Changes kinds u v) (hsub : kinds ⊆ more) :
    Changes more u v := by
  have hstep (u v : Ui) : (∃ k ∈ kinds, Change u k v) → ∃ k ∈ more, Change u k v := by
    rintro ⟨k, hk, hc⟩
    exact ⟨k, hsub hk, hc⟩
  exact Relation.ReflTransGen.mono hstep u v h

/-- What every change of some kinds keeps is kept by all of them. -/
theorem Changes.keeps {kinds : List Kind} {p : Ui → Prop} (h : Changes kinds u v) (hu : p u)
    (hkeeps : ∀ k ∈ kinds, ∀ s t, Change s k t → p s → p t) : p v := by
  induction h with
  | refl => exact hu
  | tail _ hchange ih =>
    obtain ⟨k, hk, hc⟩ := hchange
    exact hkeeps k hk _ _ hc ih

/-- Whether the user has disconnected is noted. -/
theorem changes_manual (kinds : List Kind) (u : Ui) (manual : Bool) (hk : .link ∈ kinds) :
    Changes kinds u { u with manualDisconnect := manual } :=
  (Change.link u.ws manual u.created u.readyState u.openEmitted).changes hk

/-- Clearing the timer. -/
theorem changes_clearReconnectTimer (u : Ui) : Changes [.untime] u (clearReconnectTimer u) := by
  unfold clearReconnectTimer
  split
  · exact .refl u
  · exact (Change.untime _).changes (by decide)

/-- Giving up the timer and the current socket. -/
theorem changes_disconnect (u : Ui) (manual : Bool) :
    Changes [.untime, .link] u (disconnect u manual) := by
  have hcleared := (changes_manual [.untime, .link] u manual (by decide)).trans
    ((changes_clearReconnectTimer _).mono (by decide))
  unfold disconnect
  dsimp only
  split
  · exact hcleared
  · refine hcleared.trans ?_
    unfold closeSocket
    split_ifs
    · exact (Change.link none _ _ _ _).changes (by decide)
    · exact (Change.link none _ _ _ _).changes (by decide)

/-- The changes that connecting makes; a new run resets what is shown. -/
def connectKinds (isReconnect : Bool) : List Kind :=
  if isReconnect = true then [.untime, .link, .note] else [.untime, .link, .note, .reset]

/-- Connecting. -/
theorem changes_connect (u : Ui) (isReconnect creates : Bool) :
    Changes (connectKinds isReconnect) u (connect u isReconnect creates) := by
  have hgiven : Changes (connectKinds isReconnect) u (disconnect u false) :=
    (changes_disconnect u false).mono (by cases isReconnect <;> decide)
  have hrun : Changes (connectKinds isReconnect) u
      (if isReconnect = true then disconnect u false
        else logUiEvent (resetRunStateForNewManualRun (disconnect u false))
          (UiRow.plain .runStart)) := by
    cases isReconnect with
    | true => exact hgiven
    | false =>
      have hreset : Changes (connectKinds false) (disconnect u false)
          (resetRunStateForNewManualRun (disconnect u false)) :=
        (Change.reset (disconnect u false).latest 0 false).changes (by decide)
      have hstart : Changes (connectKinds false)
          (resetRunStateForNewManualRun (disconnect u false))
          (logUiEvent (resetRunStateForNewManualRun (disconnect u false))
            (UiRow.plain .runStart)) :=
        (Change.note _ rfl).changes (by decide)
      exact (hgiven.trans hreset).trans hstart
  have hlink : Kind.link ∈ connectKinds isReconnect := by cases isReconnect <;> decide
  have hnote : Kind.note ∈ connectKinds isReconnect := by cases isReconnect <;> decide
  have hmanual := hrun.trans (changes_manual _ _ false hlink)
  unfold connect
  dsimp only
  split
  · exact hmanual
  · refine (hmanual.trans ((Change.link _ _ _ _ _).changes hlink)).trans
      ((Change.note _ ?_).changes hnote)
    cases isReconnect <;> rfl

/-- No more than 5000 samples are asked for. -/
theorem getRequestedHistoryCount_le (u : Ui) : getRequestedHistoryCount u ≤ 5000 := by
  unfold getRequestedHistoryCount
  split
  · exact Nat.zero_le _
  · split_ifs
    · exact Nat.zero_le _
    · exact Nat.min_le_left _ _

/-- Asking for samples. -/
theorem changes_requestHistory (u : Ui) : Changes [.request] u (requestHistory u) := by
  unfold requestHistory
  dsimp only
  split_ifs with hnone
  · exact .refl u
  · split
    · exact .refl u
    · split_ifs
      · exact (Change.request (Nat.pos_of_ne_zero hnone) (getRequestedHistoryCount_le u)).changes
          (by decide)
      · exact .refl u

/-- A history reply. -/
theorem changes_handleHistory (u : Ui) (items : Option (List (Option Sample))) :
    Changes [.replay, .note, .latest] u (handleHistory u items) := by
  cases items with
  | none => exact .refl u
  | some items =>
    have hfold (loaded : List Sample) (v : Ui) :
        Changes [.replay, .note, .latest] v (loaded.foldl handleHistoryItem v) := by
      induction loaded generalizing v with
      | nil => exact .refl v
      | cons s loaded ih =>
        rw [List.foldl_cons]
        exact ((Change.replay s).changes (by decide)).trans (ih (handleHistoryItem v s))
    have hloaded := hfold (items.filterMap id) u
    unfold handleHistory
    dsimp only
    split_ifs
    · refine (hloaded.trans ((Change.note _ ?_).changes (by decide))).trans
        ((Change.latest _).changes (by decide))
      rfl
    · refine hloaded.trans ((Change.note _ ?_).changes (by decide))
      rfl

/-- The changes that a message makes. -/
def messageKinds : Message → List Kind
  | .telemetry _ => [.live]
  | _ => [.replay, .note, .latest, .recovery]

/-- A message. -/
theorem changes_onMessage (u : Ui) (m : Message) : Changes (messageKinds m) u (onMessage u m) := by
  cases m with
  | status => exact .refl u
  | other => exact .refl u
  | error => exact (Change.note _ rfl).changes (by decide)
  | telemetry s => exact (Change.live s).changes List.mem_cons_self
  | history items =>
    change Changes [.replay, .note, .latest, .recovery] u _
    exact ((changes_handleHistory u items).mono (by decide)).trans
      ((Change.recovery false).changes (by decide))

/-- The open event of a socket. -/
theorem changes_onOpen (u : Ui) : Changes [.buttons, .untime, .note, .request] u (onOpen u) := by
  have hbuttons : Changes [.buttons, .untime, .note, .request] u (setButtons u true) :=
    (Change.buttons true).changes (by decide)
  have hcleared := hbuttons.trans ((changes_clearReconnectTimer _).mono (by decide))
  have hlogged := hcleared.trans
    ((Change.note (UiRow.plain .wsOpen) rfl).changes (by decide))
  unfold onOpen
  dsimp only
  split_ifs
  · exact hlogged.trans ((changes_requestHistory _).mono (by decide))
  · exact hlogged

/-- The close event of a socket. -/
theorem changes_onClose (u : Ui) : Changes [.buttons, .note, .schedule] u (onClose u) := by
  have hbuttons : Changes [.buttons, .note, .schedule] u (setButtons u false) :=
    (Change.buttons false).changes (by decide)
  have hlogged := hbuttons.trans
    ((Change.note (UiRow.plain .wsClose) rfl).changes (by decide))
  unfold onClose scheduleReconnect
  split_ifs
  · exact hlogged
  · exact hlogged
  · exact hlogged.trans (Change.schedule.changes (by decide))

/-- The changes that a reaction makes. -/
def kindsOf : UiAction → List Kind
  | .clickConnect _ => connectKinds false
  | .clickDisconnect => [.untime, .link]
  | .clickPause => [.pause]
  | .clickHistory => [.request]
  | .clickClear => [.reset]
  | .input _ => [.input]
  | .timer _ _ => .recovery :: connectKinds true
  | .socketOpen _ => [.link, .buttons, .untime, .note, .request]
  | .socketClose _ => [.link, .buttons, .note, .schedule]
  | .socketError _ => [.note]
  | .socketMessage _ m => messageKinds m

/-- A reaction makes changes of its kinds only. -/
theorem changes_of_step (hstep : uiStep u a = some v) : Changes (kindsOf a) u v := by
  cases a with
  | clickConnect creates =>
    rw [uiStep, Option.ite_none_left_eq_some] at hstep
    cases hstep.2
    exact changes_connect u false creates
  | clickDisconnect =>
    rw [uiStep, Option.ite_none_left_eq_some] at hstep
    cases hstep.2
    exact changes_disconnect u true
  | clickPause =>
    rw [uiStep, Option.ite_none_left_eq_some] at hstep
    cases hstep.2
    exact Change.pause.changes (by decide)
  | clickHistory =>
    rw [uiStep, Option.ite_none_left_eq_some] at hstep
    cases hstep.2
    exact changes_requestHistory u
  | clickClear =>
    cases hstep
    exact (Change.reset none u.reconnectCount u.pendingRecovery).changes (by decide)
  | input lastN =>
    cases hstep
    exact (Change.input lastN).changes List.mem_cons_self
  | timer id creates =>
    rw [uiStep, Option.ite_none_right_eq_some] at hstep
    cases hstep.2
    change Changes (.recovery :: connectKinds true) u _
    have huntimed : Changes (.recovery :: connectKinds true) u
        { u with timers := u.timers.erase id, reconnectTimer := none } :=
      (Change.untime _).changes (by decide)
    refine (huntimed.trans ((Change.recovery true).changes (by decide))).trans ?_
    exact (changes_connect _ true creates).mono (by decide)
  | socketOpen i =>
    rw [uiStep, Option.ite_none_right_eq_some] at hstep
    cases hstep.2
    change Changes [.link, .buttons, .untime, .note, .request] u _
    exact ((Change.link u.ws u.manualDisconnect u.created _ _).changes (by decide)).trans
      ((changes_onOpen _).mono (by decide))
  | socketClose i =>
    rw [uiStep, Option.ite_none_right_eq_some] at hstep
    cases hstep.2
    change Changes [.link, .buttons, .note, .schedule] u _
    exact ((Change.link u.ws u.manualDisconnect u.created _ u.openEmitted).changes
      (by decide)).trans ((changes_onClose _).mono (by decide))
  | socketError i =>
    rw [uiStep, Option.ite_none_right_eq_some] at hstep
    cases hstep.2
    exact (Change.note _ rfl).changes List.mem_cons_self
  | socketMessage i m =>
    rw [uiStep, Option.ite_none_right_eq_some] at hstep
    cases hstep.2
    exact changes_onMessage u m

end TelemetryPlatform.UiChanges
