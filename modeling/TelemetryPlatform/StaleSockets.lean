import TelemetryPlatform.UiChanges

/-!
# Events of sockets that were replaced

The handlers of a socket do not ask whether it is still the current one. Its
events do no harm exactly where its close comes while the user has disconnected
or the timer is set already, and its messages bring nothing that counts. Then
no timer runs while the current socket is open.
-/

namespace TelemetryPlatform.StaleSockets

open GuardedRuns UiChanges UiSession

variable {u u' : Ui} {a : UiAction}

/-- The socket that an event belongs to. -/
def socketOf : UiAction → Option ℕ
  | .socketOpen i => some i
  | .socketClose i => some i
  | .socketError i => some i
  | .socketMessage i _ => some i
  | _ => none

/-- Whether a row is a sample. -/
def UiRow.isTelemetry (row : UiRow) : Bool :=
  decide (row.event = .telemetryLive) || decide (row.event = .telemetryReplay)

/-- The samples in the log. -/
def telemetryRows (u : Ui) : List UiRow := u.uiLog.filter UiRow.isTelemetry

/-- A step schedules no reconnection, leaves a pending recovery pending and
logs no sample. -/
structure Inert (u u' : Ui) : Prop where
  /-- No timer is set. -/
  timersSet : u'.timersSet = u.timersSet
  /-- No reconnection is counted. -/
  reconnectCount : u'.reconnectCount = u.reconnectCount
  /-- A pending recovery stays pending. -/
  pendingRecovery : u.pendingRecovery = true → u'.pendingRecovery = true
  /-- No sample is logged. -/
  telemetryRows : telemetryRows u' = telemetryRows u

/-- An event of a socket that is not the current one is inert. -/
def InertStep (p : Ui × UiAction) : Prop :=
  ∀ i, socketOf p.2 = some i → p.1.ws ≠ some i → ∀ u', uiStep p.1 p.2 = some u' → Inert p.1 u'

/-- No timer is pending while the current socket is open. -/
def OpenUntimed (u : Ui) : Prop := ∀ i, u.ws = some i → u.readyState i = .opened → u.timers = []

/-- What holds of a run: events of replaced sockets are inert, and in every
state no timer is pending while the current socket is open. -/
structure SocketsApart (steps : List (Ui × UiAction)) (u : Ui) : Prop where
  /-- Events of replaced sockets are inert. -/
  inert : ∀ p ∈ steps, InertStep p
  /-- No timer is pending on the way. -/
  untimed : ∀ p ∈ steps, OpenUntimed p.1
  /-- No timer is pending at the end. -/
  untimed_last : OpenUntimed u

/-- A message that brings nothing that counts: a live sample while the display
is paused, or a history reply without samples while no recovery is pending. -/
def harmless (u : Ui) : Message → Bool
  | .telemetry _ => u.paused
  | .history items => !u.pendingRecovery && (items.getD []).all Option.isNone
  | _ => true

/-- The close of a replaced socket comes while the user has disconnected or the
timer is set, and its messages bring nothing that counts. -/
def heeds (p : Ui × UiAction) : Bool :=
  match p.2 with
  | .socketClose i =>
    decide (p.1.ws = some i) || (p.1.manualDisconnect || p.1.reconnectTimer.isSome)
  | .socketMessage i m => decide (p.1.ws = some i) || harmless p.1 m
  | _ => true

/-- Logging another event logs no sample. -/
@[simp] theorem telemetryRows_logUiEvent (u : Ui) (row : UiRow) :
    telemetryRows (logUiEvent u row) =
      telemetryRows u ++ ([{ row with wsState := u.ws.map u.readyState }].filter UiRow.isTelemetry) :=
  List.filter_append _ _

/-- Nothing that matters changes. -/
theorem Inert.of_eq (hset : u'.timersSet = u.timersSet) (hcount : u'.reconnectCount = u.reconnectCount)
    (hpending : u'.pendingRecovery = u.pendingRecovery) (hlog : u'.uiLog = u.uiLog) : Inert u u' :=
  ⟨hset, hcount, fun h => hpending.trans h,
    congrArg (List.filter UiRow.isTelemetry) hlog⟩

/-- One inert step after another. -/
theorem Inert.trans {v : Ui} (h : Inert u u') (h' : Inert u' v) : Inert u v :=
  ⟨h'.timersSet.trans h.timersSet, h'.reconnectCount.trans h.reconnectCount,
    fun hpending => h'.pendingRecovery (h.pendingRecovery hpending),
    h'.telemetryRows.trans h.telemetryRows⟩

/-- The kinds of changes that are inert. -/
def Kind.isInert : Kind → Bool
  | .note => true
  | .request => true
  | .latest => true
  | .link => true
  | .untime => true
  | .buttons => true
  | _ => false

/-- Logging another event is inert. -/
theorem inert_note (u : Ui) (row : UiRow) (hrow : UiEvent.isNote row.event = true) :
    Inert u (logUiEvent u row) := by
  have hall (event : UiEvent) : UiEvent.isNote event = true →
      (decide (event = .telemetryLive) || decide (event = .telemetryReplay)) = false := by
    cases event <;> decide
  have hnone : UiRow.isTelemetry { row with wsState := u.ws.map u.readyState } = false :=
    hall row.event hrow
  refine ⟨rfl, rfl, id, ?_⟩
  rw [telemetryRows_logUiEvent, List.filter_cons_of_neg (by simp [hnone]), List.filter_nil,
    List.append_nil]

/-- Changes of these kinds are inert. -/
theorem inert_of_changes {kinds : List Kind} (h : Changes kinds u u')
    (hkinds : kinds.all Kind.isInert = true) : Inert u u' := by
  refine h.keeps (.of_eq rfl rfl rfl rfl) fun k hk s t hc hs => hs.trans ?_
  have hinert := List.all_eq_true.mp hkinds k hk
  cases hc with
  | note row hrow => exact inert_note _ _ hrow
  | @request i n _ _ =>
    have hlogged := telemetryRows_logUiEvent s
      { UiRow.plain .historyRequest with last := some (n : ℚ) }
    rw [List.filter_cons_of_neg Bool.false_ne_true, List.filter_nil, List.append_nil] at hlogged
    exact ⟨rfl, rfl, id, hlogged⟩
  | latest latest => exact .of_eq rfl rfl rfl rfl
  | link ws manualDisconnect created readyState openEmitted => exact .of_eq rfl rfl rfl rfl
  | untime timers => exact .of_eq rfl rfl rfl rfl
  | buttons connected => exact .of_eq rfl rfl rfl rfl
  | _ => exact absurd hinert Bool.false_ne_true

/-- Scheduling a reconnection is inert where the user has disconnected or the
timer is set. -/
theorem inert_scheduleReconnect_iff (u : Ui) : Inert u (scheduleReconnect u) ↔
    u.manualDisconnect = true ∨ u.reconnectTimer.isSome = true := by
  unfold scheduleReconnect
  split_ifs with hmanual htimer
  · refine iff_of_true (.of_eq rfl rfl rfl rfl) (.inl (hmanual.resolve_left ?_))
    decide
  · exact iff_of_true (.of_eq rfl rfl rfl rfl) (.inr htimer)
  · refine iff_of_false (fun h => ?_) (not_or_intro (fun h => hmanual (.inr h)) htimer)
    have hcount := h.reconnectCount
    dsimp only at hcount
    omega

/-- So is the close event of a socket. -/
theorem inert_onClose_iff (u : Ui) : Inert u (onClose u) ↔
    u.manualDisconnect = true ∨ u.reconnectTimer.isSome = true := by
  have hbuttons : Inert u (setButtons u false) := .of_eq rfl rfl rfl rfl
  have hbefore : Inert u (logUiEvent (setButtons u false) (UiRow.plain .wsClose)) :=
    hbuttons.trans (inert_note _ _ rfl)
  have hschedule := inert_scheduleReconnect_iff
    (logUiEvent (setButtons u false) (UiRow.plain .wsClose))
  constructor
  · intro h
    exact hschedule.mp ⟨h.timersSet, h.reconnectCount, h.pendingRecovery,
      h.telemetryRows.trans hbefore.telemetryRows.symm⟩
  · intro h
    exact hbefore.trans (hschedule.mpr h)

/-- What happens to the sockets themselves is inert. -/
theorem inert_sockets_iff (u u' : Ui) (readyState : ℕ → ReadyState) (openEmitted : ℕ → Bool) :
    Inert { u with readyState := readyState, openEmitted := openEmitted } u' ↔ Inert u u' :=
  ⟨fun h => ⟨h.1, h.2, h.3, h.4⟩, fun h => ⟨h.1, h.2, h.3, h.4⟩⟩

/-- Changing what is shown logs nothing. -/
theorem telemetryRows_shown (u : Ui) (samples : List Sample) (latest : Option Sample) :
    telemetryRows { u with samples := samples, latest := latest } = telemetryRows u := rfl

/-- Pushing a sample to the buffer logs nothing. -/
theorem telemetryRows_pushSample (u : Ui) (s : Sample) :
    telemetryRows (pushSample u s) = telemetryRows u := telemetryRows_shown u _ u.latest

/-- Taking over a sample logs it. -/
theorem length_telemetryRows_handleHistoryItem (u : Ui) (s : Sample) :
    (telemetryRows (handleHistoryItem u s)).length = (telemetryRows u).length + 1 := by
  unfold handleHistoryItem
  rw [telemetryRows_pushSample, telemetryRows_logUiEvent, List.length_append]
  simp [UiRow.isTelemetry, UiRow.plain]

/-- Taking over the samples of a history reply logs each of them. -/
theorem foldl_handleHistoryItem (loaded : List Sample) (u : Ui) :
    (telemetryRows (loaded.foldl handleHistoryItem u)).length =
      (telemetryRows u).length + loaded.length := by
  induction loaded generalizing u with
  | nil => rfl
  | cons s loaded ih =>
    have hone := length_telemetryRows_handleHistoryItem u s
    rw [List.foldl_cons, ih (handleHistoryItem u s), List.length_cons]
    omega

/-- A list of items brings no sample where none of them is one. -/
theorem filterMap_eq_nil_iff_all (items : List (Option Sample)) :
    items.filterMap id = [] ↔ items.all Option.isNone = true := by
  rw [List.filterMap_eq_nil_iff, List.all_eq_true]
  simp only [id, Option.isNone_iff_eq_none]

/-- A history reply logs as many samples as it brings. -/
theorem length_telemetryRows_handleHistory (u : Ui) (items : List (Option Sample)) :
    (telemetryRows (handleHistory u (some items))).length =
      (telemetryRows u).length + (items.filterMap id).length := by
  have hfold := foldl_handleHistoryItem (items.filterMap id) u
  have hlogged := (inert_note ((items.filterMap id).foldl handleHistoryItem u)
    { UiRow.plain .historyBatchLoaded with
      count := some (items.filterMap id).length,
      last := ((items.filterMap id).foldl handleHistoryItem u).lastN } rfl).telemetryRows
  rw [← hfold, ← hlogged]
  unfold handleHistory
  dsimp only
  split_ifs <;> rfl

/-- A history reply without samples is inert before the recovery is ended. -/
theorem inert_handleHistory (u : Ui) {items : List (Option Sample)}
    (hnone : items.filterMap id = []) : Inert u (handleHistory u (some items)) := by
  have hlogged : Inert u (logUiEvent u
      { UiRow.plain .historyBatchLoaded with count := some 0, last := u.lastN }) :=
    inert_note _ _ rfl
  unfold handleHistory
  simp only [hnone, List.foldl_nil, List.length_nil]
  split_ifs
  · exact hlogged.trans (.of_eq rfl rfl rfl rfl)
  · exact hlogged

/-- Ending the recovery is inert where none is pending. -/
theorem inert_endRecovery {u u' : Ui} (h : Inert u u') (hpending : u.pendingRecovery = false) :
    Inert u { u' with pendingRecovery := false } :=
  ⟨h.timersSet, h.reconnectCount, fun hp => absurd (hpending.symm.trans hp) Bool.false_ne_true,
    h.telemetryRows⟩

/-- A live sample is logged unless the display is paused. -/
theorem length_telemetryRows_handleTelemetry {u : Ui} (s : Sample) (hpaused : u.paused = false) :
    (telemetryRows (handleTelemetry u s)).length = (telemetryRows u).length + 1 := by
  have hlogged (row : UiRow) (hrow : row.event = .telemetryLive) :
      (telemetryRows (logUiEvent { u with pendingRecovery := false } row)).length =
        (telemetryRows u).length + 1 := by
    rw [telemetryRows_logUiEvent, List.length_append, List.filter_cons_of_pos]
    · rfl
    · simp [UiRow.isTelemetry, hrow]
  have hpushed (v : Ui) : telemetryRows { pushSample v s with latest := some s } =
      telemetryRows v :=
    (telemetryRows_shown (pushSample v s) _ _).trans (telemetryRows_pushSample v s)
  unfold handleTelemetry
  rw [if_neg (by rw [hpaused]; exact Bool.false_ne_true), hpushed]
  exact hlogged _ rfl

/-- A message is inert exactly where it is harmless. -/
theorem inert_onMessage_iff (u : Ui) (m : Message) :
    Inert u (onMessage u m) ↔ harmless u m = true := by
  cases m with
  | status => exact iff_of_true (.of_eq rfl rfl rfl rfl) rfl
  | other => exact iff_of_true (.of_eq rfl rfl rfl rfl) rfl
  | error => exact iff_of_true (inert_note _ _ rfl) rfl
  | telemetry s =>
    change Inert u (handleTelemetry u s) ↔ u.paused = true
    cases hpaused : u.paused with
    | true =>
      have hsame : handleTelemetry u s = u := by
        unfold handleTelemetry
        rw [if_pos hpaused]
      rw [hsame]
      exact iff_of_true (.of_eq rfl rfl rfl rfl) rfl
    | false =>
      refine iff_of_false (fun h => ?_) Bool.false_ne_true
      have hrows := congrArg List.length h.telemetryRows
      have hone := length_telemetryRows_handleTelemetry s hpaused
      omega
  | history items =>
    have hended (h : Inert u (onMessage u (.history items))) : u.pendingRecovery = false := by
      cases hpending : u.pendingRecovery with
      | false => rfl
      | true => exact absurd (h.pendingRecovery hpending) Bool.false_ne_true
    rw [harmless, Bool.and_eq_true, Bool.not_eq_true']
    cases items with
    | none =>
      exact ⟨fun h => ⟨hended h, rfl⟩, fun h => inert_endRecovery (.of_eq rfl rfl rfl rfl) h.1⟩
    | some items =>
      rw [Option.getD_some, ← filterMap_eq_nil_iff_all]
      constructor
      · intro h
        have hrows : (telemetryRows (handleHistory u (some items))).length =
            (telemetryRows u).length := congrArg List.length h.telemetryRows
        have hcount := length_telemetryRows_handleHistory u items
        exact ⟨hended h, List.eq_nil_of_length_eq_zero (by omega)⟩
      · rintro ⟨hpending, hnone⟩
        exact inert_endRecovery (inert_handleHistory u hnone) hpending

/-- An enabled step is inert where it is no event of a replaced socket, or
changes nothing that matters. -/
theorem inertStep_iff_of_step {i : ℕ} (hsocket : socketOf a = some i) (hstep : uiStep u a = some u') :
    InertStep (u, a) ↔ u.ws = some i ∨ Inert u u' := by
  constructor
  · intro h
    rw [or_iff_not_imp_left]
    exact fun hother => h i hsocket hother u' hstep
  · rintro h j hj hother v hv
    cases hsocket.symm.trans hj
    cases hstep.symm.trans hv
    exact h.resolve_left hother

/-- The steps that heed the condition are those whose events are inert. -/
theorem inertStep_iff_heeds (hstep : uiStep u a = some u') :
    InertStep (u, a) ↔ heeds (u, a) = true := by
  have hother (hsocket : socketOf a = none) : InertStep (u, a) :=
    fun i hi => absurd (hsocket.symm.trans hi) nofun
  cases a with
  | clickConnect creates => exact iff_of_true (hother rfl) rfl
  | clickDisconnect => exact iff_of_true (hother rfl) rfl
  | clickPause => exact iff_of_true (hother rfl) rfl
  | clickHistory => exact iff_of_true (hother rfl) rfl
  | clickClear => exact iff_of_true (hother rfl) rfl
  | input lastN => exact iff_of_true (hother rfl) rfl
  | timer id creates => exact iff_of_true (hother rfl) rfl
  | socketOpen i =>
    rw [inertStep_iff_of_step rfl hstep]
    rw [uiStep, Option.ite_none_right_eq_some] at hstep
    cases hstep.2
    have hopen := inert_of_changes (changes_onOpen { u with
      openEmitted := Function.update u.openEmitted i true
      readyState := if u.readyState i = .connecting then Function.update u.readyState i .opened
        else u.readyState }) rfl
    exact iff_of_true (.inr ((inert_sockets_iff u _ _ _).mp hopen)) rfl
  | socketClose i =>
    rw [inertStep_iff_of_step rfl hstep]
    rw [uiStep, Option.ite_none_right_eq_some] at hstep
    cases hstep.2
    rw [heeds, Bool.or_eq_true, Bool.or_eq_true, decide_eq_true_iff]
    refine or_congr_right ?_
    have hclose := inert_onClose_iff { u with readyState := Function.update u.readyState i .closed }
    exact (inert_sockets_iff u _ _ _).symm.trans hclose
  | socketError i =>
    rw [inertStep_iff_of_step rfl hstep]
    rw [uiStep, Option.ite_none_right_eq_some] at hstep
    cases hstep.2
    exact iff_of_true (.inr (inert_note _ _ rfl)) rfl
  | socketMessage i m =>
    rw [inertStep_iff_of_step rfl hstep]
    rw [uiStep, Option.ite_none_right_eq_some] at hstep
    cases hstep.2
    rw [heeds, Bool.or_eq_true, decide_eq_true_iff, inert_onMessage_iff]

/-- The timer that is set is the one that runs, and it does not run while the
current socket is open. -/
structure TimerInv (u : Ui) : Prop where
  /-- The running timers are the one that is set. -/
  timers : u.timers = u.reconnectTimer.toList
  /-- No timer runs while the current socket is open. -/
  untimed : OpenUntimed u

/-- No timer runs and none is set. -/
structure TimerCleared (u : Ui) : Prop where
  /-- No timer runs. -/
  timers : u.timers = []
  /-- None is set. -/
  reconnectTimer : u.reconnectTimer = none

/-- A cleared timer does not run. -/
theorem TimerCleared.inv (h : TimerCleared u) : TimerInv u :=
  ⟨by rw [h.timers, h.reconnectTimer]; rfl, fun _ _ _ => h.timers⟩

/-- Clearing the timer stops the one that runs. -/
theorem timerCleared_clearReconnectTimer (htimers : u.timers = u.reconnectTimer.toList) :
    TimerCleared (clearReconnectTimer u) := by
  unfold clearReconnectTimer
  split
  · next hnone => exact ⟨by rw [htimers, hnone]; rfl, hnone⟩
  · next timer hsome =>
    refine ⟨?_, rfl⟩
    change u.timers.erase timer = []
    rw [htimers, hsome, Option.toList_some, List.erase_cons_head]

/-- Giving up the connection stops the timer. -/
theorem timerCleared_disconnect (manual : Bool) (htimers : u.timers = u.reconnectTimer.toList) :
    TimerCleared (disconnect u manual) := by
  have hcleared : TimerCleared (clearReconnectTimer { u with manualDisconnect := manual }) :=
    timerCleared_clearReconnectTimer htimers
  unfold disconnect
  dsimp only
  split
  · exact hcleared
  · unfold closeSocket
    split_ifs
    · exact ⟨hcleared.timers, hcleared.reconnectTimer⟩
    · exact ⟨hcleared.timers, hcleared.reconnectTimer⟩

/-- So does connecting. -/
theorem timerCleared_connect (isReconnect creates : Bool)
    (htimers : u.timers = u.reconnectTimer.toList) :
    TimerCleared (connect u isReconnect creates) := by
  have hcleared : TimerCleared (disconnect u false) := timerCleared_disconnect false htimers
  unfold connect
  dsimp only
  split_ifs <;> exact ⟨hcleared.timers, hcleared.reconnectTimer⟩

/-- The kinds of changes that touch the sockets or the timer. -/
def Kind.connects : Kind → Bool
  | .link => true
  | .untime => true
  | .schedule => true
  | _ => false

/-- Every other change leaves the sockets and the timer as they are. -/
theorem sockets_of_change {k : Kind} (hc : Change u k u') (hk : Kind.connects k = false) :
    u'.ws = u.ws ∧ u'.readyState = u.readyState ∧ u'.timers = u.timers ∧
      u'.reconnectTimer = u.reconnectTimer := by
  cases hc with
  | live s =>
    unfold handleTelemetry
    split_ifs <;> exact ⟨rfl, rfl, rfl, rfl⟩
  | replay s =>
    unfold handleHistoryItem pushSample
    exact ⟨rfl, rfl, rfl, rfl⟩
  | link ws manualDisconnect created readyState openEmitted =>
    exact absurd hk.symm Bool.false_ne_true
  | untime timers => exact absurd hk.symm Bool.false_ne_true
  | schedule => exact absurd hk.symm Bool.false_ne_true
  | _ => exact ⟨rfl, rfl, rfl, rfl⟩

/-- Then the invariant is kept. -/
theorem TimerInv.changes {kinds : List Kind} (h : TimerInv u) (hchanges : Changes kinds u u')
    (hkinds : kinds.all (fun k => !Kind.connects k) = true) : TimerInv u' := by
  refine hchanges.keeps h fun k hk s t hc hs => ?_
  have hother := List.all_eq_true.mp hkinds k hk
  rw [Bool.not_eq_true'] at hother
  obtain ⟨hws, hready, htimers, htimer⟩ := sockets_of_change hc hother
  refine ⟨by rw [htimers, htimer, hs.timers], fun i hi hopen => ?_⟩
  rw [hws] at hi
  rw [hready] at hopen
  rw [htimers]
  exact hs.untimed i hi hopen

/-- The open event of a socket stops the timer. -/
theorem timerCleared_onOpen (htimers : u.timers = u.reconnectTimer.toList) :
    TimerCleared (onOpen u) := by
  have hcleared : TimerCleared (clearReconnectTimer (setButtons u true)) :=
    timerCleared_clearReconnectTimer htimers
  have hlogged : TimerCleared
      (logUiEvent (clearReconnectTimer (setButtons u true)) (UiRow.plain .wsOpen)) :=
    ⟨hcleared.timers, hcleared.reconnectTimer⟩
  unfold onOpen
  dsimp only
  split_ifs
  · refine (changes_requestHistory _).keeps hlogged fun k hk s t hc hs => ?_
    rw [List.mem_singleton.mp hk] at hc
    obtain ⟨-, -, htimers, htimer⟩ := sockets_of_change hc rfl
    exact ⟨htimers.trans hs.timers, htimer.trans hs.reconnectTimer⟩
  · exact hlogged

/-- A reconnection is scheduled where the current socket is not open, or not at
all. -/
theorem TimerInv.scheduleReconnect (h : TimerInv u)
    (hclosed : u.manualDisconnect = true ∨ u.reconnectTimer.isSome = true ∨
      ∀ i, u.ws = some i → u.readyState i ≠ .opened) : TimerInv (scheduleReconnect u) := by
  unfold UiSession.scheduleReconnect
  split_ifs with hmanual htimer
  · exact h
  · exact h
  · have hnone := Option.not_isSome_iff_eq_none.mp htimer
    have hws : ∀ i, u.ws = some i → u.readyState i ≠ .opened :=
      (hclosed.resolve_left fun hm => hmanual (.inr hm)).resolve_left htimer
    refine ⟨?_, fun i hi hopen => absurd hopen (hws i hi)⟩
    change u.timersSet :: u.timers = [u.timersSet]
    rw [h.timers, hnone]
    rfl

/-- A step that heeds the condition keeps the invariant. -/
theorem TimerInv.step (h : TimerInv u) (hok : heeds (u, a) = true) (hstep : uiStep u a = some u') :
    TimerInv u' := by
  cases a with
  | clickConnect creates =>
    rw [uiStep, Option.ite_none_left_eq_some] at hstep
    cases hstep.2
    exact (timerCleared_connect false creates h.timers).inv
  | clickDisconnect =>
    rw [uiStep, Option.ite_none_left_eq_some] at hstep
    cases hstep.2
    exact (timerCleared_disconnect true h.timers).inv
  | clickPause => exact h.changes (changes_of_step hstep) rfl
  | clickHistory => exact h.changes (changes_of_step hstep) rfl
  | clickClear => exact h.changes (changes_of_step hstep) rfl
  | input lastN => exact h.changes (changes_of_step hstep) rfl
  | timer id creates =>
    rw [uiStep, Option.ite_none_right_eq_some] at hstep
    obtain ⟨hrunning, hconnect⟩ := hstep
    cases hconnect
    refine (timerCleared_connect true creates ?_).inv
    change u.timers.erase id = []
    rw [h.timers] at hrunning ⊢
    rw [Option.mem_toList] at hrunning
    rw [hrunning, Option.toList_some, List.erase_cons_head]
  | socketOpen i =>
    rw [uiStep, Option.ite_none_right_eq_some] at hstep
    cases hstep.2
    refine (timerCleared_onOpen ?_).inv
    exact h.timers
  | socketClose i =>
    rw [uiStep, Option.ite_none_right_eq_some] at hstep
    cases hstep.2
    have hstate (j : ℕ) (hopen : Function.update u.readyState i .closed j = .opened) :
        j ≠ i ∧ u.readyState j = .opened := by
      rw [Function.update_apply] at hopen
      split_ifs at hopen with hj
      exact ⟨hj, hopen⟩
    refine TimerInv.scheduleReconnect ⟨h.timers, fun j hj hopen => ?_⟩ ?_
    · exact h.untimed j hj (hstate j hopen).2
    · rw [heeds, Bool.or_eq_true, Bool.or_eq_true, decide_eq_true_iff] at hok
      rcases hok with hcurrent | hmanual | htimer
      · refine .inr (.inr fun j hj hopen => (hstate j hopen).1 ?_)
        exact Option.some.inj (Eq.trans (Eq.symm hj) hcurrent)
      · exact .inl hmanual
      · exact .inr (.inl htimer)
  | socketError i => exact h.changes (changes_of_step hstep) rfl
  | socketMessage i m => exact h.changes (changes_of_step hstep) (by cases m <;> rfl)

/-- The invariant holds at the start. -/
theorem timerInv_init : TimerInv Ui.init := ⟨rfl, fun _ _ _ => rfl⟩

/-- So the invariant holds throughout a run all of whose steps heed the condition. -/
theorem timerInv_of_run {actions : List UiAction} (hrun : Run uiStep anyStep Ui.init actions u)
    (h : ∀ p ∈ trace uiStep Ui.init actions, heeds p = true) :
    (∀ p ∈ trace uiStep Ui.init actions, TimerInv p.1) ∧ TimerInv u := by
  induction hrun with
  | nil => exact ⟨fun p hp => absurd hp List.not_mem_nil, timerInv_init⟩
  | @snoc actions u u' a hrun _ hstep ih =>
    rw [hrun.trace_snoc] at h ⊢
    obtain ⟨hbefore, hlast⟩ := ih fun p hp => h p (List.mem_append_left _ hp)
    have hok : heeds (u, a) = true := h _ (List.mem_append_right _ (List.mem_singleton.mpr rfl))
    refine ⟨fun p hp => ?_, hlast.step hok hstep⟩
    rcases List.mem_append.mp hp with hold | hnew
    · exact hbefore p hold
    · rw [List.mem_singleton.mp hnew]
      exact hlast

/-- The events of replaced sockets are inert, and no timer is pending while the
current socket is open, in exactly the runs all of whose steps heed the
condition. -/
theorem sockets_apart_iff {actions : List UiAction}
    (hrun : Run uiStep anyStep Ui.init actions u) :
    SocketsApart (trace uiStep Ui.init actions) u ↔
      ∀ p ∈ trace uiStep Ui.init actions, heeds p = true := by
  have hsteps := hrun.step_of_mem_trace
  have hinert (p : Ui × UiAction) (hp : p ∈ trace uiStep Ui.init actions) :
      InertStep p ↔ heeds p = true := by
    obtain ⟨u', hstep⟩ := hsteps p hp
    exact inertStep_iff_heeds hstep
  constructor
  · intro h p hp
    exact (hinert p hp).mp (h.inert p hp)
  · intro h
    have huntimed := timerInv_of_run hrun h
    exact ⟨fun p hp => (hinert p hp).mpr (h p hp), fun p hp => (huntimed.1 p hp).untimed,
      huntimed.2.untimed⟩

/-- The first of two sockets fails before the second opens, and closes after the
second has closed. -/
def closesLast : List UiAction :=
  [.clickConnect true, .clickConnect true, .socketError 0, .socketOpen 1, .socketClose 1,
    .socketClose 0]

/-- The close of an old socket does no harm once the second one has closed. -/
theorem sockets_apart_iff_closesLast :
    ∃ u, Run uiStep anyStep Ui.init closesLast u ∧
      SocketsApart (trace uiStep Ui.init closesLast) u := by
  have hexec : (exec uiStep anyStep Ui.init closesLast).isSome = true := by decide +kernel
  obtain ⟨u, hu⟩ := Option.isSome_iff_exists.mp hexec
  have hrun := run_of_exec hu
  have hheeds : ∀ p ∈ trace uiStep Ui.init closesLast, heeds p = true := by decide +kernel
  refine ⟨u, hrun, ?_⟩
  rw [sockets_apart_iff hrun]
  exact hheeds

/-- The first of two sockets closes after the second has opened. -/
def closesLate : List UiAction :=
  [.clickConnect true, .clickConnect true, .socketOpen 1, .socketClose 0]

/-- Its close schedules a reconnection while the current socket is open, and
the timer gives up that socket. -/
theorem stale_close_reconnects :
    ∃ u u', Run uiStep anyStep Ui.init closesLate u ∧ u.ws = some 1 ∧
      u.readyState 1 = .opened ∧ u.timers = [0] ∧ u.reconnectCount = 1 ∧
      ¬ SocketsApart (trace uiStep Ui.init closesLate) u ∧
      uiStep u (.timer 0 true) = some u' ∧ u'.readyState 1 = .closing := by
  have hexec : (((exec uiStep anyStep Ui.init closesLate).bind fun u =>
      (uiStep u (.timer 0 true)).map fun u' =>
        (u.ws, u.readyState 1, u.timers, u.reconnectCount, u'.readyState 1))) =
      some (some 1, .opened, [0], 1, .closing) := by
    decide +kernel
  obtain ⟨u, hu, hnext⟩ := Option.bind_eq_some_iff.mp hexec
  obtain ⟨u', hu', hfields⟩ := Option.map_eq_some_iff.mp hnext
  simp only [Prod.mk.injEq] at hfields
  obtain ⟨hws, hopen, htimers, hcount, hclosing⟩ := hfields
  refine ⟨u, u', run_of_exec hu, hws, hopen, htimers, hcount, fun h => ?_, hu', hclosing⟩
  have hnone := h.untimed_last 1 hws hopen
  exact absurd (htimers.symm.trans hnone) (List.cons_ne_nil _ _)

end TelemetryPlatform.StaleSockets
