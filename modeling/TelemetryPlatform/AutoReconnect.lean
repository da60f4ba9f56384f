import TelemetryPlatform.StaleSockets

/-!
# Unattended reconnections

After one connect click the interface is left alone, apart from the number in
the input field. A new socket is then created only by the timer, and only after
the last one has closed. It asks for samples once, when it opens, provided that
the number asks for any.
-/

namespace TelemetryPlatform.AutoReconnect

open GuardedRuns UiChanges UiSession StaleSockets

variable {u u' : Ui} {a : UiAction}

/-- An action of an unattended run is no click. The messages of a socket come
after its open event. -/
def unattended (u : Ui) : UiAction → Bool
  | .clickConnect _ => false
  | .clickDisconnect => false
  | .clickPause => false
  | .clickHistory => false
  | .clickClear => false
  | .socketMessage i _ => u.openEmitted i
  | _ => true

/-- The step condition of an unattended run. -/
def Unattended (u : Ui) (a : UiAction) : Prop := unattended u a = true

instance (u : Ui) (a : UiAction) : Decidable (Unattended u a) := inferInstanceAs (Decidable (_ = _))

/-- Whether a number in the input field asks for samples. -/
def asks (lastN : Option ℚ) : Bool := lastN.any fun x => decide (1 ≤ x)

/-- The history requests in the log. -/
def requestRows (u : Ui) : List UiRow := u.uiLog.filter fun row => decide (row.event = .historyRequest)

/-- The sockets that samples were asked for on. -/
def askedSockets (u : Ui) : List ℕ := u.sent.map Prod.fst

/-- What holds of the sockets and the timer in an unattended run. -/
structure Automatic (u : Ui) : Prop where
  /-- A socket that has not closed is the current one. -/
  current : ∀ i, u.live i → u.ws = some i
  /-- The current socket was created. -/
  lt_created : ∀ i, u.ws = some i → i < u.created
  /-- Nothing has happened to the sockets to come. -/
  fresh : ∀ i, u.created ≤ i → u.readyState i = .connecting ∧ u.openEmitted i = false
  /-- A socket is open after its open event, until it closes. -/
  opened : ∀ i, u.live i → u.readyState i = if u.openEmitted i = true then .opened else .connecting
  /-- The running timers are the one that is set. -/
  timers : u.timers = u.reconnectTimer.toList
  /-- A timer runs when a socket was created and all have closed. -/
  timed : u.timers ≠ [] → 0 < u.created ∧ ∀ i, ¬ u.live i
  /-- Before the current socket opens, samples are to be asked for on all but
  the first one. -/
  pending : ∀ i, u.live i → u.openEmitted i = false → (u.pendingRecovery = true ↔ 0 < i)

/-- The requests of an unattended run: one on each socket that has opened, apart
from the first, provided that samples are asked for. -/
structure Requested (asked : Bool) (u : Ui) : Prop where
  /-- The number in the input field. -/
  lastN : asks u.lastN = asked
  /-- The requests by socket. -/
  sent : ∀ i, (askedSockets u).count i =
    if asked = true ∧ 0 < i ∧ u.openEmitted i = true then 1 else 0
  /-- Every request is logged. -/
  logged : (requestRows u).length = u.sent.length

/-- What shows or logs something, but no request. -/
def Shows (u u' : Ui) : Prop :=
  ∃ pendingRecovery log lastLiveSeq samples latest,
    u' = { u with pendingRecovery := pendingRecovery, uiLog := u.uiLog ++ log,
                  lastLiveSeq := lastLiveSeq, samples := samples, latest := latest } ∧
      log.filter (fun row => decide (row.event = .historyRequest)) = []

/-- A step that does nothing. -/
theorem Shows.refl (u : Ui) : Shows u u :=
  ⟨u.pendingRecovery, [], u.lastLiveSeq, u.samples, u.latest, by rw [List.append_nil], rfl⟩

/-- One such step after another. -/
theorem Shows.trans {v : Ui} (h : Shows u u') (h' : Shows u' v) : Shows u v := by
  obtain ⟨_, log, _, _, _, rfl, hlog⟩ := h
  obtain ⟨pending, log', seq, samples, latest, rfl, hlog'⟩ := h'
  refine ⟨pending, log ++ log', seq, samples, latest, by rw [List.append_assoc], ?_⟩
  rw [List.filter_append, hlog, hlog', List.append_nil]

/-- Logging another event. -/
theorem shows_note {row : UiRow} (hrow : UiEvent.isNote row.event = true) :
    Shows u (logUiEvent u row) := by
  refine ⟨u.pendingRecovery, [{ row with wsState := u.ws.map u.readyState }], u.lastLiveSeq,
    u.samples, u.latest, rfl, ?_⟩
  have hother : row.event ≠ .historyRequest := ne_of_isNote hrow rfl
  rw [List.filter_cons_of_neg (by simpa using hother), List.filter_nil]

/-- A live sample. -/
theorem shows_live (u : Ui) (s : Sample) : Shows u (handleTelemetry u s) := by
  unfold handleTelemetry
  split_ifs
  · exact .refl u
  · exact ⟨false, [{ UiRow.plain .telemetryLive with
      seq := s.seq
      tNs := s.tNs
      gapFromPrev := some (liveGap u.lastLiveSeq s.seq)
      wsState := u.ws.map u.readyState }], s.seq.or u.lastLiveSeq, _, some s, rfl, rfl⟩

/-- A sample of a history reply. -/
theorem shows_replay (u : Ui) (s : Sample) : Shows u (handleHistoryItem u s) :=
  ⟨u.pendingRecovery, [{ UiRow.plain .telemetryReplay with
    seq := s.seq
    tNs := s.tNs
    wsState := u.ws.map u.readyState }], u.lastLiveSeq, _, u.latest, rfl, rfl⟩

/-- A message only shows or logs something. -/
theorem shows_onMessage (u : Ui) (m : Message) : Shows u (onMessage u m) := by
  refine (changes_onMessage u m).keeps (.refl u) fun k hk s t hc hs => hs.trans ?_
  have hkinds : k ∈ [Kind.live, .replay, .note, .latest, .recovery] := by
    cases m <;> first
      | exact List.mem_cons_of_mem _ hk
      | exact List.mem_singleton.mp hk ▸ List.mem_cons_self
  cases hc with
  | note row hrow => exact shows_note hrow
  | live x => exact shows_live s x
  | replay x => exact shows_replay s x
  | latest latest =>
    exact ⟨s.pendingRecovery, [], s.lastLiveSeq, s.samples, latest, by rw [List.append_nil], rfl⟩
  | recovery pending =>
    exact ⟨pending, [], s.lastLiveSeq, s.samples, s.latest, by rw [List.append_nil], rfl⟩
  | _ => exact absurd hkinds (by decide)

/-- Where every socket has closed, little is left to hold. -/
theorem automatic_of_dead (hdead : ∀ i, ¬ u.live i) (hcreated : ∀ i, u.ws = some i → i < u.created)
    (hfresh : ∀ i, u.created ≤ i → u.readyState i = .connecting ∧ u.openEmitted i = false)
    (htimers : u.timers = u.reconnectTimer.toList) (htimed : u.timers ≠ [] → 0 < u.created) :
    Automatic u where
  current i hi := absurd hi (hdead i)
  lt_created := hcreated
  fresh := hfresh
  opened i hi := absurd hi (hdead i)
  timers := htimers
  timed h := ⟨htimed h, hdead⟩
  pending i hi := absurd hi (hdead i)

/-- What holds of the sockets is kept, provided that a pending recovery is left
as it is before the current socket opens. -/
theorem Automatic.of_shows (h : Automatic u) (hshows : Shows u u')
    (hpending : u'.pendingRecovery = u.pendingRecovery ∨ ∀ i, u.live i → u.openEmitted i = true) :
    Automatic u' := by
  obtain ⟨pending, log, seq, samples, latest, rfl, -⟩ := hshows
  refine ⟨h.current, h.lt_created, h.fresh, h.opened, h.timers, h.timed, fun i hlive hunopened => ?_⟩
  obtain hsame | hopened := hpending
  · have hpend := h.pending i hlive hunopened
    rw [← hsame] at hpend
    exact hpend
  · have hopen := hopened i hlive
    rw [hunopened] at hopen
    exact absurd hopen Bool.false_ne_true

/-- No request is made. -/
theorem Requested.of_shows {asked : Bool} (h : Requested asked u) (hshows : Shows u u') :
    Requested asked u' := by
  obtain ⟨pending, log, seq, samples, latest, rfl, hlog⟩ := hshows
  refine ⟨h.lastN, h.sent, ?_⟩
  rw [requestRows, List.filter_append, hlog, List.append_nil]
  exact h.logged

/-- Giving up a closed socket. -/
theorem disconnect_of_closed (hclosed : ∀ i, u.ws = some i → u.readyState i = .closed)
    (htimer : u.reconnectTimer = none) (manual : Bool) :
    disconnect u manual = { u with manualDisconnect := manual, ws := none } := by
  have hcleared : clearReconnectTimer { u with manualDisconnect := manual } =
      { u with manualDisconnect := manual } := by
    unfold clearReconnectTimer
    dsimp only
    rw [htimer]
  unfold disconnect
  rw [hcleared]
  dsimp only
  split
  · next hws => rw [← hws]
  · next i hws =>
    unfold closeSocket
    rw [if_pos (hclosed i hws)]

/-- Connecting again where the last socket has closed. -/
theorem connect_of_closed (hclosed : ∀ i, u.ws = some i → u.readyState i = .closed)
    (htimer : u.reconnectTimer = none) (creates : Bool) :
    connect u true creates =
      if creates = true then
        logUiEvent { u with manualDisconnect := false, ws := some u.created, created := u.created + 1 }
          (UiRow.plain .wsReconnectAttempt)
      else { u with manualDisconnect := false, ws := none } := by
  unfold connect
  rw [disconnect_of_closed hclosed htimer]
  cases creates <;> rfl

/-- The state in which the timer expires. -/
def timerExpired (u : Ui) (id : ℕ) : Ui :=
  { u with timers := u.timers.erase id, reconnectTimer := none, pendingRecovery := true }

/-- The timer that runs is the only one, and the current socket has closed. -/
theorem Automatic.at_expiry (h : Automatic u) {id : ℕ} (hid : id ∈ u.timers) :
    u.timers.erase id = [] ∧ 0 < u.created ∧ (∀ i, ¬ u.live i) ∧
      ∀ i, u.ws = some i → u.readyState i = .closed := by
  have htimers := h.timers
  obtain ⟨hcreated, hclosed⟩ := h.timed (List.ne_nil_of_mem hid)
  refine ⟨?_, hcreated, hclosed, fun i hws => ?_⟩
  · rw [htimers] at hid ⊢
    rw [Option.mem_toList] at hid
    rw [hid, Option.toList_some, List.erase_cons_head]
  · by_contra hopen
    exact hclosed i ⟨h.lt_created i hws, hopen⟩

/-- The timer expires. -/
theorem Automatic.timer (h : Automatic u) {id : ℕ} (hid : id ∈ u.timers) (creates : Bool) :
    Automatic (connect (timerExpired u id) true creates) := by
  obtain ⟨hnone, hcreated, hdead, hclosed⟩ := h.at_expiry hid
  rw [connect_of_closed (u := timerExpired u id) hclosed rfl]
  split_ifs
  · have hlive (i : ℕ) (hi : i < u.created + 1 ∧ u.readyState i ≠ .closed) : i = u.created := by
      by_contra hne
      exact hdead i ⟨by omega, hi.2⟩
    refine ⟨fun i hi => ?_, fun i hws => ?_, fun i hi => ?_, fun i hi => ?_, hnone,
      fun htimers => absurd hnone htimers, fun i hi _ => ?_⟩
    · exact congrArg some (hlive i hi).symm
    · cases hws
      exact Nat.lt_succ_self _
    · exact h.fresh i (Nat.le_of_succ_le hi)
    · obtain ⟨hconnecting, hunopened⟩ := h.fresh i (hlive i hi).ge
      change u.readyState i = if u.openEmitted i = true then _ else _
      rw [hconnecting, hunopened]
      rfl
    · rw [hlive i hi]
      exact iff_of_true rfl hcreated
  · exact automatic_of_dead hdead (fun i hws => absurd hws.symm (Option.some_ne_none i)) h.fresh hnone
      fun htimers => absurd hnone htimers

/-- It makes no request. -/
theorem Requested.timer {asked : Bool} (h : Requested asked u) (hsockets : Automatic u) {id : ℕ}
    (hid : id ∈ u.timers) (creates : Bool) :
    Requested asked (connect (timerExpired u id) true creates) := by
  obtain ⟨-, -, -, hclosed⟩ := hsockets.at_expiry hid
  rw [connect_of_closed (u := timerExpired u id) hclosed rfl]
  split_ifs
  · refine Requested.of_shows (u := { timerExpired u id with
      manualDisconnect := false, ws := some u.created, created := u.created + 1 }) ?_
      (shows_note rfl)
    exact ⟨h.lastN, h.sent, h.logged⟩
  · exact ⟨h.lastN, h.sent, h.logged⟩

/-- The state in which a socket opens. -/
def socketOpened (u : Ui) (i : ℕ) : Ui :=
  { u with
    openEmitted := Function.update u.openEmitted i true
    readyState := if u.readyState i = .connecting then Function.update u.readyState i .opened
      else u.readyState }

/-- Then the socket has emitted its open event. -/
theorem openEmitted_socketOpened (u : Ui) (i j : ℕ) :
    (socketOpened u i).openEmitted j = if j = i then true else u.openEmitted j :=
  Function.update_apply u.openEmitted i true j

/-- Logging a row adds it to the history requests, if it is one. -/
theorem length_requestRows_logUiEvent (u : Ui) (row : UiRow) :
    (requestRows (logUiEvent u row)).length =
      (requestRows u).length + if row.event = .historyRequest then 1 else 0 := by
  rw [requestRows, logUiEvent, List.filter_append, List.length_append]
  split_ifs with hrow
  · rw [List.filter_cons_of_pos (by rw [decide_eq_true_eq]; exact hrow)]
    rfl
  · rw [List.filter_cons_of_neg (by rw [decide_eq_true_eq]; exact hrow)]
    rfl

/-- A number asks for samples where some are requested for it. -/
theorem asks_iff (u : Ui) : 0 < getRequestedHistoryCount u ↔ asks u.lastN = true := by
  unfold getRequestedHistoryCount asks
  cases u.lastN with
  | none => exact iff_of_false (Nat.lt_irrefl 0) Bool.false_ne_true
  | some raw =>
    have hfloor : (1 : ℚ) ≤ raw ↔ 1 ≤ ⌊raw⌋ := by rw [Int.le_floor, Int.cast_one]
    rw [Option.any_some, decide_eq_true_iff, hfloor]
    dsimp only
    split_ifs with hraw
    · have hnonpos : ⌊raw⌋ ≤ 0 := Int.cast_nonpos.mp ((Int.floor_le raw).trans hraw)
      omega
    · omega

/-- The open event where no timer is set. -/
theorem onOpen_of_untimed (htimer : u.reconnectTimer = none) :
    onOpen u =
      if u.pendingRecovery = true ∧ asks u.lastN = true then
        requestHistory (logUiEvent (setButtons u true) (UiRow.plain .wsOpen))
      else logUiEvent (setButtons u true) (UiRow.plain .wsOpen) := by
  have hcleared : clearReconnectTimer (setButtons u true) = setButtons u true := by
    have huntimed : (setButtons u true).reconnectTimer = none := htimer
    unfold clearReconnectTimer
    rw [huntimed]
  unfold onOpen
  rw [hcleared]
  simp only [asks_iff]
  rfl

/-- A request on the current socket while it is open. -/
theorem requestHistory_of_open {i : ℕ} (hws : u.ws = some i) (hopen : u.readyState i = .opened)
    (hasks : asks u.lastN = true) :
    requestHistory u =
      { logUiEvent u { UiRow.plain .historyRequest with last := some (getRequestedHistoryCount u) } with
        sent := u.sent ++ [(i, getRequestedHistoryCount u)] } := by
  have hcount := (asks_iff u).mpr hasks
  unfold requestHistory
  dsimp only
  rw [if_neg hcount.ne', hws]
  dsimp only
  rw [if_pos hopen]
  rfl

/-- Where a socket that has not closed is around, no timer runs. -/
theorem Automatic.untimed (h : Automatic u) {i : ℕ} (hlive : u.live i) : u.reconnectTimer = none := by
  have hnone : u.timers = [] := by
    by_contra htimers
    exact (h.timed htimers).2 i hlive
  have htimers := h.timers
  rw [hnone] at htimers
  exact Option.toList_eq_nil_iff.mp htimers.symm

/-- The open event leaves the sockets and the timer alone. -/
theorem Automatic.onOpen (h : Automatic u) (htimer : u.reconnectTimer = none) :
    Automatic (onOpen u) := by
  have hshown : Automatic (logUiEvent (setButtons u true) (UiRow.plain .wsOpen)) :=
    ⟨h.current, h.lt_created, h.fresh, h.opened, h.timers, h.timed, h.pending⟩
  rw [onOpen_of_untimed htimer]
  split_ifs
  · unfold requestHistory
    dsimp only
    split_ifs
    · exact hshown
    · split
      · exact hshown
      · split_ifs
        · exact ⟨hshown.current, hshown.lt_created, hshown.fresh, hshown.opened, hshown.timers,
            hshown.timed, hshown.pending⟩
        · exact hshown
  · exact hshown

/-- A socket opens. -/
theorem Automatic.open (h : Automatic u) {i : ℕ} (hlive : u.live i)
    (hunopened : u.openEmitted i = false) : Automatic (UiSession.onOpen (socketOpened u i)) := by
  have hconnecting : u.readyState i = .connecting := by
    rw [h.opened i hlive, hunopened]
    rfl
  have hready : (socketOpened u i).readyState = Function.update u.readyState i .opened :=
    if_pos hconnecting
  have hother (j : ℕ) (hj : (socketOpened u i).live j) : u.live j := by
    obtain ⟨hcreated, hopen⟩ := hj
    by_cases hji : j = i
    · exact hji ▸ hlive
    · rw [hready, Function.update_of_ne hji] at hopen
      exact ⟨hcreated, hopen⟩
  have honly (j : ℕ) (hj : (socketOpened u i).live j) : j = i :=
    Option.some.inj ((h.current j (hother j hj)).symm.trans (h.current i hlive))
  refine Automatic.onOpen ⟨fun j hj => h.current j (hother j hj), h.lt_created, fun j hj => ?_,
    fun j hj => ?_, h.timers, fun htimers => ?_, fun j hj hclosed => ?_⟩ (h.untimed hlive)
  · have hne : j ≠ i := (hlive.1.trans_le hj).ne'
    rw [hready, Function.update_of_ne hne]
    exact ⟨(h.fresh j hj).1, (Function.update_of_ne hne _ _).trans (h.fresh j hj).2⟩
  · rw [honly j hj, hready, Function.update_self]
    exact (if_pos (Function.update_self i true u.openEmitted)).symm
  · exact absurd hlive ((h.timed htimers).2 i)
  · rw [honly j hj, openEmitted_socketOpened, if_pos rfl] at hclosed
    exact absurd hclosed.symm Bool.false_ne_true

/-- A socket that was created by the timer asks for samples when it opens. -/
theorem Requested.open {asked : Bool} (h : Requested asked u) (hsockets : Automatic u) {i : ℕ}
    (hlive : u.live i) (hunopened : u.openEmitted i = false) :
    Requested asked (UiSession.onOpen (socketOpened u i)) := by
  have hconnecting : u.readyState i = .connecting := by
    rw [hsockets.opened i hlive, hunopened]
    rfl
  have hready : (socketOpened u i).readyState i = .opened := by
    rw [socketOpened, if_pos hconnecting]
    exact Function.update_self i .opened u.readyState
  have hpending := hsockets.pending i hlive hunopened
  have hunasked : (askedSockets u).count i = 0 := by
    rw [h.sent, hunopened, if_neg fun hall => Bool.false_ne_true hall.2.2]
  have hlogged : (requestRows (logUiEvent (setButtons (socketOpened u i) true)
      (UiRow.plain .wsOpen))).length = u.sent.length :=
    (length_requestRows_logUiEvent _ _).trans h.logged
  rw [onOpen_of_untimed (u := socketOpened u i) (hsockets.untimed hlive)]
  change Requested asked (if u.pendingRecovery = true ∧ asks u.lastN = true then _ else _)
  by_cases hrequest : u.pendingRecovery = true ∧ asks u.lastN = true
  · obtain ⟨hpend, hasks⟩ := hrequest
    rw [if_pos ⟨hpend, hasks⟩,
      requestHistory_of_open (u := logUiEvent (setButtons (socketOpened u i) true) _)
        (hsockets.current i hlive) hready hasks]
    have hcount (n j : ℕ) : (List.map Prod.fst (u.sent ++ [(i, n)])).count j =
        if asked = true ∧ 0 < j ∧ (socketOpened u i).openEmitted j = true then 1 else 0 := by
      rw [List.map_append, List.map_cons, List.map_nil, List.count_append, openEmitted_socketOpened]
      by_cases hj : j = i
      · rw [hj, if_pos rfl, if_pos ⟨h.lastN.symm.trans hasks, hpending.mp hpend, rfl⟩,
          List.count_singleton_self]
        exact congrArg (· + 1) hunasked
      · rw [if_neg hj, List.count_eq_zero_of_not_mem (l := [i]) (by simpa using hj)]
        exact h.sent j
    refine ⟨h.lastN, fun j => hcount _ j, ?_⟩
    change (requestRows (logUiEvent _ _)).length = (u.sent ++ [(i, _)]).length
    rw [length_requestRows_logUiEvent, hlogged, List.length_append]
    rfl
  · rw [if_neg hrequest]
    have hcount (j : ℕ) : (askedSockets u).count j =
        if asked = true ∧ 0 < j ∧ (socketOpened u i).openEmitted j = true then 1 else 0 := by
      rw [openEmitted_socketOpened]
      by_cases hj : j = i
      · rw [hj, hunasked, if_neg fun hall =>
          hrequest ⟨hpending.mpr hall.2.1, h.lastN.trans hall.1⟩]
      · rw [if_neg hj]
        exact h.sent j
    exact ⟨h.lastN, hcount, hlogged⟩

/-- The state in which a socket closes. -/
def socketClosed (u : Ui) (i : ℕ) : Ui :=
  { u with readyState := Function.update u.readyState i .closed }

/-- A socket closes. -/
theorem Automatic.close (h : Automatic u) {i : ℕ} (hlive : u.live i) :
    Automatic (onClose (socketClosed u i)) := by
  have hdead (j : ℕ) : ¬ (socketClosed u i).live j := by
    rintro ⟨hcreated, hopen⟩
    change Function.update u.readyState i .closed j ≠ .closed at hopen
    by_cases hj : j = i
    · exact hopen (by rw [hj, Function.update_self])
    · rw [Function.update_of_ne hj] at hopen
      exact hj (Option.some.inj ((h.current j ⟨hcreated, hopen⟩).symm.trans (h.current i hlive)))
  have hfresh (j : ℕ) (hj : u.created ≤ j) :
      (socketClosed u i).readyState j = .connecting ∧ u.openEmitted j = false := by
    change Function.update u.readyState i .closed j = _ ∧ _
    rw [Function.update_of_ne (hlive.1.trans_le hj).ne']
    exact h.fresh j hj
  have hcreated : 0 < u.created := Nat.zero_lt_of_lt hlive.1
  unfold onClose scheduleReconnect
  split_ifs
  · exact automatic_of_dead hdead h.lt_created hfresh h.timers fun _ => hcreated
  · exact automatic_of_dead hdead h.lt_created hfresh h.timers fun _ => hcreated
  · refine automatic_of_dead hdead h.lt_created hfresh ?_ fun _ => hcreated
    change u.timersSet :: u.timers = [u.timersSet]
    rw [h.timers, h.untimed hlive]
    rfl

/-- No request is made when a socket closes. -/
theorem Requested.close {asked : Bool} (h : Requested asked u) (i : ℕ) :
    Requested asked (onClose (socketClosed u i)) := by
  have hlogged : (requestRows (logUiEvent (setButtons (socketClosed u i) false)
      (UiRow.plain .wsClose))).length = u.sent.length :=
    (length_requestRows_logUiEvent _ _).trans h.logged
  unfold onClose scheduleReconnect
  split_ifs <;> exact ⟨h.lastN, h.sent, hlogged⟩

/-- What a step of an unattended run can be. -/
inductive UnattendedStep (u : Ui) : UiAction → Ui → Prop
  /-- The number in the input field is changed. -/
  | input (lastN : Option ℚ) : UnattendedStep u (.input lastN) { u with lastN := lastN }
  /-- A timer expires. -/
  | timer {id : ℕ} (creates : Bool) : id ∈ u.timers →
      UnattendedStep u (.timer id creates) (connect (timerExpired u id) true creates)
  /-- A socket opens. -/
  | socketOpen {i : ℕ} : u.live i → u.openEmitted i = false →
      UnattendedStep u (.socketOpen i) (onOpen (socketOpened u i))
  /-- A socket closes. -/
  | socketClose {i : ℕ} : u.live i → UnattendedStep u (.socketClose i) (onClose (socketClosed u i))
  /-- A socket fails. -/
  | socketError {i : ℕ} : UnattendedStep u (.socketError i) (onError u)
  /-- A message comes after the open event of its socket. -/
  | socketMessage {i : ℕ} (m : Message) : u.live i → u.openEmitted i = true →
      UnattendedStep u (.socketMessage i m) (onMessage u m)

/-- There is no other step. -/
theorem unattended_cases (hok : Unattended u a) (hstep : uiStep u a = some u') :
    UnattendedStep u a u' := by
  cases a with
  | clickConnect creates => exact absurd hok Bool.false_ne_true
  | clickDisconnect => exact absurd hok Bool.false_ne_true
  | clickPause => exact absurd hok Bool.false_ne_true
  | clickHistory => exact absurd hok Bool.false_ne_true
  | clickClear => exact absurd hok Bool.false_ne_true
  | input lastN =>
    cases hstep
    exact .input lastN
  | timer id creates =>
    rw [uiStep, Option.ite_none_right_eq_some] at hstep
    obtain ⟨hid, hconnect⟩ := hstep
    cases hconnect
    exact .timer creates hid
  | socketOpen i =>
    rw [uiStep, Option.ite_none_right_eq_some] at hstep
    obtain ⟨⟨hlive, hunopened⟩, hopen⟩ := hstep
    cases hopen
    exact .socketOpen hlive hunopened
  | socketClose i =>
    rw [uiStep, Option.ite_none_right_eq_some] at hstep
    obtain ⟨hlive, hclose⟩ := hstep
    cases hclose
    exact .socketClose hlive
  | socketError i =>
    rw [uiStep, Option.ite_none_right_eq_some] at hstep
    cases hstep.2
    exact .socketError
  | socketMessage i m =>
    rw [uiStep, Option.ite_none_right_eq_some] at hstep
    obtain ⟨hlive, hreceive⟩ := hstep
    cases hreceive
    exact .socketMessage m hlive hok

/-- A step of an unattended run keeps what holds of the sockets. -/
theorem Automatic.step (h : Automatic u) (hstep : UnattendedStep u a u') : Automatic u' := by
  cases hstep with
  | input lastN =>
    exact ⟨h.current, h.lt_created, h.fresh, h.opened, h.timers, h.timed, h.pending⟩
  | timer creates hid => exact h.timer hid creates
  | socketOpen hlive hunopened => exact h.open hlive hunopened
  | socketClose hlive => exact h.close hlive
  | socketError => exact h.of_shows (shows_note rfl) (.inl rfl)
  | @socketMessage i m hlive hopened =>
    refine h.of_shows (shows_onMessage u m) (.inr fun j hj => ?_)
    have hcurrent : j = i := Option.some.inj ((h.current j hj).symm.trans (h.current i hlive))
    rw [hcurrent, hopened]

/-- So does it keep what holds of the requests. -/
theorem Requested.step {asked : Bool} (h : Requested asked u) (hsockets : Automatic u)
    (hinput : ∀ lastN, a = .input lastN → asks lastN = asked) (hstep : UnattendedStep u a u') :
    Requested asked u' := by
  cases hstep with
  | input lastN => exact ⟨hinput lastN rfl, h.sent, h.logged⟩
  | timer creates hid => exact h.timer hsockets hid creates
  | socketOpen hlive hunopened => exact h.open hsockets hlive hunopened
  | @socketClose i => exact h.close i
  | socketError => exact h.of_shows (shows_note rfl)
  | socketMessage m => exact h.of_shows (shows_onMessage u m)

/-- The state behind the connect click. -/
def clicked (lastN : Option ℚ) (creates : Bool) : Ui :=
  connect { Ui.init with lastN := lastN } false creates

/-- Behind the click there is one socket, or none. -/
theorem automatic_clicked (lastN : Option ℚ) (creates : Bool) : Automatic (clicked lastN creates) := by
  cases creates with
  | false =>
    have hdead (i : ℕ) : ¬ (clicked lastN false).live i := fun hi => Nat.not_lt_zero i hi.1
    exact automatic_of_dead hdead (fun i hws => absurd hws.symm (Option.some_ne_none i))
      (fun i _ => ⟨rfl, rfl⟩) rfl fun htimers => absurd rfl htimers
  | true =>
    have honly (i : ℕ) (hi : (clicked lastN true).live i) : i = 0 := Nat.lt_one_iff.mp hi.1
    refine ⟨fun i hi => congrArg some (honly i hi).symm, fun i hws => ?_, fun i _ => ⟨rfl, rfl⟩,
      fun i _ => rfl, rfl, fun htimers => absurd rfl htimers, fun i hi _ => ?_⟩
    · cases hws
      exact Nat.one_pos
    · rw [honly i hi]
      exact iff_of_false Bool.false_ne_true (Nat.lt_irrefl 0)

/-- Behind the click no request was made. -/
theorem requested_clicked (lastN : Option ℚ) (creates : Bool) :
    Requested (asks lastN) (clicked lastN creates) := by
  cases creates with
  | false => exact ⟨rfl, fun i => (if_neg fun hall => Bool.false_ne_true hall.2.2).symm, rfl⟩
  | true => exact ⟨rfl, fun i => (if_neg fun hall => Bool.false_ne_true hall.2.2).symm, rfl⟩

/-- What holds in a run whose reconnections all ask for samples, or none of them. -/
structure Tracked (asked : Bool) (u : Ui) : Prop where
  /-- The sockets. -/
  sockets : Automatic u
  /-- The requests. -/
  requests : Requested asked u

/-- What holds of the sockets holds throughout an unattended run. -/
theorem automatic_of_run {lastN : Option ℚ} {creates : Bool} {later : List UiAction}
    (hrun : Run uiStep Unattended (clicked lastN creates) later u) : Automatic u :=
  hrun.invariant (automatic_clicked lastN creates) fun _ _ _ hok hstep h => h.step (unattended_cases hok hstep)

/-- And so does what holds of the requests, where the number in the input field
asks for samples throughout or never does. -/
theorem requested_of_run {lastN : Option ℚ} {creates : Bool} {later : List UiAction}
    (hrun : Run uiStep Unattended (clicked lastN creates) later u)
    (hinput : ∀ n, .input n ∈ later → asks n = asks lastN) : Requested (asks lastN) u := by
  have hall : ∀ a ∈ later, ∀ n, a = .input n → asks n = asks lastN := by
    rintro a ha n rfl
    exact hinput n ha
  have hstart : Tracked (asks lastN) (clicked lastN creates) :=
    ⟨automatic_clicked lastN creates, requested_clicked lastN creates⟩
  have htracked : Tracked (asks lastN) u := by
    refine (hrun.strengthen hall).invariant hstart fun _ _ _ hok hstep h => ?_
    have hcases := unattended_cases hok.1 hstep
    exact ⟨h.sockets.step hcases, h.requests.step h.sockets hok.2 hcases⟩
  exact htracked.requests

/-- In a run that begins with the connect click and has no other one, at most one
timer runs, and the sockets that the timer creates are those behind the first.
Where the number in the input field stays at least 1, each of them that opens
asks for samples exactly once, before any live sample from it, and the first one
never does. Where it stays below 1, nothing is asked for or logged as a request. -/
theorem reconnections_ask_once {lastN : Option ℚ} {creates : Bool} {later : List UiAction} {u₀ : Ui}
    (hclick : uiStep { Ui.init with lastN := lastN } (.clickConnect creates) = some u₀)
    (hrun : Run uiStep Unattended u₀ later u) :
    u.timers.length ≤ 1 ∧ u₀.created ≤ 1 ∧
      (∀ p ∈ trace uiStep u₀ later, ∀ id creates, p.2 = .timer id creates → 0 < p.1.created) ∧
      (asks lastN = true ∧ (∀ n, .input n ∈ later → asks n = true) →
        (∀ i, (askedSockets u).count i = if 0 < i ∧ u.openEmitted i = true then 1 else 0) ∧
          (requestRows u).length = u.sent.length ∧
          ∀ p ∈ trace uiStep u₀ later, ∀ i s, p.2 = .socketMessage i (.telemetry s) → 0 < i →
            i ∈ askedSockets p.1 ∧ (requestRows p.1).length = p.1.sent.length) ∧
      (asks lastN = false ∧ (∀ n, .input n ∈ later → asks n = false) →
        u.sent = [] ∧ requestRows u = []) := by
  rw [uiStep, Option.ite_none_left_eq_some] at hclick
  cases hclick.2
  change Run uiStep Unattended (clicked lastN creates) later u at hrun
  have hsockets := automatic_of_run hrun
  have hreached := hrun.reached_of_mem_trace
  refine ⟨?_, ?_, ?_, ?_, ?_⟩
  · rw [hsockets.timers]
    cases u.reconnectTimer <;> simp
  · cases creates
    · exact Nat.zero_le 1
    · exact Nat.le_refl 1
  · intro p hp id creates' hexpires
    obtain ⟨⟨earlier, -, hearlier⟩, -⟩ := hreached p hp
    obtain ⟨t, hstep⟩ := hrun.step_of_mem_trace p hp
    rw [hexpires, uiStep, Option.ite_none_right_eq_some] at hstep
    exact ((automatic_of_run hearlier).timed (List.ne_nil_of_mem hstep.1)).1
  · rintro ⟨hfirst, hinput⟩
    have hrequested := requested_of_run hrun fun n hn => (hinput n hn).trans hfirst.symm
    refine ⟨fun i => ?_, hrequested.logged, fun p hp i s hlive hpositive => ?_⟩
    · rw [hrequested.sent i, hfirst]
      simp only [true_and]
    · obtain ⟨⟨earlier, hfirsts, hearlier⟩, hok⟩ := hreached p hp
      have hbefore := requested_of_run hearlier fun n hn =>
        (hinput n (hfirsts.subset hn)).trans hfirst.symm
      rw [Unattended, hlive] at hok
      refine ⟨List.count_pos_iff.mp ?_, hbefore.logged⟩
      rw [hbefore.sent i, if_pos ⟨hfirst, hpositive, hok⟩]
      exact Nat.one_pos
  · rintro ⟨hfirst, hinput⟩
    have hrequested := requested_of_run hrun fun n hn => (hinput n hn).trans hfirst.symm
    have hunsent : u.sent = [] := by
      refine (List.map_eq_nil_iff (f := Prod.fst)).mp
        (List.eq_nil_iff_forall_not_mem.mpr fun i hi => ?_)
      have hcount := hrequested.sent i
      rw [hfirst, if_neg fun hall => Bool.false_ne_true hall.1] at hcount
      exact List.count_eq_zero.mp hcount hi
    refine ⟨hunsent, List.length_eq_zero_iff.mp ?_⟩
    rw [hrequested.logged, hunsent]
    rfl

/-- A session, a failed attempt and a second session. -/
def failedAttempt : List UiAction :=
  [.socketOpen 0, .socketMessage 0 (.telemetry ⟨some 1, some 1⟩), .socketClose 0, .timer 0 true,
    .socketError 1, .socketClose 1, .timer 1 true, .socketOpen 2,
    .socketMessage 2 (.telemetry ⟨some 9, some 9⟩)]

/-- A reconnection that fails and one that succeeds. -/
theorem reconnections_ask_once_failedAttempt :
    ∃ u, Run uiStep Unattended (clicked (some 300) true) failedAttempt u ∧ u.timers.length ≤ 1 ∧
      ∀ i, (askedSockets u).count i = if 0 < i ∧ u.openEmitted i = true then 1 else 0 := by
  have hexec : (exec uiStep Unattended (clicked (some 300) true) failedAttempt).isSome = true := by
    decide +kernel
  obtain ⟨u, hu⟩ := Option.isSome_iff_exists.mp hexec
  have hrun := run_of_exec hu
  have hinput : ∀ n, UiAction.input n ∉ failedAttempt := by
    intro n hn
    simp [failedAttempt] at hn
  have hclick : uiStep { Ui.init with lastN := some 300 } (.clickConnect true) =
      some (clicked (some 300) true) := rfl
  obtain ⟨htimers, -, -, hasked, -⟩ := reconnections_ask_once hclick hrun
  exact ⟨u, hrun, htimers, (hasked ⟨by decide, fun n hn => absurd hn (hinput n)⟩).1⟩

/-- A session and a reconnection. -/
def oneReconnection : List UiAction := [.socketOpen 0, .socketClose 0, .timer 0 true, .socketOpen 1]

/-- With the number one half no samples are asked for, although it is positive. -/
theorem half_asks_for_nothing :
    ∃ u, Run uiStep Unattended (clicked (some (1 / 2)) true) oneReconnection u ∧
      (0 : ℚ) < 1 / 2 ∧ u.lastN = some (1 / 2) ∧ u.openEmitted 1 = true ∧ u.sent = [] ∧
      (requestRows u).length = 0 := by
  have hexec : ((exec uiStep Unattended (clicked (some (1 / 2)) true) oneReconnection).map fun u =>
      (u.lastN, u.openEmitted 1, u.sent, (requestRows u).length)) =
      some (some (1 / 2), true, [], 0) := by
    decide +kernel
  obtain ⟨u, hu, hfields⟩ := Option.map_eq_some_iff.mp hexec
  simp only [Prod.mk.injEq] at hfields
  obtain ⟨hlastN, hopen, hsent, hrows⟩ := hfields
  exact ⟨u, run_of_exec hu, one_half_pos, hlastN, hopen, hsent, hrows⟩

end TelemetryPlatform.AutoReconnect
