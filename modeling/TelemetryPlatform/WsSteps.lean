import TelemetryPlatform.WsServer

/-!
# What a step of the server can do

Each party other than the client threads has a list of its steps, with the
position it starts from, its guard and the state it leads to. Every invariant
of the server is proved over these lists.
-/

namespace TelemetryPlatform.WsSteps

open CStrings WsFrames WsServer

/-- The steps of the accept thread. -/
inductive AcceptorStep (s : Server) : AcceptInput → Server → Prop
  /-- It goes on to the accept call. -/
  | enters (hacceptor : s.acceptor = .loopHead) (hrunning : s.running = true) :
      AcceptorStep s .proceed { s with acceptor := .accepting }
  /-- It returns after the stop was called. -/
  | returns (hacceptor : s.acceptor = .loopHead) (hrunning : s.running ≠ true) :
      AcceptorStep s .proceed { s with acceptor := .finished }
  /-- The accept call fails. -/
  | retries (hacceptor : s.acceptor = .accepting) :
      AcceptorStep s .failed { s with acceptor := .loopHead }
  /-- A connection is accepted on a free descriptor. -/
  | accepts (n : ℕ) (hacceptor : s.acceptor = .accepting) (hfree : s.fds n = none) :
      AcceptorStep s (.accepted n) { s with
        client := Function.update s.client s.accepted ⟨some n, true, 0, .unborn, false, n⟩
        accepted := s.accepted + 1
        fds := Function.update s.fds n (some s.accepted)
        acceptor := .registering s.accepted }
  /-- The record is put into the list. -/
  | lists (i : ℕ) (hacceptor : s.acceptor = .registering i) (hmu : s.muFree = true) :
      AcceptorStep s .proceed { s with clients := i :: s.clients, acceptor := .creating i }
  /-- The client thread starts. -/
  | creates (i : ℕ) (hacceptor : s.acceptor = .creating i) :
      AcceptorStep s .proceed { s.goto i .starting with acceptor := .loopHead }
  /-- The client thread cannot be created. -/
  | fails (i : ℕ) (hacceptor : s.acceptor = .creating i) :
      AcceptorStep s .failed { s with acceptor := .dropping i }
  /-- The alive flag is cleared. -/
  | drops (i : ℕ) (hacceptor : s.acceptor = .dropping i) :
      AcceptorStep s .proceed
        { s.setClient i fun c => { c with alive := false } with acceptor := .closing i }
  /-- The descriptor is closed. -/
  | closes (i : ℕ) (hacceptor : s.acceptor = .closing i) :
      AcceptorStep s .proceed
        { s.closeFd (some (s.client i).desc) with acceptor := .removing i }
  /-- The record is taken from the list. -/
  | removes (i : ℕ) (hacceptor : s.acceptor = .removing i) (hmu : s.muFree = true) :
      AcceptorStep s .proceed { s with clients := s.clients.erase i, acceptor := .freeing i }
  /-- The record is freed. -/
  | frees (i : ℕ) (hacceptor : s.acceptor = .freeing i) :
      AcceptorStep s .proceed
        { s.setClient i fun c => { c with freed := c.freed + 1, pc := .finished } with
          acceptor := .loopHead }

/-- The ways in which a broadcast starts. -/
inductive BroadcastStep (cfg : WsConfig) (s : Server) (msg : Bytes) (dropRoll : ℕ) : Server → Prop
  /-- The cut window closes all clients, in the close mode and if it has not done so. -/
  | closes (hcut : impairmentCutActive cfg s = true) (hmode : cfg.reconnectModeClose = true)
      (hfired : s.cutCloseFired = false) :
      BroadcastStep cfg s msg dropRoll
        { wsCloseAllClients { s with cutMsgs := s.cutMsgs + 1 } s.clients with
          cutCloseFired := true }
  /-- The cut window suppresses the broadcast and leaves the clients alone. -/
  | suppressed (hcut : impairmentCutActive cfg s = true)
      (hkept : ¬(cfg.reconnectModeClose = true ∧ s.cutCloseFired = false)) :
      BroadcastStep cfg s msg dropRoll { s with cutMsgs := s.cutMsgs + 1 }
  /-- The broadcast is dropped. -/
  | dropped (hcut : impairmentCutActive cfg s ≠ true)
      (hdrop : impairmentShouldDrop cfg dropRoll = true) :
      BroadcastStep cfg s msg dropRoll
        { s with cutCloseFired := false, droppedMsgs := s.droppedMsgs + 1 }
  /-- The broadcast is delayed. -/
  | sleeps (wakeAt : ℤ) (hcut : impairmentCutActive cfg s ≠ true)
      (hdrop : impairmentShouldDrop cfg dropRoll ≠ true) :
      BroadcastStep cfg s msg dropRoll
        { s with
          cutCloseFired := false
          delayedMsgs := s.delayedMsgs + 1
          caster := .sleeping msg wakeAt }
  /-- The walk over the list begins. -/
  | walks (hcut : impairmentCutActive cfg s ≠ true)
      (hdrop : impairmentShouldDrop cfg dropRoll ≠ true) :
      BroadcastStep cfg s msg dropRoll
        { s with cutCloseFired := false, caster := .passing msg [] s.clients }

/-- The steps of a broadcast after its start. -/
inductive CasterStep (s : Server) : CasterInput → Server → Prop
  /-- It wakes up and begins the walk. -/
  | wakes (msg : Bytes) (wakeAt : ℤ) (hcaster : s.caster = .sleeping msg wakeAt)
      (hclock : wakeAt ≤ s.clock) :
      CasterStep s .proceed { s with caster := .passing msg [] s.clients }
  /-- The walk is over. -/
  | ends (msg : Bytes) (visited : List ℕ) (hcaster : s.caster = .passing msg visited []) :
      CasterStep s .proceed { s with caster := .idle }
  /-- A live client is visited. -/
  | starts (msg : Bytes) (visited : List ℕ) (c : ℕ) (rest : List ℕ)
      (hcaster : s.caster = .passing msg visited (c :: rest)) (halive : (s.client c).alive = true) :
      CasterStep s .proceed { s.record .broadcast c (.text msg) with
        caster := .sending msg visited c rest (s.startOp (s.client c).fd (.text msg)) }
  /-- A dead client is visited. -/
  | releases (msg : Bytes) (visited : List ℕ) (c : ℕ) (rest : List ℕ)
      (hcaster : s.caster = .passing msg visited (c :: rest)) (hdead : (s.client c).alive = false) :
      CasterStep s .proceed (s.release msg visited c rest)
  /-- The last bytes of a frame are sent. -/
  | completes (msg : Bytes) (visited : List ℕ) (c : ℕ) (rest : List ℕ) (op : SendOp) (n k : ℕ)
      (buffer : Bytes) (later : List Bytes) (hcaster : s.caster = .sending msg visited c rest op)
      (htodo : op.todo = buffer :: later) (htarget : s.target op = some k) (hpos : 1 ≤ n)
      (hle : n ≤ buffer.length) (hend : (op.advance n).todo = []) :
      CasterStep s (.wrote n) { s with
        stream := Function.update s.stream k (s.stream k ++ [⟨op.call, buffer.take n⟩])
        caster := .passing msg (visited ++ [c]) rest }
  /-- Other bytes of a frame are sent. -/
  | sends (msg : Bytes) (visited : List ℕ) (c : ℕ) (rest : List ℕ) (op : SendOp) (n k : ℕ)
      (buffer : Bytes) (later : List Bytes) (hcaster : s.caster = .sending msg visited c rest op)
      (htodo : op.todo = buffer :: later) (htarget : s.target op = some k) (hpos : 1 ≤ n)
      (hle : n ≤ buffer.length) (hend : (op.advance n).todo ≠ []) :
      CasterStep s (.wrote n) { s with
        stream := Function.update s.stream k (s.stream k ++ [⟨op.call, buffer.take n⟩])
        caster := .sending msg visited c rest (op.advance n) }
  /-- A send fails. -/
  | fails (msg : Bytes) (visited : List ℕ) (c : ℕ) (rest : List ℕ) (op : SendOp)
      (hcaster : s.caster = .sending msg visited c rest op) :
      CasterStep s .sendFailed
        ((s.setClient c fun r => { r with alive := false }).release msg visited c rest)

/-- The steps of the stop. -/
inductive StopStep (s : Server) : Server → Prop
  /-- The stop is called. -/
  | called (hstopper : s.stopper = .running) :
      StopStep s { s with running := false, stopper := .joining }
  /-- The list is detached. -/
  | detaches (hstopper : s.stopper = .joining) (hacceptor : s.acceptor = .finished)
      (hmu : s.muFree = true) : StopStep s { s with clients := [], stopper := .freeing s.clients }
  /-- A detached record is freed. -/
  | frees (c : ℕ) (rest : List ℕ) (hstopper : s.stopper = .freeing (c :: rest)) :
      StopStep s { (s.closeFd (s.client c).fd).setClient c fun r =>
        { r with alive := false, freed := r.freed + 1 } with stopper := .freeing rest }

/-- The steps of the server. -/
inductive ServerStep (cfg : WsConfig) (s : Server) : Action → Server → Prop
  /-- Time passes. -/
  | clock (now : ℤ) (hle : s.clock ≤ now) : ServerStep cfg s (.clock now) { s with clock := now }
  /-- A step of the accept thread. -/
  | acceptor (input : AcceptInput) (t : Server) (hstep : AcceptorStep s input t) :
      ServerStep cfg s (.acceptor input) t
  /-- A step of a client thread. -/
  | client (i : ℕ) (input : ClientInput) (t : Server) (hstep : clientStep cfg s i input = some t) :
      ServerStep cfg s (.client i input) t
  /-- A broadcast starts. -/
  | broadcast (msg : Bytes) (dropRoll jitterRoll : ℕ) (t : Server) (hidle : s.caster = .idle)
      (hstep : BroadcastStep cfg s msg dropRoll t) :
      ServerStep cfg s (.broadcast msg dropRoll jitterRoll) t
  /-- A broadcast goes on. -/
  | caster (input : CasterInput) (t : Server) (hstep : CasterStep s input t) :
      ServerStep cfg s (.caster input) t
  /-- A step of the stop. -/
  | stop (t : Server) (hstep : StopStep s t) : ServerStep cfg s .stop t

variable {cfg : WsConfig} {s t : Server} {a : Action}

/-- Every step of the accept thread is in its list. -/
theorem acceptorStep_cases {input : AcceptInput} (hstep : acceptorStep s input = some t) :
    AcceptorStep s input t := by
  unfold acceptorStep at hstep
  split at hstep
  case h_1 hacceptor =>
    split_ifs at hstep with hrunning
    · cases hstep
      exact .enters hacceptor hrunning
    · cases hstep
      exact .returns hacceptor hrunning
  case h_2 hacceptor =>
    cases hstep
    exact .retries hacceptor
  case h_3 n hacceptor =>
    split_ifs at hstep with hfree
    cases hstep
    exact .accepts n hacceptor hfree
  case h_4 i hacceptor =>
    split_ifs at hstep with hmu
    cases hstep
    exact .lists i hacceptor hmu
  case h_5 i hacceptor =>
    cases hstep
    exact .creates i hacceptor
  case h_6 i hacceptor =>
    cases hstep
    exact .fails i hacceptor
  case h_7 i hacceptor =>
    cases hstep
    exact .drops i hacceptor
  case h_8 i hacceptor =>
    cases hstep
    exact .closes i hacceptor
  case h_9 i hacceptor =>
    split_ifs at hstep with hmu
    cases hstep
    exact .removes i hacceptor hmu
  case h_10 i hacceptor =>
    cases hstep
    exact .frees i hacceptor
  case h_11 => cases hstep

/-- Every start of a broadcast is in the list. -/
theorem wsServerBroadcast_cases (cfg : WsConfig) (s : Server) (msg : Bytes)
    (dropRoll jitterRoll : ℕ) :
    BroadcastStep cfg s msg dropRoll (wsServerBroadcast cfg s msg dropRoll jitterRoll) := by
  unfold wsServerBroadcast
  dsimp only
  split_ifs with hcut hclose hdrop hdelay
  · exact .closes hcut hclose.1 hclose.2
  · exact .suppressed hcut hclose
  · exact .dropped hcut hdrop
  · exact .sleeps _ hcut hdrop
  · exact .walks hcut hdrop

/-- Every step of a broadcast is in its list. -/
theorem casterStep_cases {input : CasterInput} (hstep : casterStep s input = some t) :
    CasterStep s input t := by
  unfold casterStep at hstep
  split at hstep
  case h_1 msg wakeAt hcaster =>
    split_ifs at hstep with hclock
    cases hstep
    exact .wakes msg wakeAt hcaster hclock
  case h_2 msg visited hcaster =>
    cases hstep
    exact .ends msg visited hcaster
  case h_3 msg visited c rest hcaster =>
    split_ifs at hstep with halive
    · cases hstep
      exact .starts msg visited c rest hcaster halive
    · cases hstep
      exact .releases msg visited c rest hcaster (Bool.eq_false_of_not_eq_true halive)
  case h_4 msg visited c rest op n hcaster =>
    obtain ⟨s', hsend, hnext⟩ := Option.map_eq_some_iff.mp hstep
    obtain ⟨buffer, later, k, htodo, htarget, hpos, hle, rfl⟩ := send_eq_some hsend
    split_ifs at hnext with hend
    · subst hnext
      exact .completes msg visited c rest op n k buffer later hcaster htodo htarget hpos hle hend
    · subst hnext
      exact .sends msg visited c rest op n k buffer later hcaster htodo htarget hpos hle hend
  case h_5 msg visited c rest op hcaster =>
    cases hstep
    exact .fails msg visited c rest op hcaster
  case h_6 => cases hstep

/-- Every step of the stop is in its list. -/
theorem wsServerStop_cases (hstep : wsServerStop s = some t) : StopStep s t := by
  unfold wsServerStop at hstep
  split at hstep
  case h_1 hstopper =>
    cases hstep
    exact .called hstopper
  case h_2 hstopper =>
    split at hstep
    · rename_i hacceptor
      split_ifs at hstep with hmu
      cases hstep
      exact .detaches hstopper hacceptor hmu
    · cases hstep
  case h_3 => cases hstep
  case h_4 c rest hstopper =>
    cases hstep
    exact .frees c rest hstopper

/-- Every step of the server is a step of one party. -/
theorem serverStep_cases (hstep : serverStep cfg s a = some t) : ServerStep cfg s a t := by
  cases a with
  | clock now =>
    rw [serverStep] at hstep
    split_ifs at hstep with hle
    cases hstep
    exact .clock now hle
  | acceptor input => exact .acceptor input t (acceptorStep_cases hstep)
  | client i input => exact .client i input t hstep
  | broadcast msg dropRoll jitterRoll =>
    rw [serverStep] at hstep
    split at hstep
    · rename_i hidle
      cases hstep
      exact .broadcast msg dropRoll jitterRoll _ hidle
        (wsServerBroadcast_cases cfg s msg dropRoll jitterRoll)
    · cases hstep
  | caster input => exact .caster input t (casterStep_cases hstep)
  | stop => exact .stop t (wsServerStop_cases hstep)

end TelemetryPlatform.WsSteps
