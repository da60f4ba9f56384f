import TelemetryPlatform.BroadcastReach
import TelemetryPlatform.HandshakeOrder

/-!
# How the planned outage is injected

The anchor of the experiment time is set by the first handshake that
succeeds. The clock never goes back, so the broadcasts in the cut window follow
one another without a broadcast outside of it in between, and the flag that the
first of them sets stays set until the window is over.
-/

namespace TelemetryPlatform.OutageInjection

open CStrings GuardedRuns WsFrames WsServer WsSteps WsRecords WsCalls WsStreams BroadcastReach
open RecordRelease HandshakeOrder

variable {cfg : WsConfig} {s t : Server} {a : Action}

/-- A client thread whose handshake succeeded reaches the anchor. -/
def anchors (p : Server × Action) : Bool :=
  match p.2 with
  | .client i .proceed =>
    match (p.1.client i).pc with
    | .anchoring => true
    | _ => false
  | _ => false

/-- A broadcast is called. -/
def broadcasts : Action → Bool
  | .broadcast _ _ _ => true
  | _ => false

/-- A broadcast is called in the cut window. -/
def inWindow (cfg : WsConfig) (p : Server × Action) : Bool :=
  broadcasts p.2 && impairmentCutActive cfg p.1

/-- A broadcast is called outside of the cut window. -/
def outsideWindow (cfg : WsConfig) (p : Server × Action) : Bool :=
  broadcasts p.2 && !impairmentCutActive cfg p.1

/-- A broadcast closes all clients. -/
def closesAll (cfg : WsConfig) (p : Server × Action) : Bool :=
  inWindow cfg p && (cfg.reconnectModeClose && !p.1.cutCloseFired)

/-- Where a broadcast closes all clients, ws_close_all_clients has run over the
list; otherwise the call of a broadcast has left all records and descriptors alone. -/
def ClosesRun (cfg : WsConfig) (p : Server × Action) (t : Server) : Prop :=
  if closesAll cfg p = true then
    t = { wsCloseAllClients { p.1 with cutMsgs := p.1.cutMsgs + 1 } p.1.clients with
      cutCloseFired := true }
  else broadcasts p.2 = true → t.client = p.1.client ∧ t.clients = p.1.clients ∧ t.fds = p.1.fds

/-- The guard of the event is that of the call. -/
theorem closesRun_of_step (hstep : serverStep cfg s a = some t) : ClosesRun cfg (s, a) t := by
  unfold ClosesRun
  cases serverStep_cases hstep with
  | broadcast msg dropRoll jitterRoll _ hidle hbroadcast =>
    cases hbroadcast with
    | closes hcut hmode hfired =>
      rw [if_pos (by simp [closesAll, inWindow, broadcasts, hcut, hmode, hfired])]
    | suppressed hcut hkept =>
      rw [if_neg fun hcloses => hkept ?_]
      · exact fun _ => ⟨rfl, rfl, rfl⟩
      · simp only [closesAll, Bool.and_eq_true, Bool.not_eq_true'] at hcloses
        exact hcloses.2
    | dropped hcut | sleeps _ hcut | walks hcut =>
      rw [if_neg (by simp [closesAll, inWindow, hcut])]
      exact fun _ => ⟨rfl, rfl, rfl⟩
  | _ =>
    rw [if_neg (by simp [closesAll, inWindow, broadcasts])]
    exact fun h => nomatch h

/-- What a step does to the fields of the outage. -/
structure CutStep (cfg : WsConfig) (s : Server) (a : Action) (t : Server) : Prop where
  /-- The clock never goes back. -/
  clock : s.clock ≤ t.clock
  /-- The anchor is set once. -/
  anchor : t.anchor = if anchors (s, a) = true then some (s.anchor.getD s.clock) else s.anchor
  /-- Broadcasts in the window are counted. -/
  cutMsgs : t.cutMsgs = s.cutMsgs + if inWindow cfg (s, a) = true then 1 else 0
  /-- The flag is set when all clients are closed and reset outside of the window. -/
  fired : t.cutCloseFired =
    ((s.cutCloseFired || closesAll cfg (s, a)) && !outsideWindow cfg (s, a))

/-- The fields of the outage are left alone. -/
def CutKept (s t : Server) : Prop :=
  t.clock = s.clock ∧ t.anchor = s.anchor ∧ t.cutMsgs = s.cutMsgs ∧
    t.cutCloseFired = s.cutCloseFired

/-- A step that is neither a broadcast nor an anchor and leaves the fields alone. -/
theorem CutKept.cutStep (h : CutKept s t) (hbroadcast : broadcasts a = false)
    (hanchors : anchors (s, a) = false) : CutStep cfg s a t where
  clock := h.1.ge
  anchor := by rw [h.2.1, hanchors, if_neg Bool.false_ne_true]
  cutMsgs := by
    rw [h.2.2.1, inWindow, hbroadcast, Bool.false_and, if_neg Bool.false_ne_true, add_zero]
  fired := by
    simp only [h.2.2.2, closesAll, inWindow, outsideWindow, hbroadcast, Bool.false_and,
      Bool.or_false, Bool.not_false, Bool.and_true]

/-- A successful send leaves the fields of the outage alone, whatever its
thread does next. -/
theorem CutKept.of_send {op : SendOp} {n : ℕ} {f : Server → Server}
    (hmap : (s.send op n).map f = some t) (hf : ∀ s, CutKept s (f s)) : CutKept s t := by
  obtain ⟨s', hsend, rfl⟩ := Option.map_eq_some_iff.mp hmap
  obtain ⟨buffer, rest, k, -, -, -, -, rfl⟩ := send_eq_some hsend
  exact hf _

/-- The handling of a received frame leaves the fields of the outage alone. -/
theorem cutKept_handleFrame (i : ℕ) (opcode : UInt8) (payload : Bytes) :
    CutKept s (handleFrame cfg s i opcode payload) := by
  unfold handleFrame handleText
  split_ifs <;> exact ⟨rfl, rfl, rfl, rfl⟩

/-- A thread that reaches the anchor sets it. -/
theorem anchorStep_eq (hanchors : anchors (s, a) = true) (hstep : serverStep cfg s a = some t) :
    s.muFree = true ∧ ∃ i, t = { s.goto i .greeting with anchor := some (s.anchor.getD s.clock) } := by
  unfold anchors at hanchors
  split at hanchors
  · rename_i i haction
    dsimp only at haction hanchors
    split at hanchors
    · rename_i hpc
      rw [haction, serverStep] at hstep
      simp only [clientStep, hpc] at hstep
      split_ifs at hstep with hmu
      cases hstep
      exact ⟨hmu, i, rfl⟩
    · cases hanchors
  · cases hanchors

/-- The other steps of a client thread leave the outage alone. -/
theorem clientStep_cutKept {i : ℕ} {input : ClientInput}
    (hanchors : anchors (s, .client i input) = false) (hstep : clientStep cfg s i input = some t) :
    CutKept s t := by
  unfold clientStep at hstep
  split at hstep
  case h_4 =>
    refine .of_send hstep fun s => ?_
    split_ifs <;> exact ⟨rfl, rfl, rfl, rfl⟩
  case h_6 hpc => simp only [anchors, hpc, Bool.true_eq_false] at hanchors
  case h_10 =>
    cases hstep
    exact cutKept_handleFrame _ _ _
  case h_13 =>
    refine .of_send hstep fun s => ?_
    split_ifs <;> exact ⟨rfl, rfl, rfl, rfl⟩
  case h_16 =>
    split at hstep <;> cases hstep <;> exact ⟨rfl, rfl, rfl, rfl⟩
  case h_20 => cases hstep
  all_goals
    try split_ifs at hstep
    all_goals
      cases hstep
      exact ⟨rfl, rfl, rfl, rfl⟩

/-- Every step but a broadcast, an anchor or a clock step leaves the outage alone. -/
theorem cutKept_of_step (hclock : ∀ now, a ≠ .clock now) (hbroadcast : broadcasts a = false)
    (hanchors : anchors (s, a) = false) (hstep : serverStep cfg s a = some t) : CutKept s t := by
  cases serverStep_cases hstep with
  | clock now => exact absurd rfl (hclock now)
  | acceptor input _ hacceptor => cases hacceptor <;> exact ⟨rfl, rfl, rfl, rfl⟩
  | client i input _ hclient => exact clientStep_cutKept hanchors hclient
  | broadcast => cases hbroadcast
  | caster input _ hcaster =>
    cases hcaster with
    | releases =>
      rw [release_eq]
      exact ⟨rfl, rfl, rfl, rfl⟩
    | fails =>
      rw [release_eq]
      exact ⟨rfl, rfl, rfl, rfl⟩
    | _ => exact ⟨rfl, rfl, rfl, rfl⟩
  | stop _ hstop =>
    cases hstop with
    | frees =>
      rw [closeFd_eq]
      exact ⟨rfl, rfl, rfl, rfl⟩
    | _ => exact ⟨rfl, rfl, rfl, rfl⟩

/-- The start of a broadcast counts it in the window, and closes all clients
or resets the flag. -/
theorem broadcast_cut (msg : Bytes) (dropRoll jitterRoll : ℕ) :
    CutStep cfg s (.broadcast msg dropRoll jitterRoll)
      (wsServerBroadcast cfg s msg dropRoll jitterRoll) := by
  unfold wsServerBroadcast
  by_cases hcut : impairmentCutActive cfg s = true
  · rw [if_pos hcut]
    dsimp only
    split_ifs with hclose
    · rw [(wsCloseAllClients_frame s.clients { s with cutMsgs := s.cutMsgs + 1 }).1]
      refine ⟨le_rfl, rfl, ?_, ?_⟩
      · simp [inWindow, broadcasts, hcut]
      · simp [closesAll, inWindow, outsideWindow, broadcasts, hcut, hclose.1]
    · refine ⟨le_rfl, rfl, ?_, ?_⟩
      · simp [inWindow, broadcasts, hcut]
      · have hkept : (s.cutCloseFired || (cfg.reconnectModeClose && !s.cutCloseFired)) =
            s.cutCloseFired := by
          cases hfired : s.cutCloseFired <;> simp_all
        simp [closesAll, inWindow, outsideWindow, broadcasts, hcut, hkept]
  · rw [if_neg hcut]
    have hnone : inWindow cfg (s, .broadcast msg dropRoll jitterRoll) = false := by
      simp [inWindow, broadcasts, hcut]
    dsimp only
    split_ifs <;>
      exact ⟨le_rfl, rfl, by rw [hnone]; rfl, by simp [outsideWindow, broadcasts, hcut]⟩

/-- What every step of the server does to the outage. -/
theorem serverStep_cut (hstep : serverStep cfg s a = some t) : CutStep cfg s a t := by
  by_cases hclock : ∃ now, a = .clock now
  · obtain ⟨now, rfl⟩ := hclock
    rw [serverStep] at hstep
    split_ifs at hstep with hle
    cases hstep
    refine ⟨hle, rfl, rfl, ?_⟩
    simp [closesAll, inWindow, outsideWindow, broadcasts]
  · by_cases hbroadcast : broadcasts a = true
    · cases a with
      | broadcast msg dropRoll jitterRoll =>
        rw [serverStep] at hstep
        split at hstep
        · cases hstep
          exact broadcast_cut msg dropRoll jitterRoll
        · cases hstep
      | _ => cases hbroadcast
    · have hnone : broadcasts a = false := Bool.eq_false_of_not_eq_true hbroadcast
      by_cases hanchors : anchors (s, a) = true
      · obtain ⟨-, i, rfl⟩ := anchorStep_eq hanchors hstep
        refine ⟨le_rfl, by rw [if_pos hanchors], ?_, ?_⟩
        · simp only [inWindow, hnone, Bool.false_and, Bool.false_eq_true, if_false, add_zero]
          rfl
        · simp only [closesAll, inWindow, outsideWindow, hnone, Bool.false_and, Bool.or_false,
            Bool.not_false, Bool.and_true]
          rfl
      · have hnot : anchors (s, a) = false := Bool.eq_false_of_not_eq_true hanchors
        have hkept := cutKept_of_step (fun now hnow => hclock ⟨now, hnow⟩) hnone hnot hstep
        exact hkept.cutStep hnone hnot

/-- A later state: the clock has not gone back and a set anchor has stayed. -/
def Later (s t : Server) : Prop :=
  s.clock ≤ t.clock ∧ ∀ start, s.anchor = some start → t.anchor = some start

/-- Later states follow one another. -/
theorem Later.trans {u : Server} (h : Later s t) (h' : Later t u) : Later s u :=
  ⟨h.1.trans h'.1, fun start hstart => h'.2 start (h.2 start hstart)⟩

/-- A step leads to a later state. -/
theorem CutStep.later (h : CutStep cfg s a t) : Later s t := by
  refine ⟨h.clock, fun start hstart => ?_⟩
  rw [h.anchor, hstart]
  split_ifs <;> rfl

/-- The window, in terms of the time since the anchor. -/
theorem impairmentCutActive_iff : impairmentCutActive cfg s = true ↔
    ∃ start, s.anchor = some start ∧
      (cfg.cutStartS : ℤ) * 1000000000 ≤ max (s.clock - start) 0 ∧
      max (s.clock - start) 0 < (cfg.cutStartS : ℤ) * 1000000000 + cfg.cutDurationS * 1000000000 := by
  unfold impairmentCutActive
  split_ifs with hzero
  · simp only [hzero, false_iff, not_exists, not_and]
    intro start _ hge
    omega
  · cases hanchor : s.anchor with
    | none => simp
    | some start => simp

/-- Between two states in the window there is none outside of it. -/
theorem cutActive_between {r : Server} (h : Later s r) (h' : Later r t)
    (hs : impairmentCutActive cfg s = true) (ht : impairmentCutActive cfg t = true) :
    impairmentCutActive cfg r = true := by
  obtain ⟨start, hstart, hlow, -⟩ := impairmentCutActive_iff.mp hs
  obtain ⟨start', hstart', -, hhigh⟩ := impairmentCutActive_iff.mp ht
  have hr := h.2 start hstart
  have hsame : start' = start := Option.some.inj (hstart'.symm.trans (h'.2 start hr))
  have hclock := h.1
  have hclock' := h'.1
  rw [hsame] at hhigh
  refine impairmentCutActive_iff.mpr ⟨start, hr, hlow.trans ?_, lt_of_le_of_lt ?_ hhigh⟩ <;> omega

/-- All clients were closed, and no broadcast was called outside of the window
since. -/
def ClosedSince (cfg : WsConfig) (steps : List (Server × Action)) : Prop :=
  ∃ earlier p later, steps = earlier ++ p :: later ∧ closesAll cfg p = true ∧
    ∀ q ∈ later, outsideWindow cfg q = false

/-- The last step of a list, or one before it. -/
theorem split_snoc {β : Type*} {steps earlier later : List β} {p x : β}
    (h : steps ++ [x] = earlier ++ p :: later) :
    (later = [] ∧ p = x ∧ earlier = steps) ∨
      ∃ front, later = front ++ [x] ∧ steps = earlier ++ p :: front := by
  rcases List.eq_nil_or_concat later with rfl | ⟨front, last, rfl⟩
  · obtain ⟨hsteps, hlast⟩ := List.append_inj' h rfl
    cases hlast
    exact .inl ⟨rfl, rfl, hsteps.symm⟩
  · rw [List.concat_eq_append, ← List.cons_append, ← List.append_assoc] at h
    obtain ⟨hsteps, hlast⟩ := List.append_inj' h rfl
    cases hlast
    exact .inr ⟨front, List.concat_eq_append, hsteps⟩

/-- A broadcast that closes all clients is called in the window. -/
theorem outside_of_closesAll {p : Server × Action} (h : closesAll cfg p = true) :
    outsideWindow cfg p = false := by
  unfold closesAll inWindow at h
  unfold outsideWindow
  grind

/-- One more step after the clients were closed. -/
theorem closedSince_snoc {steps : List (Server × Action)} {p : Server × Action} :
    ClosedSince cfg (steps ++ [p]) ↔
      (ClosedSince cfg steps ∨ closesAll cfg p = true) ∧ outsideWindow cfg p = false := by
  constructor
  · rintro ⟨earlier, q, later, hsplit, hcloses, hlater⟩
    rcases split_snoc hsplit with ⟨-, rfl, -⟩ | ⟨front, rfl, hsteps⟩
    · exact ⟨.inr hcloses, outside_of_closesAll hcloses⟩
    · exact ⟨.inl ⟨earlier, q, front, hsteps, hcloses,
          fun r hr => hlater r (List.mem_append_left _ hr)⟩,
        hlater p (List.mem_append_right _ (List.mem_singleton_self p))⟩
  · rintro ⟨⟨earlier, q, later, rfl, hcloses, hlater⟩ | hcloses, hinside⟩
    · refine ⟨earlier, q, later ++ [p], by simp, hcloses, fun r hr => ?_⟩
      rcases List.mem_append.mp hr with hold | hnew
      · exact hlater r hold
      · rw [List.mem_singleton.mp hnew, hinside]
    · exact ⟨steps, p, [], rfl, hcloses, fun r hr => absurd hr List.not_mem_nil⟩

/-- The fields of the outage after some steps. -/
structure Injected (cfg : WsConfig) (steps : List (Server × Action)) (s : Server) : Prop where
  /-- The first handshake sets the anchor. -/
  anchor : s.anchor = (steps.find? anchors).map fun p => p.1.clock
  /-- The broadcasts in the window are counted. -/
  cutMsgs : s.cutMsgs = steps.countP (inWindow cfg)
  /-- The flag is set from the close to the first broadcast outside of the window. -/
  fired : s.cutCloseFired = true ↔ ClosedSince cfg steps
  /-- All clients are closed at the first broadcast in the window only. -/
  closes : ∀ earlier p later, steps = earlier ++ p :: later →
    (closesAll cfg p = true ↔ cfg.reconnectModeClose = true ∧ inWindow cfg p = true ∧
      ∀ q ∈ earlier, inWindow cfg q = false)
  /-- So they are closed once at most. -/
  once : steps.countP (closesAll cfg) ≤ 1

/-- The anchor after one more step. -/
theorem Injected.anchor_step {steps : List (Server × Action)} (h : Injected cfg steps s)
    (hcut : CutStep cfg s a t) :
    t.anchor = ((steps ++ [(s, a)]).find? anchors).map fun p => p.1.clock := by
  rw [hcut.anchor, h.anchor, List.find?_append]
  cases hfirst : steps.find? anchors with
  | some p => split_ifs <;> rfl
  | none => cases hanchors : anchors (s, a) <;> simp [hanchors]

/-- In the close mode the flag is set once a broadcast was called in the window,
as long as the window lasts. -/
theorem Injected.fired_of_inWindow {steps : List (Server × Action)} (h : Injected cfg steps s)
    (hlater : ∀ p ∈ steps, Later p.1 s) (hordered : steps.Pairwise fun p q => Later p.1 q.1)
    (hmode : cfg.reconnectModeClose = true) (hactive : impairmentCutActive cfg s = true)
    (hsome : ∃ p ∈ steps, inWindow cfg p = true) : s.cutCloseFired = true := by
  obtain ⟨first, hfirst⟩ := Option.isSome_iff_exists.mp (List.find?_isSome.mpr hsome)
  obtain ⟨hin, earlier, later, hsplit, hbefore⟩ := List.find?_eq_some_iff_append.mp hfirst
  refine h.fired.mpr ⟨earlier, first, later, hsplit, ?_, fun q hq => ?_⟩
  · exact (h.closes earlier first later hsplit).mpr
      ⟨hmode, hin, fun q hq => Bool.eq_false_of_not_eq_true fun hne => by
        simpa [hne] using hbefore q hq⟩
  · rw [hsplit] at hlater hordered
    have hbetween : Later first.1 q.1 :=
      List.rel_of_pairwise_cons (List.pairwise_append.mp hordered).2.1 hq
    have hq' : Later q.1 s := hlater q (by simp [hq])
    have hwithin : impairmentCutActive cfg first.1 = true := by
      rw [inWindow, Bool.and_eq_true] at hin
      exact hin.2
    rw [outsideWindow, cutActive_between hbetween hq' hwithin hactive, Bool.not_true, Bool.and_false]

/-- The next step closes all clients where it is the first broadcast in the window. -/
theorem Injected.closes_next {steps : List (Server × Action)} (h : Injected cfg steps s)
    (hlater : ∀ p ∈ steps, Later p.1 s) (hordered : steps.Pairwise fun p q => Later p.1 q.1) :
    closesAll cfg (s, a) = true ↔ cfg.reconnectModeClose = true ∧ inWindow cfg (s, a) = true ∧
      ∀ q ∈ steps, inWindow cfg q = false := by
  rw [closesAll, Bool.and_eq_true, Bool.and_eq_true, Bool.not_eq_true']
  constructor
  · rintro ⟨hin, hmode, hfired⟩
    refine ⟨hmode, hin, fun q hq => Bool.eq_false_of_not_eq_true fun hqin => ?_⟩
    have hactive : impairmentCutActive cfg s = true := by
      rw [inWindow, Bool.and_eq_true] at hin
      exact hin.2
    rw [h.fired_of_inWindow hlater hordered hmode hactive ⟨q, hq, hqin⟩] at hfired
    cases hfired
  · rintro ⟨hmode, hin, hnone⟩
    refine ⟨hin, hmode, Bool.eq_false_of_not_eq_true fun hfired => ?_⟩
    obtain ⟨earlier, p, later, rfl, hcloses, -⟩ := h.fired.mp hfired
    have hpin := ((h.closes earlier p later rfl).mp hcloses).2.1
    rw [hnone p (by simp)] at hpin
    cases hpin

/-- One more step. -/
theorem Injected.step {steps : List (Server × Action)} (h : Injected cfg steps s)
    (hlater : ∀ p ∈ steps, Later p.1 s) (hordered : steps.Pairwise fun p q => Later p.1 q.1)
    (hcut : CutStep cfg s a t) : Injected cfg (steps ++ [(s, a)]) t where
  anchor := h.anchor_step hcut
  cutMsgs := by
    rw [hcut.cutMsgs, h.cutMsgs, List.countP_append, List.countP_singleton]
  fired := by
    rw [hcut.fired, closedSince_snoc, ← h.fired, Bool.and_eq_true, Bool.or_eq_true,
      Bool.not_eq_true']
  closes earlier p later hsplit := by
    rcases split_snoc hsplit with ⟨-, rfl, rfl⟩ | ⟨front, -, hsteps⟩
    · exact h.closes_next hlater hordered
    · exact h.closes earlier p front hsteps
  once := by
    rw [List.countP_append, List.countP_singleton]
    split_ifs with hcloses
    · have hnone := ((h.closes_next hlater hordered).mp hcloses).2.2
      have hzero : steps.countP (closesAll cfg) = 0 :=
        List.countP_eq_zero.mpr fun q hq hqcloses => by
          simp [closesAll, hnone q hq] at hqcloses
      omega
    · exact h.once

/-- In every run the steps so far determine the fields of the outage. -/
theorem injected_of_run {ok : Server → Action → Prop} {actions : List Action}
    (hrun : Run (serverStep cfg) ok Server.init actions s) :
    Injected cfg (trace (serverStep cfg) Server.init actions) s := by
  induction hrun with
  | nil =>
    refine ⟨rfl, rfl, ⟨nofun, ?_⟩, fun earlier p later hsplit => ?_, by simp [trace]⟩
    · rintro ⟨earlier, p, later, hsplit, -⟩
      simp [trace] at hsplit
    · simp [trace] at hsplit
  | @snoc actions s t a hrun hok hstep ih =>
    obtain ⟨hlater, hordered⟩ := hrun.trace_related (R := Later) (fun _ _ _ h h' => h.trans h')
      fun _ _ _ hs => (serverStep_cut hs).later
    rw [hrun.trace_snoc]
    exact ih.step hlater hordered (serverStep_cut hstep)

/-- What is alive after all listed clients were closed was alive and not listed. -/
theorem alive_of_closeAll {listed : List ℕ} {i : ℕ}
    (h : ((wsCloseAllClients s listed).client i).alive = true) :
    i ∉ listed ∧ (s.client i).alive = true := by
  induction listed generalizing s with
  | nil => exact ⟨List.not_mem_nil, h⟩
  | cons j rest ih =>
    rw [wsCloseAllClients] at h
    obtain ⟨hrest, halive⟩ := ih h
    by_cases hij : i = j
    · rw [hij, client_setClient_self] at halive
      cases halive
    · rw [client_setClient_of_ne _ _ hij, closeFd_eq] at halive
      exact ⟨fun hmem => (List.mem_cons.mp hmem).elim hij hrest, halive⟩

/-- A client that is in the list when all are closed, or was taken from it
before, is not alive afterwards. -/
theorem dead_of_closesAll (hlisted : Listed s) (hcloses : closesAll cfg (s, a) = true)
    (hstep : serverStep cfg s a = some t) {i : ℕ} (hregistered : s.acceptor ≠ .registering i)
    (hstopper : ∀ rest, s.stopper ≠ .freeing rest) : (t.client i).alive = false := by
  have hrun := closesRun_of_step hstep
  rw [ClosesRun, if_pos hcloses] at hrun
  refine Bool.eq_false_of_not_eq_true fun halive => ?_
  rw [hrun] at halive
  obtain ⟨hnot, hbefore⟩ := alive_of_closeAll halive
  rcases hlisted.mem_of_not_registering hregistered hbefore with hmem | ⟨rest, hrest⟩
  · exact hnot hmem
  · exact hstopper rest hrest

/-- A record that is not alive stays so. -/
theorem dead_of_step (hknown : Known s) (hstep : serverStep cfg s a = some t) {i : ℕ}
    (hi : i < s.accepted) (hdead : (s.client i).alive = false) :
    i < t.accepted ∧ (t.client i).alive = false := by
  rcases serverStep_descends hknown hstep with ⟨haccepted, hdescend⟩ | ⟨n, -, haccepted, hclient, -⟩
  · exact ⟨haccepted ▸ hi, alive_false_of (hdescend.alive i) hdead⟩
  · rw [hclient, Function.update_of_ne (by omega), haccepted]
    exact ⟨by omega, hdead⟩

/-- After all clients were closed no client that was registered before is alive. -/
theorem dead_after_close {ok : Server → Action → Prop} {actions : List Action}
    (hrun : Run (serverStep cfg) ok Server.init actions s) {p : Server × Action}
    (hp : p ∈ trace (serverStep cfg) Server.init actions) (hcloses : closesAll cfg p = true) {i : ℕ}
    (hi : i < p.1.accepted) (hregistered : p.1.acceptor ≠ .registering i)
    (hstopper : ∀ rest, p.1.stopper ≠ .freeing rest) :
    i < s.accepted ∧ (s.client i).alive = false := by
  induction hrun with
  | nil => simp [trace] at hp
  | @snoc actions s t a hrun hok hstep ih =>
    rw [hrun.trace_snoc] at hp
    rcases List.mem_append.mp hp with hold | hnew
    · obtain ⟨hlt, hdead⟩ := ih hold
      exact dead_of_step (known_of_run hrun) hstep hlt hdead
    · obtain rfl := List.mem_singleton.mp hnew
      have hdead := dead_of_closesAll (listed_of_run hrun) hcloses hstep hregistered hstopper
      refine ⟨lt_of_lt_of_le hi ?_, hdead⟩
      rcases serverStep_descends (known_of_run hrun) hstep with ⟨hsame, -⟩ | ⟨n, -, hmore, -⟩
      · exact hsame.ge
      · exact hmore ▸ Nat.le_succ _

/-- A thread that reaches the anchor has just completed its handshake. -/
theorem handshaken_of_anchors {ok : Server → Action → Prop} {actions : List Action}
    (hrun : Run (serverStep cfg) ok Server.init actions s) (hanchors : anchors (s, a) = true) :
    ∃ i, a = .client i .proceed ∧ (s.client i).handshaken = true := by
  unfold anchors at hanchors
  split at hanchors
  · rename_i i haction
    dsimp only at haction hanchors
    split at hanchors
    · rename_i hpc
      exact ⟨i, haction, handshaken_of_run hrun i (by rw [hpc]; rfl)⟩
    · cases hanchors
  · cases hanchors

/-- What holds of the outage after some steps of a run. -/
structure OutageOnce (cfg : WsConfig) (steps : List (Server × Action)) (s : Server) : Prop where
  /-- The anchor is the time of the first successful handshake. -/
  anchor_first : s.anchor = (steps.find? anchors).map fun p => p.1.clock
  /-- The thread that reaches it has completed its handshake. -/
  anchor_shaken : ∀ p ∈ steps, anchors p = true →
    ∃ i, p.2 = .client i .proceed ∧ (p.1.client i).handshaken = true
  /-- Once it is set it never changes. -/
  anchor_fixed : ∀ p ∈ steps, ∀ start, p.1.anchor = some start → s.anchor = some start
  /-- The call closes all clients, or leaves them alone. -/
  closes_run : ∀ p ∈ steps, ∃ t, serverStep cfg p.1 p.2 = some t ∧ ClosesRun cfg p t
  /-- All clients are closed once at most. -/
  closes_once : steps.countP (closesAll cfg) ≤ 1
  /-- They are closed in the close mode only, at the first broadcast in the window. -/
  closes_first : ∀ earlier p later, steps = earlier ++ p :: later →
    (closesAll cfg p = true ↔ cfg.reconnectModeClose = true ∧ inWindow cfg p = true ∧
      ∀ q ∈ earlier, inWindow cfg q = false)
  /-- No client that was registered before is alive afterwards, where the stop
  of the server had not detached the client list. -/
  closed : ∀ p ∈ steps, closesAll cfg p = true → ∀ i < p.1.accepted, p.1.acceptor ≠ .registering i →
    (∀ rest, p.1.stopper ≠ .freeing rest) → (s.client i).alive = false
  /-- The flag is set from then to the next broadcast outside of the window. -/
  fired : s.cutCloseFired = true ↔ ClosedSince cfg steps
  /-- The counter is the number of broadcasts in the window. -/
  cutMsgs_eq : s.cutMsgs = steps.countP (inWindow cfg)

/-- In every run of the server the outage is injected once at most, at the
first broadcast in the window. -/
theorem outage_injected_once {actions : List Action}
    (hrun : Run (serverStep cfg) anyStep Server.init actions s) :
    OutageOnce cfg (trace (serverStep cfg) Server.init actions) s where
  anchor_first := (injected_of_run hrun).anchor
  anchor_shaken := fun p hp hanchors =>
    have ⟨⟨_, _, hreached⟩, _⟩ := hrun.reached_of_mem_trace p hp
    handshaken_of_anchors hreached hanchors
  closes_run := fun p hp =>
    have ⟨t, hstep⟩ := hrun.step_of_mem_trace p hp
    ⟨t, hstep, closesRun_of_step hstep⟩
  anchor_fixed := fun p hp => ((hrun.trace_related (R := Later) (fun _ _ _ h h' => h.trans h')
    fun _ _ _ hs => (serverStep_cut hs).later).1 p hp).2
  closes_once := (injected_of_run hrun).once
  closes_first := (injected_of_run hrun).closes
  closed := fun _ hp hcloses _ hi hregistered hstopper =>
    (dead_after_close hrun hp hcloses hi hregistered hstopper).2
  fired := (injected_of_run hrun).fired
  cutMsgs_eq := (injected_of_run hrun).cutMsgs

/-- A cut window of ten seconds that begins with the anchor. -/
def cutConfig : WsConfig := { plainConfig with cutDurationS := 10 }

/-- Two broadcasts in the window and one after it. -/
def castThrough : List Action :=
  [.broadcast (lit "x") 0 0, .clock 9999999999, .broadcast (lit "y") 0 0, .clock 10000000000,
    .broadcast (lit "z") 0 0]

/-- The outage is injected by the first broadcast and ends with the third. -/
theorem outage_injected_once_castThrough :
    ∃ s, Run (serverStep cutConfig) anyStep Server.init (acceptOne ++ shakeHands ++ castThrough) s ∧
      (s.cutMsgs, (s.client 0).alive, s.cutCloseFired) = (2, false, false) ∧
      OutageOnce cutConfig (trace (serverStep cutConfig) Server.init
        (acceptOne ++ shakeHands ++ castThrough)) s := by
  have hexec : (exec (serverStep cutConfig) anyStep Server.init
      (acceptOne ++ shakeHands ++ castThrough)).map
        (fun s => (s.cutMsgs, (s.client 0).alive, s.cutCloseFired)) = some (2, false, false) := by
    decide +kernel
  obtain ⟨s, hs, hfields⟩ := Option.map_eq_some_iff.mp hexec
  have hrun := run_of_exec hs
  exact ⟨s, hrun, hfields, outage_injected_once hrun⟩

end TelemetryPlatform.OutageInjection
