import TelemetryPlatform.GapColumn
import TelemetryPlatform.GatewayAccounts
import TelemetryPlatform.RobotSnapshots
import TelemetryPlatform.UiMessages

/-!
# From the sensors to the browser

Robot, gateway, server and interface run on their own, linked by what one hands
to the next: messages of the robot reach the gateway in order, the gateway
broadcasts the texts of its samples, and the interface handles the messages that
it reads on a connection. Then the live rows of its log are samples of the
robot, in the order in which they were published.
-/

namespace TelemetryPlatform.LivePath

open CachePublisher CallStreams ClientDialogue CStrings FormattedText GapColumn GatewayAccounts
open GatewayMemory GatewayThreads GuardedRuns HandshakeOrder JsonText LiveStream PeerFrames
open RecordRelease RobotSnapshots RobotThreads SampleJson TelemetryTypes UiChanges UiMessages
open UiSession Utf8Text WellFormedSamples WsFrames WsServer

section Gateway

/-- The messages that the gateway has unpacked. -/
def unpackedOf (arrivals : List GatewayThreads.Action) : List TelemetryStateMsg :=
  arrivals.filterMap fun
    | .unpack st _ _ => st
    | _ => none

/-- The sample that the callback has in hand. -/
def built : ReceiverPc → List GatewayThreads.Sample
  | .built s => [s]
  | _ => []

/-- A sample is built from a message. -/
def BuiltFrom (st : TelemetryStateMsg) (s : GatewayThreads.Sample) : Prop :=
  ∃ nowRealtimeNs payload rawOk, s.state = onMessageState st nowRealtimeNs payload rawOk

/-- Samples are built from some of the messages, in their order. -/
def Arrived (msgs : List TelemetryStateMsg) (samples : List GatewayThreads.Sample) : Prop :=
  ∃ sources, sources.Sublist msgs ∧ List.Forall₂ BuiltFrom sources samples

variable {msgs more : List TelemetryStateMsg} {samples fewer : List GatewayThreads.Sample}

/-- More messages arrive. -/
theorem Arrived.mono (h : Arrived msgs samples) (hmore : msgs.Sublist more) :
    Arrived more samples := by
  obtain ⟨sources, hsources, hbuilt⟩ := h
  exact ⟨sources, hsources.trans hmore, hbuilt⟩

/-- Fewer samples are kept. -/
theorem Arrived.sublist (h : Arrived msgs samples) (hfewer : fewer.Sublist samples) :
    Arrived msgs fewer := by
  obtain ⟨sources, hsources, hbuilt⟩ := h
  suffices hsub : ∃ some, some.Sublist sources ∧ List.Forall₂ BuiltFrom some fewer by
    obtain ⟨some, hsome, hfew⟩ := hsub
    exact ⟨some, hsome.trans hsources, hfew⟩
  clear hsources
  induction hfewer generalizing sources with
  | slnil => exact ⟨[], List.nil_sublist _, .nil⟩
  | @cons few all s _ ih =>
    cases hbuilt with
    | @cons st _ sources _ _ hrest =>
      obtain ⟨some, hsome, hfew⟩ := ih sources hrest
      exact ⟨some, hsome.cons st, hfew⟩
  | @cons_cons few all s _ ih =>
    cases hbuilt with
    | @cons st _ sources _ hone hrest =>
      obtain ⟨some, hsome, hfew⟩ := ih sources hrest
      exact ⟨st :: some, hsome.cons_cons st, .cons hone hfew⟩

/-- One more sample is built from one more message. -/
theorem Arrived.snoc (h : Arrived msgs samples) {st : TelemetryStateMsg} {s : GatewayThreads.Sample}
    (hone : BuiltFrom st s) : Arrived (msgs ++ [st]) (samples ++ [s]) := by
  obtain ⟨sources, hsources, hbuilt⟩ := h
  exact ⟨sources ++ [st], hsources.append (.refl [st]), List.rel_append hbuilt (.cons hone .nil)⟩

/-- A sample carries the identifier of its message. -/
theorem BuiltFrom.seq {st : TelemetryStateMsg} {s : GatewayThreads.Sample} (h : BuiltFrom st s) :
    s.state.seq.toNat = msgSeq st := by
  obtain ⟨now, payload, rawOk, hstate⟩ := h
  rw [hstate, msgSeq, onMessageState]
  cases st.header with
  | none => rfl
  | some header => rfl

/-- The identifiers of the samples are those of their messages. -/
theorem Arrived.ids (h : Arrived msgs samples) :
    (samples.map fun s => s.state.seq.toNat).Sublist (msgs.map msgSeq) := by
  obtain ⟨sources, hsources, hbuilt⟩ := h
  have hids : samples.map (fun s => s.state.seq.toNat) = sources.map msgSeq := by
    clear hsources
    induction hbuilt with
    | nil => rfl
    | cons hone _ ih => rw [List.map_cons, List.map_cons, hone.seq, ih]
  rw [hids]
  exact hsources.map msgSeq

variable {cfg : Settings} {g t : Gateway} {a : GatewayThreads.Action}

/-- One step of the gateway builds samples from the messages that it unpacks. -/
theorem Arrived.move (h : Arrived msgs (g.pushed ++ built g.receiver)) (hmove : Move cfg g a t) :
    Arrived (msgs ++ unpackedOf [a]) (t.pushed ++ built t.receiver) := by
  have hkept := h.mono (List.sublist_append_left msgs (unpackedOf [a]))
  have hpushed := hkept.sublist (List.sublist_append_left g.pushed (built g.receiver))
  cases hmove with
  | admitted | messageCounted | unreadable | unqueued | closed =>
    exact hpushed.sublist (List.append_nil _ ▸ List.Sublist.refl _)
  | built msg st now rawOk hpc =>
    exact (h.sublist (List.sublist_append_left _ _)).snoc
      ⟨now, msg.payload, rawOk, by unfold buildSample; dsimp only; split <;> rfl⟩
  | pushed s n q hpc =>
    rw [hpc] at hkept
    exact hkept.sublist (List.append_nil _ ▸ List.Sublist.refl _)
  | _ => exact hkept

variable {arrivals : List GatewayThreads.Action} {startMonoNs : ℤ}

/-- The samples pushed are built from the messages that were unpacked. -/
theorem arrived_of_run
    (hrun : Run (gatewayStep cfg) anyStep (Gateway.init cfg startMonoNs) arrivals g) :
    Arrived (unpackedOf arrivals) (g.pushed ++ built g.receiver) := by
  induction hrun with
  | nil =>
    refine ⟨[], List.nil_sublist _, ?_⟩
    simp only [Gateway.init]
    split_ifs <;> exact .nil
  | snoc hrun _ hstep ih =>
    obtain ⟨hphases, cells, hkept⟩ := kept_of_run hrun
    rw [unpackedOf, List.filterMap_append]
    exact ih.move ((gatewayStep_cases hstep).resolve_right (hkept.not_stray hphases))

/-- The samples published were pushed in their order. -/
theorem published_sublist_pushed
    (hrun : Run (gatewayStep cfg) anyStep (Gateway.init cfg startMonoNs) arrivals g) :
    g.published.Sublist g.pushed := by
  obtain ⟨-, cells, hkept⟩ := kept_of_run hrun
  have hbooks := (accounted_of_run hrun).books
  have hpopped : g.popped.Sublist g.pushed := by
    rw [hkept.order, List.append_assoc]
    exact List.sublist_append_left _ _
  have hcounted := (List.sublist_append_left _ _).trans hbooks.countedOrder
  exact (((List.sublist_append_left _ _).trans hbooks.publishedOrder).trans hcounted).trans hpopped

end Gateway

section Interface

/-- The messages that the interface has handled. -/
def handled (actions : List UiAction) : List Message :=
  actions.filterMap fun
    | .socketMessage _ m => some m
    | _ => none

/-- The identifiers of the live samples among messages. -/
def liveIdsIn (messages : List Message) : List ℤ :=
  (messages.filterMap liveIn).filterMap UiSession.Sample.seq

variable {u v : Ui} {a : UiAction} {actions : List UiAction}

/-- Identifiers of the messages handled so far, and of one more. -/
theorem liveIdsIn_snoc (actions : List UiAction) (a : UiAction) :
    liveIdsIn (handled (actions ++ [a])) = liveIdsIn (handled actions) ++ liveIdsIn (handled [a]) := by
  simp only [liveIdsIn, handled, List.filterMap_append]

/-- A live sample is logged unless the interface is paused. -/
theorem liveIds_handleTelemetry (s : UiSession.Sample) (hpaused : ¬ u.paused = true) :
    liveIds (handleTelemetry u s).uiLog = liveIds u.uiLog ++ s.seq.toList := by
  rw [handleTelemetry, if_neg hpaused]
  refine liveIds_snoc u.uiLog ?_
  rfl

/-- A live row of the log shows a sample that was handled. -/
theorem liveIds_step (h : (liveIds u.uiLog).Sublist (liveIdsIn (handled actions)))
    (hstep : uiStep u a = some v) :
    (liveIds v.uiLog).Sublist (liveIdsIn (handled (actions ++ [a]))) := by
  rw [liveIdsIn_snoc]
  rcases live_or_notMem a with ⟨i, s, rfl⟩ | hother
  · rw [uiStep, Option.ite_none_right_eq_some] at hstep
    cases hstep.2
    change (liveIds (handleTelemetry u s).uiLog).Sublist _
    have hone : s.seq.toList.Sublist (liveIdsIn (handled [.socketMessage i (.telemetry s)])) := by
      cases hseq : s.seq with
      | none => exact List.nil_sublist _
      | some x => simp [liveIdsIn, handled, liveIn, hseq]
    by_cases hpaused : u.paused = true
    · rw [handleTelemetry, if_pos hpaused]
      exact h.trans (List.sublist_append_left _ _)
    · rw [liveIds_handleTelemetry s hpaused]
      exact h.append hone
  · refine (changes_of_step hstep).keeps (p := fun t => (liveIds t.uiLog).Sublist _)
      (h.trans (List.sublist_append_left _ _)) fun k hk s t hc hs => ?_
    rcases liveRows_of_change hc (fun hlive => hother (hlive ▸ hk)) with ⟨-, hsame⟩ | ⟨-, hnone⟩
    · rw [liveIds, hsame]
      exact hs
    · rw [liveIds, hnone]
      exact List.nil_sublist _

/-- The live rows of the log show samples that were handled, in their order. -/
theorem liveIds_of_run (hrun : Run uiStep anyStep Ui.init actions u) :
    (liveIds u.uiLog).Sublist (liveIdsIn (handled actions)) := by
  induction hrun with
  | nil => exact List.nil_sublist _
  | snoc _ _ hstep ih => exact liveIds_step ih hstep

end Interface

section Robot

variable {r : Robot} {steps : List RobotAction} {periodNs : RobotThread → ℕ}

/-- The identifiers that a robot publishes never decrease before the counter
wraps. -/
theorem published_ordered (hrun : Run (robotStep periodNs) anyStep Robot.init steps r)
    (hwrap : r.released.length < 2 ^ 32) : (r.published.map msgSeq).Pairwise (· ≤ ·) := by
  obtain ⟨actions, h⟩ := explained_of_run hrun
  have hseqs := pubRun_seqs actions PubState.init
    (by rw [h.length_released]; exact (Nat.zero_add _).trans_lt hwrap)
  rw [h.published] at hseqs
  rw [hseqs]
  exact (seqTrace_le 0 actions).2

/-- Every message is built from the cache. -/
theorem mem_pubRun {msg : TelemetryStateMsg} {actions : List CachePublisher.Action} {p : PubState}
    (hmsg : msg ∈ (pubRun p actions).published) :
    msg ∈ p.published ∨ ∃ c timestampNs, msg = telemetryPubMessage c timestampNs := by
  induction actions generalizing p with
  | nil => exact .inl hmsg
  | cons a rest ih =>
    rcases ih hmsg with hp | hbuilt
    · cases a with
      | setImu acc gyro => exact .inl hp
      | setTilt deg status => exact .inl hp
      | setMotor i u =>
        rw [pubStep] at hp
        exact .inl hp
      | tick timestampNs sent =>
        cases sent with
        | false => exact .inl hp
        | true =>
          rcases List.mem_append.mp hp with hold | hnew
          · exact .inl hold
          · exact .inr ⟨p.cache, timestampNs, List.mem_singleton.mp hnew⟩
    · exact .inr hbuilt

instance (x : Binary32) : Decidable (NumberPrintable x) :=
  inferInstanceAs (Decidable (x.toNat / 2 ^ 23 % 2 ^ 8 ≠ 255))

/-- The vectors of a message have finite components. -/
def FiniteVectors (msg : TelemetryStateMsg) : Prop :=
  VectorPrintable msg.accG ∧ VectorPrintable msg.gyroDps ∧ VectorPrintable msg.tiltDeg

/-- Plain identifiers can be printed. -/
theorem idPrintable_of_ascii {room : ℕ} {text : CString}
    (h : Unescaped (text.bytes.take room) ∧ Ascii (text.bytes.take room)) :
    IdPrintable room (some text) := by
  intro s hs
  cases hs
  exact ⟨h.1, validUtf8_of_ascii h.2⟩

/-- The messages of the robot can be printed where the sensors measure finite
numbers. -/
theorem published_printable (hrun : Run (robotStep periodNs) anyStep Robot.init steps r)
    {msg : TelemetryStateMsg} (hmsg : msg ∈ r.published) (hfinite : FiniteVectors msg) :
    Printable msg := by
  obtain ⟨actions, h⟩ := explained_of_run hrun
  rw [← h.published] at hmsg
  rcases mem_pubRun hmsg with hnone | ⟨c, timestampNs, rfl⟩
  · cases hnone
  · obtain ⟨hacc, hgyro, htilt⟩ := hfinite
    exact ⟨idPrintable_of_ascii (by decide), idPrintable_of_ascii (by decide),
      idPrintable_of_ascii (by decide), idPrintable_of_ascii (by decide),
      idPrintable_of_ascii (by decide), hacc, hgyro, htilt⟩

end Robot

section Path

variable {r : Robot} {g : Gateway} {s : Server} {gatewayCfg : Settings} {cfg : WsConfig}
variable {steps : List RobotAction} {arrivals : List GatewayThreads.Action}
variable {actions : List WsServer.Action} {replies : List (Except ℤ (List TelemetryState))}
variable {periodNs : RobotThread → ℕ} {startMonoNs : ℤ} {k : ℕ}

/-- The text of a sample on the live stream. -/
def liveText (s : GatewayThreads.Sample) : Bytes := (format (telemetryStateToJson s.state)).bytes

/-- What the parts hand to each other: messages at most once and in their order,
texts of the samples published, and replies with samples that can be printed. -/
structure Linked (r : Robot) (arrivals : List GatewayThreads.Action) (g : Gateway) (cfg : WsConfig)
    (k : ℕ) (actions : List WsServer.Action) (replies : List (Except ℤ (List TelemetryState))) :
    Prop where
  /-- The sensors measure finite numbers. -/
  finite : ∀ msg ∈ r.published, FiniteVectors msg
  /-- The gateway unpacks messages of the robot, none of them twice. -/
  mqtt : (unpackedOf arrivals).Sublist r.published
  /-- The broadcasts are those of the gateway. -/
  cast : broadcastsOf actions <+: g.published.map liveText
  /-- The tag of the experiment needs no escapes. -/
  tag : Unescaped cfg.expTag.toCString.bytes
  /-- The queries return stored rows. -/
  answers : answersOf k actions = replyTexts replies
  /-- They can be printed. -/
  stored : ∀ items, .ok items ∈ replies → ∀ s ∈ items,
    IdsPrintable s ∧ ComponentsPrintable promoted s

/-- The published samples are built from messages of the robot. -/
theorem Linked.arrived (h : Linked r arrivals g cfg k actions replies)
    (hgateway : Run (gatewayStep gatewayCfg) anyStep (Gateway.init gatewayCfg startMonoNs) arrivals g) :
    Arrived r.published g.published :=
  ((arrived_of_run hgateway).mono h.mqtt).sublist
    ((published_sublist_pushed hgateway).trans (List.sublist_append_left _ _))

/-- A sample that is built from a message can be printed if the message can. -/
theorem Arrived.printable {msgs : List TelemetryStateMsg} {samples : List GatewayThreads.Sample}
    (h : Arrived msgs samples) (hmsgs : ∀ msg ∈ msgs, Printable msg) :
    ∀ s ∈ samples, IdsPrintable s.state ∧ ComponentsPrintable promoted s.state := by
  obtain ⟨sources, hsources, hbuilt⟩ := h
  replace hmsgs : ∀ st ∈ sources, Printable st := fun st hst => hmsgs st (hsources.subset hst)
  clear hsources
  induction hbuilt with
  | nil => exact nofun
  | @cons st s sources samples hone _ ih =>
    obtain ⟨hst, hrest⟩ := List.forall_mem_cons.mp hmsgs
    obtain ⟨now, payload, rawOk, hstate⟩ := hone
    refine List.forall_mem_cons.mpr ⟨?_, ih hrest⟩
    rw [hstate]
    exact (printable_iff st now payload rawOk).mpr hst

/-- The server serves the samples published so far. -/
theorem Linked.served (h : Linked r arrivals g cfg k actions replies)
    (hrobot : Run (robotStep periodNs) anyStep Robot.init steps r)
    (hgateway : Run (gatewayStep gatewayCfg) anyStep (Gateway.init gatewayCfg startMonoNs) arrivals g) :
    Served cfg k actions
      ((g.published.take (broadcastsOf actions).length).map GatewayThreads.Sample.state) replies := by
  have hprintable := (h.arrived hgateway).printable fun msg hmsg =>
    published_printable hrobot hmsg (h.finite msg hmsg)
  refine ⟨h.tag, ?_, fun s hs => ?_, h.answers, h.stored⟩
  · rw [List.map_map, List.map_take]
    exact List.prefix_iff_eq_take.mp h.cast
  · obtain ⟨sample, hsample, rfl⟩ := List.mem_map.mp hs
    exact hprintable sample (List.mem_of_mem_take hsample)

/-- The identifiers of live samples. -/
theorem ids_liveSamples (samples : List GatewayThreads.Sample) :
    ((samples.map GatewayThreads.Sample.state).map liveSample).filterMap UiSession.Sample.seq =
      (samples.map fun s => s.state.seq.toNat).map fun n : ℕ => (n : ℤ) := by
  rw [List.map_map, List.map_map, List.filterMap_map]
  exact congrFun List.filterMap_eq_map samples

/-- Robot, gateway, server and interface run on their own, linked by what they
hand to each other; the server in order, as far as messages, handshakes and
connections go. If the interface handles messages that it reads on one
connection, each at most once and in their order, then the live rows of its log
carry identifiers of the messages of the robot, each message at most once and in
the order in which they were published; and the identifiers do not decrease
before the counter of the robot wraps. -/
theorem live_in_order (hrobot : Run (robotStep periodNs) anyStep Robot.init steps r)
    (hgateway : Run (gatewayStep gatewayCfg) anyStep (Gateway.init gatewayCfg startMonoNs) arrivals g)
    (hserver : Run (serverStep cfg) InOrder Server.init actions s)
    (hlinked : Linked r arrivals g cfg k actions replies)
    (hshaken : (s.client k).handshaken = true) (hsize : ∀ call ∈ s.calls, Sized call.unit) :
    ∃ (accept : CString) (stream : Bytes),
      contents (s.stream k) = (handshakeResponse accept).bytes ++ stream ∧
      ∀ uiActions u, Run uiStep anyStep Ui.init uiActions u →
        (handled uiActions).Sublist (messagesIn (peerFrames stream)) →
        (liveIds u.uiLog).Sublist (r.published.map fun msg => (msgSeq msg : ℤ)) ∧
        (r.released.length < 2 ^ 32 → (liveIds u.uiLog).Pairwise (· ≤ ·)) := by
  obtain ⟨accept, stream, seen, hcontents, hmessages, hseen⟩ := reads_of_run hserver hshaken hsize
  refine ⟨accept, stream, hcontents, fun uiActions u hui hhandled => ?_⟩
  have hserved := hlinked.served hrobot hgateway
  have hread : (liveIds u.uiLog).Sublist (r.published.map fun msg => (msgSeq msg : ℤ)) := by
    rw [hmessages] at hhandled
    have hlive := (liveIds_of_run hui).trans
      (((hhandled.filterMap liveIn).trans (hserved.live_seen hseen)).filterMap UiSession.Sample.seq)
    rw [ids_liveSamples] at hlive
    have hcast := (List.take_sublist (broadcastsOf actions).length g.published).map fun s =>
      s.state.seq.toNat
    have hids := hlive.trans ((hcast.trans (hlinked.arrived hgateway).ids).map fun n : ℕ => (n : ℤ))
    rwa [List.map_map] at hids
  refine ⟨hread, fun hwrap => ?_⟩
  have hordered := published_ordered hrobot hwrap
  rw [List.pairwise_map] at hordered
  exact (List.pairwise_map.mpr (hordered.imp fun h => Int.ofNat_le.mpr h)).sublist hread

deriving instance DecidableEq for CString, HeaderMsg, MotorStateMsg, TelemetryStateMsg

/-- The IMU measures once, and the publisher sends one message. -/
def measureOnce : List RobotAction :=
  List.replicate 5 (.start .created) ++
    stepsOf .imu ([.connect true ⟨0, 0⟩, .head,
      .compute (.imu ⟨⟨0x3F800000, 0, 0⟩, ⟨0, 0, 0⟩, ⟨0, 0, 0⟩, ⟨0, 0, 0⟩⟩), .publishPacket true,
      .lock] ++ List.replicate 8 .operate ++ [.unlock]) ++
    stepsOf .state ([.connect true ⟨0, 0⟩, .head, .lock] ++ List.replicate 21 .operate ++
      [.unlock, .stamp 9, .allocate true, .publishState true])

/-- This message. -/
def measured : TelemetryStateMsg :=
  telemetryPubMessage (telemetryCacheSetImu PubState.init.cache ⟨0x3F800000, 0, 0⟩ ⟨0, 0, 0⟩) 9

/-- The gateway stores and publishes it. -/
def storeOnce : List GatewayThreads.Action :=
  [.receive ⟨some topicTelemetryState, [7]⟩, .countMessage, .unpack (some measured) 3 true,
    .queuePush (some 16), .writerHead, .popBatch, .beginTransaction true 0, .insertState .done,
    .endTransaction .done true 5, .countBatch, .publish true]

/-- The text that it broadcasts. -/
def measuredText : Bytes := (format (telemetryStateToJson (onMessageState measured 3 [7] true))).bytes

/-- A client is greeted and reads this text. -/
def showOnce : List WsServer.Action :=
  acceptOne ++ shakeHands ++ [.client 0 .proceed, .client 0 (.wrote 2), .client 0 (.wrote 55),
    .broadcast measuredText 0 0, .caster .proceed, .caster (.wrote 4),
    .caster (.wrote measuredText.length)]

/-- One sample on its way from the sensors to the log. -/
theorem live_in_order_showOnce :
    ∃ s, Run (serverStep plainConfig) InOrder Server.init showOnce s ∧
      ∃ (accept : CString) (stream : Bytes),
        contents (s.stream 0) = (handshakeResponse accept).bytes ++ stream ∧
        ∀ uiActions u, Run uiStep anyStep Ui.init uiActions u →
          (handled uiActions).Sublist (messagesIn (peerFrames stream)) →
          (liveIds u.uiLog).Sublist [1] := by
  have hmeasured : (exec (robotStep fun _ => 20000000) anyStep Robot.init measureOnce).map
      Robot.published = some [measured] := by
    decide +kernel
  have hstored : (exec (gatewayStep allThreads) anyStep (Gateway.init allThreads 0) storeOnce).map
      (fun g => g.published.map liveText) = some [measuredText] := by
    decide +kernel
  have hshown : (exec (serverStep plainConfig) InOrder Server.init showOnce).map
      (fun s => ((s.client 0).handshaken,
        s.calls.all fun call => decide (Sized call.unit))) = some (true, true) := by
    decide +kernel
  obtain ⟨r, hr, hpublished⟩ := Option.map_eq_some_iff.mp hmeasured
  obtain ⟨g, hg, htexts⟩ := Option.map_eq_some_iff.mp hstored
  obtain ⟨s, hs, hfacts⟩ := Option.map_eq_some_iff.mp hshown
  obtain ⟨hshaken, hsized⟩ := Prod.mk.inj hfacts
  have hlinked : Linked r storeOnce g plainConfig 0 showOnce [] := by
    refine ⟨fun msg hmsg => ?_, ?_, ?_, by decide, rfl, nofun⟩
    · rw [hpublished] at hmsg
      rw [List.mem_singleton.mp hmsg]
      exact ⟨fun w hw => by cases hw; decide, fun w hw => by cases hw; decide,
        fun w hw => by cases hw; decide⟩
    · rw [hpublished]
      exact .refl [measured]
    · rw [htexts]
      exact List.prefix_refl [measuredText]
  obtain ⟨accept, stream, hcontents, hlive⟩ := live_in_order (run_of_exec hr) (run_of_exec hg)
    (run_of_exec hs) hlinked hshaken
    (fun call hcall => of_decide_eq_true (List.all_eq_true.mp hsized call hcall))
  refine ⟨s, run_of_exec hs, accept, stream, hcontents, fun uiActions u hui hhandled => ?_⟩
  have hids := (hlive uiActions u hui hhandled).1
  rw [hpublished] at hids
  exact hids

end Path

end TelemetryPlatform.LivePath
