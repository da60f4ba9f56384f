import Mathlib.Data.List.Perm.Basic
import TelemetryPlatform.GatewayMemory

/-!
# Where every message goes

Every message that the gateway counts ends in one place: it does not unpack,
its sample finds no node, or its sample is pushed. A pushed sample is queued,
popped, or freed by the stop; a popped one belongs to a batch whose begin
failed or is counted as a row; and a counted one is published unless its text
is not allocated. The books are kept over every step of every thread, and
samples keep the order in which they were pushed.
-/

namespace TelemetryPlatform.GatewayAccounts

open GuardedRuns SampleQueue TelemetryTypes WriterConnection GatewayThreads GatewayPhases
open GatewayMemory

variable {cfg : Settings} {g t : Gateway} {a : Action}

/-- Messages that are counted and not yet settled. -/
def inCallback : ReceiverPc → ℕ
  | .counted _ => 1
  | .built _ => 1
  | _ => 0

/-- Popped samples whose batch is neither dropped nor counted yet. -/
def uncounted : WriterPc → List Sample
  | .popped buf => buf
  | .inserting buf _ _ _ => buf
  | .counting buf _ => buf
  | _ => []

/-- Popped samples that are still to be inserted. -/
def uninserted : WriterPc → List Sample
  | .popped buf => buf
  | .inserting _ todo _ _ => todo
  | _ => []

/-- Counted samples that are still to be published. -/
def unpublished : WriterPc → List Sample
  | .publishing rest => rest
  | _ => []

/-- The samples popped so far, by where they went: dropped, counted, or in
hand; the counted ones published, without a text, or left. The rows are those
that the connection sees, and some samples are still to be inserted. -/
structure Books (popped dropped counted published textless : List Sample)
    (rows : List TelemetryState) (inHand todo left : List Sample) : Prop where
  /-- Every popped sample is dropped, counted or in hand. -/
  batches : (dropped ++ counted ++ inHand).Perm popped
  /-- The dropped samples keep their order. -/
  droppedOrder : (dropped ++ inHand).Sublist popped
  /-- The counted samples keep their order. -/
  countedOrder : (counted ++ inHand).Sublist popped
  /-- Every counted sample is published, without a text, or left. -/
  texts : (published ++ textless ++ left).Perm counted
  /-- The published samples keep their order. -/
  publishedOrder : (published ++ left).Sublist counted
  /-- The rows are samples that need not be inserted any more. -/
  stored : ∃ front, popped = front ++ todo ∧ rows.Sublist (front.map Sample.state)

/-- The books of the gateway. -/
structure Accounted (g : Gateway) : Prop where
  /-- Every counted message is settled or under way. -/
  messages : g.counters.rxMsgs =
    g.unreadable + g.unqueued + g.pushed.length + inCallback g.receiver
  /-- The counted samples are counted as rows. -/
  rows : g.counters.dbRows = g.counted.length
  /-- Where the popped samples went. -/
  books : Books g.popped g.dropped g.counted g.published g.textless g.conn.visible
    (uncounted g.writer) (uninserted g.writer) (unpublished g.writer)

section Books

variable {popped dropped counted published textless inHand todo left buf rest : List Sample}
variable {rows rows' : List TelemetryState} {s : Sample}

/-- A batch is popped. -/
theorem Books.pop (h : Books popped dropped counted published textless rows [] [] [])
    (out : List Sample) :
    Books (popped ++ out) dropped counted published textless rows out out [] := by
  obtain ⟨front, hfront, hstored⟩ := h.stored
  have hbatches := h.batches
  have hdropped := h.droppedOrder
  have hcounted := h.countedOrder
  rw [List.append_nil] at hbatches hdropped hcounted hfront
  exact ⟨hbatches.append_right out, hdropped.append (.refl out), hcounted.append (.refl out),
    h.texts, h.publishedOrder, front, by rw [hfront], hstored⟩

/-- A batch is dropped. -/
theorem Books.drop (h : Books popped dropped counted published textless rows buf buf []) :
    Books popped (dropped ++ buf) counted published textless rows [] [] [] := by
  obtain ⟨front, hfront, hstored⟩ := h.stored
  refine ⟨?_, ?_, ?_, h.texts, h.publishedOrder, popped, (List.append_nil _).symm, ?_⟩
  · rw [List.append_nil, List.append_assoc]
    refine .trans (.append_left _ List.perm_append_comm) ?_
    rw [← List.append_assoc]
    exact h.batches
  · rw [List.append_nil]
    exact h.droppedOrder
  · rw [List.append_nil]
    exact (List.sublist_append_left _ _).trans h.countedOrder
  · rw [hfront, List.map_append]
    exact hstored.trans (List.sublist_append_left _ _)

/-- Rows are lost, or none are. -/
theorem Books.lose (h : Books popped dropped counted published textless rows inHand todo left)
    (hrows : rows'.Sublist rows) :
    Books popped dropped counted published textless rows' inHand todo left := by
  obtain ⟨front, hfront, hstored⟩ := h.stored
  exact ⟨h.batches, h.droppedOrder, h.countedOrder, h.texts, h.publishedOrder, front, hfront,
    hrows.trans hstored⟩

/-- The next sample is inserted. -/
theorem Books.insert
    (h : Books popped dropped counted published textless rows buf (s :: todo) left)
    (hrows : rows'.Sublist (rows ++ [s.state])) :
    Books popped dropped counted published textless rows' buf todo left := by
  obtain ⟨front, hfront, hstored⟩ := h.stored
  refine ⟨h.batches, h.droppedOrder, h.countedOrder, h.texts, h.publishedOrder, front ++ [s], ?_, ?_⟩
  · rw [hfront, List.append_assoc, List.singleton_append]
  · rw [List.map_append]
    exact hrows.trans (hstored.append (.refl _))

/-- A batch is counted. -/
theorem Books.count (h : Books popped dropped counted published textless rows buf [] []) :
    Books popped dropped (counted ++ buf) published textless rows [] [] buf := by
  have htexts := h.texts
  have hpublished := h.publishedOrder
  rw [List.append_nil] at htexts hpublished
  refine ⟨?_, ?_, ?_, htexts.append_right buf, hpublished.append (.refl buf), h.stored⟩
  · rw [List.append_nil, ← List.append_assoc]
    exact h.batches
  · rw [List.append_nil]
    exact (List.sublist_append_left _ _).trans h.droppedOrder
  · rw [List.append_nil]
    exact h.countedOrder

/-- The next sample is published. -/
theorem Books.publish
    (h : Books popped dropped counted published textless rows inHand todo (s :: rest)) :
    Books popped dropped counted (published ++ [s]) textless rows inHand todo rest := by
  refine ⟨h.batches, h.droppedOrder, h.countedOrder, ?_, ?_, h.stored⟩
  · refine .trans ?_ h.texts
    rw [List.append_assoc, List.append_assoc, List.append_assoc, List.singleton_append]
    exact .append_left _ List.perm_middle.symm
  · rw [List.append_assoc]
    exact h.publishedOrder

/-- The text of the next sample is not allocated. -/
theorem Books.loseText
    (h : Books popped dropped counted published textless rows inHand todo (s :: rest)) :
    Books popped dropped counted published (textless ++ [s]) rows inHand todo rest := by
  refine ⟨h.batches, h.droppedOrder, h.countedOrder, ?_, ?_, h.stored⟩
  · have htexts := h.texts
    rwa [← List.append_assoc, List.append_assoc _ [s], List.singleton_append]
  · exact (List.Sublist.append (.refl _) (List.sublist_cons_self _ _)).trans h.publishedOrder

end Books

/-- Waking the writer changes none of its books. -/
theorem wake_accounts (pc : WriterPc) : uncounted pc.wake = uncounted pc ∧
    uninserted pc.wake = uninserted pc ∧ unpublished pc.wake = unpublished pc := by
  cases pc <;> exact ⟨rfl, rfl, rfl⟩

/-- The books are empty after the start. -/
theorem accounted_init (cfg : Settings) (startMonoNs : ℤ) :
    Accounted (Gateway.init cfg startMonoNs) := by
  obtain ⟨batchSize, bufferOk, writerStarted, statsStarted, mqttConnected⟩ := cfg
  cases writerStarted <;> cases mqttConnected <;>
    exact ⟨rfl, rfl, .refl _, .refl _, .refl _, .refl _, .refl _, [], rfl, .refl _⟩

/-- A begin adds no row. -/
theorem visible_dbWriterBegin {ρ : Type*} (c : DbConn ρ) (granted : Bool) :
    (dbWriterBegin c granted).2.visible.Sublist c.visible := by
  unfold dbWriterBegin
  cases htx : c.tx with
  | some rows => exact .refl _
  | none => cases granted <;> simp [DbConn.visible, htx]

/-- An insert adds its row or loses rows. -/
theorem visible_dbWriterInsertState {ρ : Type*} (c : DbConn ρ) (row : ρ) (outcome : InsertOutcome) :
    (dbWriterInsertState c row outcome).2.visible.Sublist (c.visible ++ [row]) :=
  insertBatch_visible true c [(row, outcome)]

/-- A commit adds no row. -/
theorem visible_dbWriterCommit {ρ : Type*} (c : DbConn ρ) (outcome : CommitOutcome) :
    (dbWriterCommit c outcome).2.visible.Sublist c.visible := by
  unfold dbWriterCommit
  cases htx : c.tx <;> cases outcome <;> simp [DbConn.visible, htx]

/-- A rollback adds no row. -/
theorem visible_rollback {ρ : Type*} (c : DbConn ρ) (succeeds : Bool) :
    (rollback c succeeds).visible.Sublist c.visible := by
  unfold rollback
  split <;> simp [DbConn.visible]

/-- The books of a writer at a known place. -/
theorem Accounted.booksAt (h : Accounted g) {pc : WriterPc} (hpc : g.writer = pc) :
    Books g.popped g.dropped g.counted g.published g.textless g.conn.visible (uncounted pc)
      (uninserted pc) (unpublished pc) := hpc ▸ h.books

/-- Every step keeps the books. -/
theorem Accounted.move (h : Accounted g) (hmove : Move cfg g a t) : Accounted t := by
  have hmessages := h.messages
  cases hmove with
  | ignored => exact h
  | admitted _ hpc | messageCounted _ hpc | unreadable _ _ _ hpc | built _ _ _ _ hpc
  | unqueued _ hpc =>
    refine ⟨?_, h.rows, h.books⟩
    simp only [hpc, inCallback] at hmessages ⊢
    omega
  | pushed s n q hpc =>
    obtain ⟨huncounted, huninserted, hunpublished⟩ := wake_accounts g.writer
    refine ⟨?_, h.rows, ?_⟩
    · simp only [hpc, inCallback, List.length_append, List.length_singleton] at hmessages ⊢
      omega
    · dsimp only
      rw [huncounted, huninserted, hunpublished]
      exact h.books
  | turned hpc | writerEnded hpc | fellAsleep hpc | poppedNone _ hpc | wokeUp hpc
  | allDropped hpc | allPublished _ hpc | rawDropped _ _ hpc =>
    have hbooks := h.booksAt hpc
    exact ⟨hmessages, h.rows, hbooks⟩
  | popped s rest q hpc =>
    have hbooks := h.booksAt hpc
    exact ⟨hmessages, h.rows, hbooks.pop (s :: rest)⟩
  | notBegun buf granted _ hpc =>
    have hbooks := h.booksAt hpc
    exact ⟨hmessages, h.rows, (hbooks.lose (visible_dbWriterBegin _ _)).drop⟩
  | begun buf granted _ hpc =>
    have hbooks := h.booksAt hpc
    exact ⟨hmessages, h.rows, hbooks.lose (visible_dbWriterBegin _ _)⟩
  | inserted buf s todo _ _ _ outcome hpc =>
    have hbooks := h.booksAt hpc
    exact ⟨hmessages, h.rows, hbooks.insert (visible_dbWriterInsertState _ _ _)⟩
  | ended buf ok _ _ commit rollbackOk hpc =>
    have hbooks := h.booksAt hpc
    refine ⟨hmessages, h.rows, hbooks.lose ?_⟩
    dsimp only
    split
    · exact visible_dbWriterCommit _ _
    · exact visible_rollback _ _
  | batchCounted buf dt hpc =>
    have hbooks := h.booksAt hpc
    refine ⟨hmessages, ?_, hbooks.count⟩
    simp only [Counters.addBatch, List.length_append, h.rows]
  | published s rest _ hpc =>
    have hbooks := h.booksAt hpc
    exact ⟨hmessages, h.rows, hbooks.publish⟩
  | textless s rest _ hpc =>
    have hbooks := h.booksAt hpc
    exact ⟨hmessages, h.rows, hbooks.loseText⟩
  | slept | statsEnded | sampling | wokeToEnd | sampled | reported | flagged | writerJoined
  | statsJoined | drained | freed => exact ⟨hmessages, h.rows, h.books⟩
  | woken =>
    obtain ⟨huncounted, huninserted, hunpublished⟩ := wake_accounts g.writer
    refine ⟨hmessages, h.rows, ?_⟩
    dsimp only
    rw [huncounted, huninserted, hunpublished]
    exact h.books
  | closed _ hquiet =>
    refine ⟨?_, h.rows, h.books⟩
    rcases hquiet with hpc | hpc <;> simpa only [hpc, inCallback] using hmessages

/-- Every run keeps the books. -/
theorem accounted_of_run {startMonoNs : ℤ} {actions : List Action}
    (hrun : Run (gatewayStep cfg) anyStep (Gateway.init cfg startMonoNs) actions g) :
    Accounted g := by
  induction hrun with
  | nil => exact accounted_init cfg startMonoNs
  | snoc hrun _ hstep ih =>
    obtain ⟨hphases, cells, hkept⟩ := kept_of_run hrun
    exact ih.move ((gatewayStep_cases hstep).resolve_right (hkept.not_stray hphases))

/-- In every state that the threads reach, the messages counted are those that
did not unpack, those without a node, the samples pushed, and the one in the
callback; the samples pushed are in order those popped, those freed by the
stop and those queued; the popped ones are those of dropped batches, the rows
counted and those in hand; and the rows are the samples published, those
without a text and those to be published. Each kind keeps its order, and what
the database shows are popped samples in their order. Once the gateway is
freed nothing is queued or in hand. -/
theorem messages_accounted {startMonoNs : ℤ} {actions : List Action}
    (hrun : Run (gatewayStep cfg) anyStep (Gateway.init cfg startMonoNs) actions g) :
    g.counters.rxMsgs = g.unreadable + g.unqueued + g.pushed.length + inCallback g.receiver ∧
    (∃ queued, g.pushed = g.popped ++ g.drained ++ queued ∧
      (stage g.stop < 5 → g.drained = [] ∧ g.queue.qLen.toNat = queued.length) ∧
      (g.stop = .freed → queued = [])) ∧
    (g.dropped ++ g.counted ++ uncounted g.writer).Perm g.popped ∧
    g.dropped.Sublist g.popped ∧ g.counted.Sublist g.popped ∧
    g.counters.dbRows = g.counted.length ∧
    (g.published ++ g.textless ++ unpublished g.writer).Perm g.counted ∧
    g.published.Sublist g.counted ∧
    g.conn.visible.Sublist (g.popped.map Sample.state) ∧
    (g.stop = .freed → g.counters.rxMsgs = g.unreadable + g.unqueued + g.dropped.length +
      (g.published.length + g.textless.length) + g.drained.length) := by
  obtain ⟨hphases, cells, hkept⟩ := kept_of_run hrun
  obtain ⟨hmessages, hrows, hbooks⟩ := accounted_of_run hrun
  obtain ⟨front, hfront, hstored⟩ := hbooks.stored
  refine ⟨hmessages, ⟨cells.map Prod.snd, hkept.order, fun hstage => ?_, fun hpc => ?_⟩,
    hbooks.batches, ?_, ?_, hrows, hbooks.texts, ?_, ?_, fun hpc => ?_⟩
  · rw [(hkept.chained.holds hstage).len_toNat, List.length_map]
    exact ⟨hkept.undrained hstage, rfl⟩
  · rw [hkept.chained.freed hpc, List.map_nil]
  · exact (List.sublist_append_left _ _).trans hbooks.droppedOrder
  · exact (List.sublist_append_left _ _).trans hbooks.countedOrder
  · exact (List.sublist_append_left _ _).trans hbooks.publishedOrder
  · rw [hfront, List.map_append]
    exact hstored.trans (List.sublist_append_left _ _)
  · have hwriter := hphases.writer (by simp [hpc, stage])
    have hreceiver := hphases.receiver (by simp [hpc, stage])
    have hpushed := hkept.length_pushed
    have hbatches := hbooks.batches.length_eq
    have htexts := hbooks.texts.length_eq
    rw [hkept.chained.freed hpc] at hpushed
    simp only [hwriter, hreceiver, inCallback, uncounted, unpublished, List.append_nil,
      List.length_append, List.length_nil] at hmessages hpushed hbatches htexts
    omega

/-- One message is stored and published, one is left in the queue. -/
theorem messages_accounted_storeOneLeaveOne :
    ∃ g, Run (gatewayStep allThreads) anyStep (Gateway.init allThreads 0) storeOneLeaveOne g ∧
      g.stop = .freed ∧ g.counters.rxMsgs = 2 ∧ g.counters.dbRows = 1 ∧
      2 = g.unreadable + g.unqueued + g.dropped.length +
        (g.published.length + g.textless.length) + g.drained.length ∧
      g.conn.visible.Sublist (g.popped.map Sample.state) := by
  have hexec : (exec (gatewayStep allThreads) anyStep (Gateway.init allThreads 0)
      storeOneLeaveOne).map (fun g => (stage g.stop, g.counters.rxMsgs, g.counters.dbRows)) =
      some (6, 2, 1) := by decide +kernel
  obtain ⟨g, hg, hfacts⟩ := Option.map_eq_some_iff.mp hexec
  simp only [Prod.mk.injEq] at hfacts
  obtain ⟨hstage, hmessages, hrows⟩ := hfacts
  have hrun := run_of_exec hg
  have hpc : g.stop = .freed := by cases hstop : g.stop <;> simp_all [stage]
  obtain ⟨-, -, -, -, -, -, -, -, hstored, hfreed⟩ := messages_accounted hrun
  exact ⟨g, hrun, hpc, hmessages, hrows, hmessages ▸ hfreed hpc, hstored⟩

end TelemetryPlatform.GatewayAccounts
