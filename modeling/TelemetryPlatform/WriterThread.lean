import Mathlib.Data.List.Nodup
import TelemetryPlatform.GuardedRuns
import TelemetryPlatform.SampleJson
import TelemetryPlatform.WriterConnection

/-!
# The writer loop

Each turn of the loop takes a batch from the queue, persists it in one
transaction, updates the statistics and then hands the samples one by one to
the broadcast. The statistics and the broadcast come after every failure
branch except that of the begin, and the return code of the commit is dropped.
-/

namespace TelemetryPlatform.WriterThread

open CStrings FormattedText GuardedRuns TelemetryTypes SampleJson WriterConnection

/-- A sample with its place in the order of arrival. Its table row is the
inserted row of its state. -/
structure StoredRow where
  /-- Number of samples popped before this one. -/
  arrival : ℕ
  /-- The sample. -/
  state : TelemetryState

/-- One sample of a batch with the outcomes of its insert and of the
allocation of its text. -/
structure SampleRun where
  /-- The sample. -/
  state : TelemetryState
  /-- Outcome of its insert. -/
  insert : InsertOutcome
  /-- Whether the text of the sample is allocated. -/
  mallocOk : Bool

/-- One turn of the loop: the popped samples and the outcomes of all calls. -/
structure BatchRun where
  /-- The popped samples. -/
  samples : List SampleRun
  /-- Whether the write lock is granted at the begin. -/
  granted : Bool
  /-- Outcome of the commit, where one is made. -/
  commit : CommitOutcome
  /-- Whether the rollback succeeds, where one is made. -/
  rollbackOk : Bool
  /-- Monotonic clock before the transaction. -/
  t0 : ℤ
  /-- Monotonic clock after the transaction. -/
  t1 : ℤ

/-- The popped samples with their places in the order of arrival. -/
def BatchRun.numbered (b : BatchRun) (first : ℕ) : List (StoredRow × SampleRun) :=
  (b.samples.zipIdx first).map fun (r, i) => (⟨i, r.state⟩, r)

/-- What the connection sees of the turn. -/
def BatchRun.outcome (b : BatchRun) (first : ℕ) : BatchOutcome StoredRow where
  rows := (b.numbered first).map fun (row, r) => (row, r.insert)
  granted := b.granted
  commit := b.commit
  rollbackOk := b.rollbackOk

/-- The writer thread with its connection and the statistics it keeps. -/
structure WriterState where
  /-- The writer connection. -/
  conn : DbConn StoredRow
  /-- Number of samples popped so far. -/
  popped : ℕ
  /-- Statistics: rows. -/
  dbRows : ℕ
  /-- Statistics: commits. -/
  commitCount : ℕ
  /-- Statistics: total time of the transactions. -/
  commitNsSum : ℤ
  /-- Statistics: longest transaction. -/
  commitNsMax : ℤ
  /-- Samples of the current batch that are still to be broadcast; none at
  the head of the loop. -/
  todo : List (StoredRow × Bool)
  /-- Samples handed to the broadcast so far, with their texts. -/
  published : List (StoredRow × CString)

/-- The writer before its first turn. -/
def WriterState.init : WriterState := ⟨⟨none, []⟩, 0, 0, 0, 0, 0, [], []⟩

/-- Steps of the writer thread. -/
inductive WriterAction where
  /-- At the head of the loop: pop a batch, persist it, update the statistics. -/
  | batch (b : BatchRun)
  /-- Render the next sample of the batch and hand it to the broadcast. -/
  | publish

/-- Time spent in a transaction. -/
def elapsed (t0 t1 : ℤ) : ℤ := if t0 < t1 then t1 - t0 else 0

/-- The statistics after a transaction was begun and ended. -/
def WriterState.count (w : WriterState) (b : BatchRun) : WriterState :=
  { w with
    dbRows := w.dbRows + b.samples.length
    commitCount := w.commitCount + 1
    commitNsSum := w.commitNsSum + elapsed b.t0 b.t1
    commitNsMax := max w.commitNsMax (elapsed b.t0 b.t1) }

/-- One step of the writer thread. -/
def writerStep (w : WriterState) : WriterAction → Option WriterState
  | .batch b =>
    if w.todo ≠ [] then none
    else if b.samples = [] then some w
    else
      let (begun, conn) := persistBatch w.conn (b.outcome w.popped)
      let w' := { w with conn := conn, popped := w.popped + b.samples.length }
      if begun = true then
        some { w'.count b with todo := (b.numbered w.popped).map fun (row, r) => (row, r.mallocOk) }
      else some w'
  | .publish =>
    match w.todo with
    | [] => none
    | (row, mallocOk) :: rest =>
      match telemetryStateToJsonAlloc mallocOk row.state with
      | .ok json => some { w with todo := rest, published := w.published ++ [(row, json)] }
      | .error _ => some { w with todo := rest }

/-- The turn persists all its samples, or does not begin a transaction. -/
def BatchRun.Persists (b : BatchRun) : Prop :=
  b.samples ≠ [] → b.granted = true → (∀ r ∈ b.samples, r.insert = .done) ∧ b.commit = .done

/-- The turn leaves no transaction open: a commit does not fail with its
transaction open, and where an insert fails the rollback succeeds or the
insert took the transaction with it. -/
def BatchRun.Closes (b : BatchRun) : Prop :=
  b.samples ≠ [] → b.granted = true →
    if ∀ r ∈ b.samples, r.insert = .done then b.commit ≠ .failedOpen
    else b.rollbackOk = true ∨ ∃ r ∈ b.samples, r.insert = .rolledBack

/-- Every sample handed to the broadcast is in a committed row. -/
def PublishedPersisted (w : WriterState) : Prop := ∀ p ∈ w.published, p.1 ∈ w.conn.table

/-- Numbering keeps the samples. -/
theorem numbered_map_snd (b : BatchRun) (first : ℕ) :
    (b.numbered first).map Prod.snd = b.samples := by
  rw [BatchRun.numbered, List.map_map]
  exact List.zipIdx_map_fst first b.samples

/-- Conditions on the insert outcomes are conditions on the samples. -/
theorem forall_outcome_rows {b : BatchRun} {first : ℕ} (p : InsertOutcome → Prop) :
    (∀ r ∈ (b.outcome first).rows, p r.2) ↔ ∀ r ∈ b.samples, p r.insert := by
  rw [← numbered_map_snd b first, BatchOutcome.rows, BatchRun.outcome, List.forall_mem_map,
    List.forall_mem_map]

/-- The connection sees success of all statements exactly where the turn has it. -/
theorem outcome_allDone {b : BatchRun} {first : ℕ} :
    (b.outcome first).AllDone ↔ (∀ r ∈ b.samples, r.insert = .done) ∧ b.commit = .done :=
  and_congr (forall_outcome_rows (· = .done)) Iff.rfl

/-- The connection sees a closed transaction exactly where the turn leaves none open. -/
theorem outcome_closes {b : BatchRun} {first : ℕ} :
    (b.outcome first).Closes ↔
      if ∀ r ∈ b.samples, r.insert = .done then b.commit ≠ .failedOpen
      else b.rollbackOk = true ∨ ∃ r ∈ b.samples, r.insert = .rolledBack := by
  have hall : AllInserted (b.outcome first).rows ↔ ∀ r ∈ b.samples, r.insert = .done :=
    forall_outcome_rows (· = .done)
  have hex : (∃ r ∈ (b.outcome first).rows, r.2 = .rolledBack) ↔
      ∃ r ∈ b.samples, r.insert = .rolledBack := by
    have h : (∀ r ∈ (b.outcome first).rows, r.2 ≠ .rolledBack) ↔
        ∀ r ∈ b.samples, r.insert ≠ .rolledBack := forall_outcome_rows (· ≠ .rolledBack)
    simpa only [not_forall, not_not, exists_prop] using not_congr h
  unfold BatchOutcome.Closes
  by_cases h : ∀ r ∈ b.samples, r.insert = .done
  · rw [if_pos (hall.mpr h), if_pos h]
    rfl
  · rw [if_neg (mt hall.mp h), if_neg h, hex]
    rfl

/-- A batch that pops samples has as many rows. -/
theorem outcome_rows_length (b : BatchRun) (first : ℕ) :
    (b.outcome first).rows.length = b.samples.length := by
  simp [BatchRun.outcome, BatchRun.numbered]

/-- The rows of a batch are its numbered samples. -/
theorem outcome_rows_fst (b : BatchRun) (first : ℕ) :
    (b.outcome first).rows.map Prod.fst = (b.numbered first).map Prod.fst := by
  simp [BatchRun.outcome, Function.comp_def]

/-- What one turn of the loop does to the connection and the row counter:
nothing, or one transaction after whose end all its samples are counted. -/
theorem writerStep_batch_cases {w w' : WriterState} {b : BatchRun}
    (hstep : writerStep w (.batch b) = some w') :
    (w'.conn = w.conn ∧ w'.dbRows = w.dbRows ∧ w'.todo = w.todo ∧ w'.published = w.published ∧
        (b.samples = [] ∨ w.conn.tx ≠ none ∨ b.granted = false)) ∨
      (b.samples ≠ [] ∧ w.conn.tx = none ∧ b.granted = true ∧
        w'.conn = (persistBatch w.conn (b.outcome w.popped)).2 ∧
        w'.dbRows = w.dbRows + b.samples.length ∧ w'.published = w.published ∧
        w'.todo.map Prod.fst = (b.numbered w.popped).map Prod.fst) := by
  rw [writerStep] at hstep
  split_ifs at hstep with htodo hempty
  · cases hstep
    exact .inl ⟨rfl, rfl, rfl, rfl, .inl hempty⟩
  · by_cases hbegun : w.conn.tx = none ∧ b.granted = true
    · obtain ⟨htx, hgranted⟩ := hbegun
      have hpersist := persistBatch_of_begun (b := b.outcome w.popped) htx hgranted
      rw [hpersist] at hstep ⊢
      simp only [if_true, Option.some.injEq] at hstep
      subst hstep
      exact .inr ⟨hempty, htx, hgranted, rfl, rfl, rfl, by simp [Function.comp_def]⟩
    · have hnot : w.conn.tx ≠ none ∨ b.granted = false := by
        by_cases htx : w.conn.tx = none
        · exact .inr (Bool.eq_false_of_not_eq_true fun h => hbegun ⟨htx, h⟩)
        · exact .inl htx
      rw [persistBatch_of_not_begun hnot] at hstep
      simp only [Bool.false_eq_true, if_false, Option.some.injEq] at hstep
      subst hstep
      exact .inl ⟨rfl, rfl, rfl, rfl, .inr hnot⟩

/-- What one publish step does: the next sample leaves the batch and may reach
the broadcast. -/
theorem writerStep_publish_cases {w w' : WriterState} (hstep : writerStep w .publish = some w') :
    ∃ row mallocOk, w.todo = (row, mallocOk) :: w'.todo ∧ w'.conn = w.conn ∧
      w'.dbRows = w.dbRows ∧ ∀ p ∈ w'.published, p ∈ w.published ∨ p.1 = row := by
  rw [writerStep] at hstep
  cases htodo : w.todo with
  | nil => rw [htodo] at hstep; cases hstep
  | cons entry rest =>
    obtain ⟨row, mallocOk⟩ := entry
    rw [htodo] at hstep
    dsimp only at hstep
    cases hjson : telemetryStateToJsonAlloc mallocOk row.state with
    | ok json =>
      rw [hjson] at hstep
      cases hstep
      refine ⟨row, mallocOk, rfl, rfl, rfl, fun p hp => ?_⟩
      rcases List.mem_append.mp hp with hp | hp
      · exact .inl hp
      · exact .inr (by rw [List.mem_singleton.mp hp])
    | error code =>
      rw [hjson] at hstep
      cases hstep
      exact ⟨row, mallocOk, rfl, rfl, rfl, fun p hp => .inl hp⟩

/-- A turn that is taken leaves its samples to be broadcast exactly where it
begins a transaction. -/
theorem writerStep_batch_todo {w w' : WriterState} {b : BatchRun}
    (hstep : writerStep w (.batch b) = some w') :
    w.todo = [] ∧ w'.published = w.published ∧
      w'.todo = if (dbWriterBegin w.conn b.granted).1 = 0 then
        (b.numbered w.popped).map fun (row, r) => (row, r.mallocOk) else [] := by
  rw [writerStep] at hstep
  split_ifs at hstep with htodo hempty
  · cases hstep
    rw [not_not] at htodo
    refine ⟨htodo, rfl, ?_⟩
    rw [htodo, BatchRun.numbered, hempty]
    exact (ite_self _).symm
  · rw [not_not] at htodo
    refine ⟨htodo, ?_⟩
    have hbegun := persistBatch_begun_iff w.conn (b.outcome w.popped)
    generalize persistBatch w.conn (b.outcome w.popped) = r at hstep hbegun
    obtain ⟨begun, conn⟩ := r
    cases begun with
    | true =>
      cases hstep
      exact ⟨rfl, (if_pos (hbegun.mp rfl)).symm⟩
    | false =>
      cases hstep
      exact ⟨rfl, htodo.trans (if_neg fun hrc => Bool.false_ne_true (hbegun.mpr hrc)).symm⟩

/-- A publish step whose text is allocated hands the next sample to the
broadcast. -/
theorem writerStep_publish_allocated {w : WriterState} {row : StoredRow}
    {rest : List (StoredRow × Bool)} (htodo : w.todo = (row, true) :: rest) :
    writerStep w .publish = some { w with
      todo := rest
      published := w.published ++ [(row, format (telemetryStateToJson row.state))] } := by
  rw [writerStep, htodo]
  rfl

/-- The rows that the connection sees arrived one after the other, all before
the samples still to be popped. -/
def InArrivalOrder (w : WriterState) : Prop :=
  (w.conn.visible.map StoredRow.arrival).Pairwise (· < ·) ∧
    ∀ r ∈ w.conn.visible, r.arrival < w.popped

/-- The samples of a batch are numbered consecutively. -/
theorem numbered_arrival (b : BatchRun) (first : ℕ) :
    ((b.outcome first).rows.map Prod.fst).map StoredRow.arrival =
      List.range' first b.samples.length := by
  rw [outcome_rows_fst, BatchRun.numbered, List.map_map, List.map_map]
  exact List.zipIdx_map_snd first b.samples

/-- The step of the row numbers: at most the next numbers are added. -/
theorem InArrivalOrder.extend {w w' : WriterState} {b : BatchRun} (h : InArrivalOrder w)
    (hvisible : w'.conn.visible.Sublist
      (w.conn.visible ++ (b.outcome w.popped).rows.map Prod.fst))
    (hpopped : w'.popped = w.popped + b.samples.length) : InArrivalOrder w' := by
  have hnew := numbered_arrival b w.popped
  constructor
  · refine List.Pairwise.sublist (hvisible.map StoredRow.arrival) ?_
    rw [List.map_append, hnew, List.pairwise_append]
    refine ⟨h.1, List.pairwise_lt_range', fun x hx y hy => ?_⟩
    obtain ⟨r, hr, rfl⟩ := List.mem_map.mp hx
    have hold := h.2 r hr
    rw [List.mem_range'_1] at hy
    omega
  · intro r hr
    rw [hpopped]
    rcases List.mem_append.mp (hvisible.subset hr) with hold | hfresh
    · have := h.2 r hold
      omega
    · have hmem : r.arrival ∈ List.range' w.popped b.samples.length :=
        hnew ▸ List.mem_map_of_mem hfresh
      rw [List.mem_range'_1] at hmem
      omega

/-- A turn pops its samples whatever happens to them. -/
theorem writerStep_batch_popped {w w' : WriterState} {b : BatchRun}
    (hstep : writerStep w (.batch b) = some w') : w'.popped = w.popped + b.samples.length := by
  rw [writerStep] at hstep
  split_ifs at hstep with htodo hempty
  · cases hstep
    rw [hempty]
    rfl
  · generalize persistBatch w.conn (b.outcome w.popped) = r at hstep
    obtain ⟨begun, conn⟩ := r
    cases begun <;> cases hstep <;> rfl

/-- A publish step pops nothing. -/
theorem writerStep_publish_popped {w w' : WriterState}
    (hstep : writerStep w .publish = some w') : w'.popped = w.popped := by
  rw [writerStep] at hstep
  split at hstep
  · cases hstep
  · split at hstep <;> cases hstep <;> rfl

/-- One turn of the loop starts with no sample to be broadcast and ends with
its own samples, whose numbers are new; what it adds to the table is among
them. -/
theorem writerStep_batch_rows {w w' : WriterState} {b : BatchRun}
    (hstep : writerStep w (.batch b) = some w') :
    w.todo = [] ∧
      (∀ r ∈ w'.todo.map Prod.fst, w.popped ≤ r.arrival ∧ r.arrival < w'.popped) ∧
      ∃ extra, w'.conn.table = w.conn.table ++ extra ∧ ∀ r ∈ extra, r ∈ w'.todo.map Prod.fst := by
  have hempty : w.todo = [] := by
    by_contra hne
    rw [writerStep, if_pos hne] at hstep
    cases hstep
  refine ⟨hempty, ?_⟩
  rcases writerStep_batch_cases hstep with
    ⟨hconn, -, htodo, -, -⟩ | ⟨-, htx, -, hconn, -, -, htodo⟩
  · rw [htodo, hempty, hconn]
    exact ⟨nofun, [], (List.append_nil _).symm, nofun⟩
  · have hrows := outcome_rows_fst b w.popped
    constructor
    · intro r hr
      have hmem : r.arrival ∈ List.range' w.popped b.samples.length := by
        rw [← numbered_arrival, hrows, ← htodo]
        exact List.mem_map_of_mem hr
      rw [List.mem_range'_1] at hmem
      rw [writerStep_batch_popped hstep]
      omega
    · obtain ⟨extra, hextra⟩ := persistBatch_table w.conn (b.outcome w.popped)
      refine ⟨extra, by rw [hconn, hextra], fun r hr => ?_⟩
      have hvisible := persistBatch_visible w.conn (b.outcome w.popped)
      have hnone : w.conn.visible = w.conn.table := by
        rw [DbConn.visible, htx]
        exact List.append_nil _
      rw [hnone, hrows, ← htodo] at hvisible
      have htable := (List.sublist_append_left _ _).trans hvisible
      rw [← hextra, List.append_sublist_append_left] at htable
      exact htable.subset hr

/-- Rows stay in the order of arrival along every run of the writer. -/
theorem inArrivalOrder_of_run {actions : List WriterAction} {w : WriterState}
    (hrun : Run writerStep anyStep WriterState.init actions w) : InArrivalOrder w := by
  refine hrun.invariant ⟨.nil, fun r hr => absurd hr List.not_mem_nil⟩ fun w a w' _ hstep h => ?_
  cases a with
  | publish =>
    obtain ⟨-, -, -, hconn, -, -⟩ := writerStep_publish_cases hstep
    rw [InArrivalOrder, hconn, writerStep_publish_popped hstep]
    exact h
  | batch b =>
    refine h.extend (b := b) ?_ (writerStep_batch_popped hstep)
    rcases writerStep_batch_cases hstep with ⟨hconn, -⟩ | ⟨-, -, -, hconn, -⟩
    · rw [hconn]
      exact List.sublist_append_left _ _
    · rw [hconn]
      exact persistBatch_visible w.conn (b.outcome w.popped)

/-- The table has no row twice. -/
theorem table_nodup {actions : List WriterAction} {w : WriterState}
    (hrun : Run writerStep anyStep WriterState.init actions w) : w.conn.table.Nodup := by
  have hincreasing := (inArrivalOrder_of_run hrun).1
  have hvisible : w.conn.visible.Nodup :=
    List.Nodup.of_map StoredRow.arrival (hincreasing.imp fun h => Nat.ne_of_lt h)
  exact hvisible.sublist (List.sublist_append_left _ _)

/-- The books of the writer after some actions: the row counter never falls
below the table, and it equals the table exactly while every turn persisted
all its samples. While it does, no transaction is open and every sample of
the current batch or already broadcast is in the table. -/
structure Books (actions : List WriterAction) (w : WriterState) : Prop where
  /-- The counter is at least the number of committed rows. -/
  le : w.conn.table.length ≤ w.dbRows
  /-- When the counter is exact. -/
  exact_iff : w.conn.table.length = w.dbRows ↔ ∀ b, .batch b ∈ actions → b.Persists
  /-- No transaction is open while the counter is exact. -/
  closed : w.conn.table.length = w.dbRows → w.conn.tx = none
  /-- The samples of the batch are persisted while the counter is exact. -/
  todo : w.conn.table.length = w.dbRows → ∀ p ∈ w.todo, p.1 ∈ w.conn.table
  /-- The broadcast samples are persisted while the counter is exact. -/
  published : w.conn.table.length = w.dbRows → PublishedPersisted w

/-- Whether all turns persist after one more turn. -/
theorem persists_snoc_batch {actions : List WriterAction} {b : BatchRun} :
    (∀ c, .batch c ∈ actions ++ [.batch b] → c.Persists) ↔
      (∀ c, .batch c ∈ actions → c.Persists) ∧ b.Persists := by
  simp only [List.mem_append, List.mem_singleton, WriterAction.batch.injEq, or_imp, forall_and,
    forall_eq]

/-- A publish step is no turn. -/
theorem persists_snoc_publish {actions : List WriterAction} :
    (∀ c, .batch c ∈ actions ++ [.publish] → c.Persists) ↔
      ∀ c, .batch c ∈ actions → c.Persists := by
  simp only [List.mem_append, List.mem_singleton, reduceCtorEq, or_false]

/-- A publish step keeps the books. -/
theorem Books.publish {actions : List WriterAction} {w w' : WriterState} (h : Books actions w)
    (hstep : writerStep w .publish = some w') : Books (actions ++ [.publish]) w' := by
  obtain ⟨row, mallocOk, htodo, hconn, hrows, hpublished⟩ := writerStep_publish_cases hstep
  constructor
  · rw [hconn, hrows]
    exact h.le
  · rw [hconn, hrows, persists_snoc_publish]
    exact h.exact_iff
  · rw [hconn, hrows]
    exact h.closed
  · rw [hconn, hrows]
    intro hexact p hp
    exact h.todo hexact p (by rw [htodo]; exact List.mem_cons_of_mem _ hp)
  · rw [hconn, hrows]
    intro hexact p hp
    rw [hconn]
    rcases hpublished p hp with hold | hnew
    · exact h.published hexact p hold
    · rw [hnew]
      exact h.todo hexact (row, mallocOk) (by rw [htodo]; exact List.mem_cons_self)

/-- A turn that begins no transaction keeps the books. -/
theorem Books.batch_idle {actions : List WriterAction} {w w' : WriterState} {b : BatchRun}
    (h : Books actions w) (hconn : w'.conn = w.conn) (hrows : w'.dbRows = w.dbRows)
    (htodo : w'.todo = w.todo) (hpublished : w'.published = w.published)
    (hidle : b.samples = [] ∨ w.conn.tx ≠ none ∨ b.granted = false) :
    Books (actions ++ [.batch b]) w' := by
  have hpersists : w.conn.table.length = w.dbRows → b.Persists := by
    intro hexact hne hgranted
    rcases hidle with hempty | hopen | hrefused
    · exact absurd hempty hne
    · exact absurd (h.closed hexact) hopen
    · rw [hgranted] at hrefused
      cases hrefused
  constructor
  · rw [hconn, hrows]
    exact h.le
  · rw [hconn, hrows, persists_snoc_batch, ← h.exact_iff]
    exact ⟨fun hexact => ⟨hexact, hpersists hexact⟩, And.left⟩
  · rw [hconn, hrows]
    exact h.closed
  · rw [hconn, hrows, htodo]
    exact h.todo
  · rw [hconn, hrows, PublishedPersisted, hconn, hpublished]
    exact h.published

/-- A turn that runs a transaction keeps the books: where it persists its
samples the table grows by all of them, and otherwise the counter is ahead
of the table from then on. -/
theorem Books.batch_begun {actions : List WriterAction} {w w' : WriterState} {b : BatchRun}
    (h : Books actions w) (hne : b.samples ≠ []) (htx : w.conn.tx = none)
    (hgranted : b.granted = true) (hconn : w'.conn = (persistBatch w.conn (b.outcome w.popped)).2)
    (hrows : w'.dbRows = w.dbRows + b.samples.length) (hpublished : w'.published = w.published)
    (htodo : w'.todo.map Prod.fst = (b.numbered w.popped).map Prod.fst) :
    Books (actions ++ [.batch b]) w' := by
  have hlen := outcome_rows_length b w.popped
  have hle := h.le
  by_cases hall : (b.outcome w.popped).AllDone
  · -- all rows of the batch are appended to the table
    have hpersists : b.Persists := fun _ _ => outcome_allDone.mp hall
    rw [persistBatch_of_allDone htx hgranted hall] at hconn
    have htable : w'.conn.table = w.conn.table ++ (b.outcome w.popped).rows.map Prod.fst := by
      rw [hconn]
    have hsize : w'.conn.table.length = w.conn.table.length + b.samples.length := by
      rw [htable, List.length_append, List.length_map, hlen]
    have hexact : w'.conn.table.length = w'.dbRows ↔ w.conn.table.length = w.dbRows := by omega
    refine ⟨by omega, ?_, fun _ => by rw [hconn], fun _ p hp => ?_, fun he p hp => ?_⟩
    · rw [hexact, h.exact_iff, persists_snoc_batch]
      exact ⟨fun hbefore => ⟨hbefore, hpersists⟩, And.left⟩
    · rw [htable, outcome_rows_fst, ← htodo]
      exact List.mem_append_right _ (List.mem_map_of_mem hp)
    · rw [htable]
      exact List.mem_append_left _ (h.published (hexact.mp he) p (hpublished ▸ hp))
  · -- the counter moves past the table, which has no inverse
    have hnot : ¬ b.Persists := fun hp => hall (outcome_allDone.mpr (hp hne hgranted))
    have hshort := (persistBatch_of_not_allDone htx hgranted
      (List.length_pos_iff.mp (by rw [hlen]; exact List.length_pos_iff.mpr hne)) hall).2
    rw [← hconn, hlen] at hshort
    have hahead : w'.conn.table.length ≠ w'.dbRows := by omega
    refine ⟨by omega, ?_, fun he => absurd he hahead, fun he => absurd he hahead,
      fun he => absurd he hahead⟩
    rw [persists_snoc_batch]
    exact ⟨fun he => absurd he hahead, fun hp => absurd hp.2 hnot⟩

/-- The books are kept along every run of the writer. -/
theorem books_of_run {actions : List WriterAction} {w : WriterState}
    (hrun : Run writerStep anyStep WriterState.init actions w) : Books actions w := by
  induction hrun with
  | nil =>
    refine ⟨le_rfl, ⟨fun _ b hb => absurd hb List.not_mem_nil, fun _ => rfl⟩, fun _ => rfl, ?_, ?_⟩
    · exact fun _ p hp => absurd hp List.not_mem_nil
    · exact fun _ p hp => absurd hp List.not_mem_nil
  | @snoc actions w w' a _ _ hstep ih =>
    cases a with
    | publish => exact ih.publish hstep
    | batch b =>
      rcases writerStep_batch_cases hstep with
        ⟨hconn, hrows, htodo, hpublished, hidle⟩ |
        ⟨hne, htx, hgranted, hconn, hrows, hpublished, htodo⟩
      · exact ih.batch_idle hconn hrows htodo hpublished hidle
      · exact ih.batch_begun hne htx hgranted hconn hrows hpublished htodo

/-- Along every run, samples are broadcast only after their commit and the
row counter is exact at every loop head, if every turn persists its samples;
and at a loop head the row counter is exact only if every turn did. -/
theorem persist_before_publish_iff {actions : List WriterAction} {w : WriterState}
    (hrun : Run writerStep anyStep WriterState.init actions w) :
    ((∀ b, .batch b ∈ actions → b.Persists) →
        PublishedPersisted w ∧ (w.todo = [] → w.dbRows = w.conn.table.length)) ∧
      (w.todo = [] → PublishedPersisted w ∧ w.dbRows = w.conn.table.length →
        ∀ b, .batch b ∈ actions → b.Persists) := by
  have hbooks := books_of_run hrun
  constructor
  · intro hall
    have hexact := hbooks.exact_iff.mpr hall
    exact ⟨hbooks.published hexact, fun _ => hexact.symm⟩
  · intro _ h
    exact hbooks.exact_iff.mp h.2.symm

/-- A state with nothing in it but zeros. -/
def blankState : TelemetryState :=
  onMessageState ⟨none, none, none, none, none, none, 0, none, none⟩ 0 [] false

/-- A turn with one sample. -/
def oneSampleRun (insert : InsertOutcome) (commit : CommitOutcome) : BatchRun where
  samples := [⟨blankState, insert, true⟩]
  granted := true
  commit := commit
  rollbackOk := true
  t0 := 0
  t1 := 0

/-- One sample is stored and published. -/
theorem persist_before_publish_iff_oneSample :
    ∃ w, Run writerStep anyStep WriterState.init [.batch (oneSampleRun .done .done), .publish] w ∧
      PublishedPersisted w ∧ w.dbRows = w.conn.table.length := by
  have hexec : ∃ w, exec writerStep anyStep WriterState.init
      [.batch (oneSampleRun .done .done), .publish] = some w := ⟨_, rfl⟩
  obtain ⟨w, hw⟩ := hexec
  have hrun := run_of_exec hw
  have htodo : w.todo = [] := by
    cases hw
    rfl
  obtain ⟨hpublished, hrows⟩ := (persist_before_publish_iff hrun).1 fun b hb => by
    have heq : b = oneSampleRun .done .done := by simpa using hb
    rw [heq]
    exact fun _ _ => ⟨by decide, rfl⟩
  exact ⟨w, hrun, hpublished, hrows htodo⟩

/-- After a failed insert the batch is rolled back, counted and broadcast. -/
theorem broadcast_without_commit :
    ∃ w, Run writerStep anyStep WriterState.init [.batch (oneSampleRun .failed .done), .publish] w ∧
      w.todo = [] ∧ ¬ PublishedPersisted w ∧ w.dbRows ≠ w.conn.table.length := by
  have hexec : ∃ w, exec writerStep anyStep WriterState.init
      [.batch (oneSampleRun .failed .done), .publish] = some w := ⟨_, rfl⟩
  obtain ⟨w, hw⟩ := hexec
  refine ⟨w, run_of_exec hw, ?_⟩
  cases hw
  refine ⟨rfl, fun h => ?_, by decide⟩
  exact absurd (h _ List.mem_cons_self) List.not_mem_nil

/-- Whether all turns leave no transaction open after one more turn. -/
theorem closes_snoc_batch {actions : List WriterAction} {b : BatchRun} :
    (∀ c, .batch c ∈ actions ++ [.batch b] → c.Closes) ↔
      (∀ c, .batch c ∈ actions → c.Closes) ∧ b.Closes := by
  simp only [List.mem_append, List.mem_singleton, WriterAction.batch.injEq, or_imp, forall_and,
    forall_eq]

/-- A publish step leaves the condition on the turns alone. -/
theorem closes_snoc_publish {actions : List WriterAction} :
    (∀ c, .batch c ∈ actions ++ [.publish] → c.Closes) ↔
      ∀ c, .batch c ∈ actions → c.Closes := by
  simp only [List.mem_append, List.mem_singleton, reduceCtorEq, or_false]

/-- One turn leaves no transaction open exactly when none was open before it
and its own statements leave none open. -/
theorem writerStep_batch_tx_none {w w' : WriterState} {b : BatchRun}
    (hstep : writerStep w (.batch b) = some w') :
    w'.conn.tx = none ↔ w.conn.tx = none ∧ b.Closes := by
  rcases writerStep_batch_cases hstep with
    ⟨hconn, -, -, -, hidle⟩ | ⟨hne, htx, hgranted, hconn, -, -, -⟩
  · rw [hconn]
    refine ⟨fun htx => ⟨htx, fun hne hgranted => ?_⟩, And.left⟩
    rcases hidle with hempty | hopen | hrefused
    · exact absurd hempty hne
    · exact absurd htx hopen
    · rw [hgranted] at hrefused
      cases hrefused
  · rw [hconn, persistBatch_tx_none htx hgranted, outcome_closes]
    exact ⟨fun hcloses => ⟨htx, fun _ _ => hcloses⟩, fun h => h.2 hne hgranted⟩

/-- No transaction is open after a run exactly when no turn of it left one
open; a leaked transaction stays open. -/
theorem tx_none_iff_closes {actions : List WriterAction} {w : WriterState}
    (hrun : Run writerStep anyStep WriterState.init actions w) :
    w.conn.tx = none ↔ ∀ b, .batch b ∈ actions → b.Closes := by
  induction hrun with
  | nil => exact ⟨fun _ b hb => absurd hb List.not_mem_nil, fun _ => rfl⟩
  | @snoc actions w w' a _ _ hstep ih =>
    cases a with
    | publish =>
      obtain ⟨-, -, -, hconn, -, -⟩ := writerStep_publish_cases hstep
      rw [hconn, closes_snoc_publish]
      exact ih
    | batch b => rw [writerStep_batch_tx_none hstep, ih, closes_snoc_batch]

/-- A begin succeeds on exactly the granted locks if and only if no
transaction is open. -/
theorem begin_iff_tx_none (c : DbConn StoredRow) :
    (∀ granted, (dbWriterBegin c granted).1 = 0 ↔ granted = true) ↔ c.tx = none := by
  unfold dbWriterBegin
  cases htx : c.tx with
  | none => simp
  | some rows => simp

/-- Along every run, no transaction is open when the next turn begins and the
next begin depends on nothing but its own lock, exactly when no earlier turn
left its transaction open. -/
theorem no_leaked_transaction_iff {actions : List WriterAction} {w : WriterState}
    (hrun : Run writerStep anyStep WriterState.init actions w) :
    (w.conn.tx = none ∧ ∀ granted, (dbWriterBegin w.conn granted).1 = 0 ↔ granted = true) ↔
      ∀ b, .batch b ∈ actions → b.Closes := by
  rw [begin_iff_tx_none, and_self]
  exact tx_none_iff_closes hrun

/-- An insert fails and the batch is rolled back. -/
theorem no_leaked_transaction_iff_rollback :
    ∃ w, Run writerStep anyStep WriterState.init [.batch (oneSampleRun .failed .done), .publish] w ∧
      w.conn.tx = none ∧ ∀ granted, (dbWriterBegin w.conn granted).1 = 0 ↔ granted = true := by
  have hexec : ∃ w, exec writerStep anyStep WriterState.init
      [.batch (oneSampleRun .failed .done), .publish] = some w := ⟨_, rfl⟩
  obtain ⟨w, hw⟩ := hexec
  have hrun := run_of_exec hw
  refine ⟨w, hrun, (no_leaked_transaction_iff hrun).mpr fun b hb => ?_⟩
  have heq : b = oneSampleRun .failed .done := by simpa using hb
  rw [heq]
  intro _ _
  decide

/-- A commit that fails with its transaction open makes the next begin fail
although the lock is granted. -/
theorem begin_fails_after_busy_commit :
    ∃ w, Run writerStep anyStep WriterState.init
        [.batch (oneSampleRun .done .failedOpen), .publish] w ∧
      w.todo = [] ∧ w.conn.tx ≠ none ∧ (dbWriterBegin w.conn true).1 ≠ 0 := by
  have hexec : ∃ w, exec writerStep anyStep WriterState.init
      [.batch (oneSampleRun .done .failedOpen), .publish] = some w := ⟨_, rfl⟩
  obtain ⟨w, hw⟩ := hexec
  refine ⟨w, run_of_exec hw, ?_⟩
  cases hw
  exact ⟨rfl, Option.some_ne_none _, by decide⟩

end TelemetryPlatform.WriterThread
