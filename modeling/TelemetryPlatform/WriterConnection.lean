import Mathlib.Data.List.Basic
import Mathlib.Algebra.Order.Ring.Nat

/-!
# Transactions on the writer connection

The connection has at most one open transaction, whose rows are invisible
until they are committed. Every statement takes its outcome as an argument.
A commit that fails may leave its transaction open or lose it; an insert that
fails may take the whole transaction with it, after which later inserts are
committed one by one. A transaction cannot be started inside another.
-/

namespace TelemetryPlatform.WriterConnection

variable {ρ : Type*}

/-- The writer connection with its table. -/
structure DbConn (ρ : Type*) where
  /-- Rows of the open transaction, absent while none is open. -/
  tx : Option (List ρ)
  /-- Committed rows in the order of insertion. -/
  table : List ρ

/-- Outcome of one insert statement. -/
inductive InsertOutcome where
  /-- The row is inserted. -/
  | done
  /-- The statement fails; its transaction stays open. -/
  | failed
  /-- The statement fails and its transaction is rolled back. -/
  | rolledBack
  deriving DecidableEq

/-- Outcome of one commit statement. -/
inductive CommitOutcome where
  /-- The transaction is committed. -/
  | done
  /-- The statement fails; the transaction stays open. -/
  | failedOpen
  /-- The statement fails and the transaction is rolled back. -/
  | failedClosed
  deriving DecidableEq

/-- Begin an immediate transaction; the flag says whether the write lock is
granted. -/
def dbWriterBegin (c : DbConn ρ) (granted : Bool) : ℤ × DbConn ρ :=
  match c.tx with
  | some _ => (-1, c)
  | none => if granted = true then (0, { c with tx := some [] }) else (-1, c)

/-- Insert one row. -/
def dbWriterInsertState (c : DbConn ρ) (row : ρ) (outcome : InsertOutcome) : ℤ × DbConn ρ :=
  match outcome with
  | .done =>
    match c.tx with
    | some rows => (0, { c with tx := some (rows ++ [row]) })
    | none => (0, { c with table := c.table ++ [row] })
  | .failed => (-2, c)
  | .rolledBack => (-2, { c with tx := none })

/-- Commit the open transaction. -/
def dbWriterCommit (c : DbConn ρ) (outcome : CommitOutcome) : ℤ × DbConn ρ :=
  match c.tx with
  | none => (-1, c)
  | some rows =>
    match outcome with
    | .done => (0, ⟨none, c.table ++ rows⟩)
    | .failedOpen => (-1, c)
    | .failedClosed => (-1, { c with tx := none })

/-- Roll the open transaction back; nothing happens where the statement fails. -/
def rollback (c : DbConn ρ) (succeeds : Bool) : DbConn ρ :=
  if succeeds = true then { c with tx := none } else c

/-- Insert the rows of a batch, remembering whether all inserts succeeded. -/
def insertBatch (ok : Bool) (c : DbConn ρ) : List (ρ × InsertOutcome) → Bool × DbConn ρ
  | [] => (ok, c)
  | (row, outcome) :: rest =>
    let (rc, c') := dbWriterInsertState c row outcome
    insertBatch (if rc ≠ 0 then false else ok) c' rest

/-- One batch with the outcomes of its statements. -/
structure BatchOutcome (ρ : Type*) where
  /-- Rows with the outcomes of their inserts. -/
  rows : List (ρ × InsertOutcome)
  /-- Whether the write lock is granted at the begin. -/
  granted : Bool
  /-- Outcome of the commit, where one is made. -/
  commit : CommitOutcome
  /-- Whether the rollback succeeds, where one is made. -/
  rollbackOk : Bool

/-- Persist one batch: begin, all inserts, then commit or rollback. The flag
says whether the transaction was begun; the return code of the commit is
dropped. -/
def persistBatch (c : DbConn ρ) (b : BatchOutcome ρ) : Bool × DbConn ρ :=
  let (rc, c1) := dbWriterBegin c b.granted
  if rc ≠ 0 then (false, c1)
  else
    let (ok, c2) := insertBatch true c1 b.rows
    (true, if ok = true then (dbWriterCommit c2 b.commit).2 else rollback c2 b.rollbackOk)

/-- Every insert of the batch succeeds. -/
def AllInserted (rows : List (ρ × InsertOutcome)) : Prop := ∀ r ∈ rows, r.2 = .done

instance (rows : List (ρ × InsertOutcome)) : Decidable (AllInserted rows) :=
  inferInstanceAs (Decidable (∀ r ∈ rows, r.2 = .done))

/-- The flag after the inserts. -/
theorem insertBatch_ok (ok : Bool) (c : DbConn ρ) (rows : List (ρ × InsertOutcome)) :
    (insertBatch ok c rows).1 = (ok && decide (AllInserted rows)) := by
  induction rows generalizing ok c with
  | nil => simp [insertBatch, AllInserted]
  | cons r rest ih =>
    obtain ⟨row, outcome⟩ := r
    have hcons : decide (AllInserted ((row, outcome) :: rest)) =
        (decide (outcome = .done) && decide (AllInserted rest)) := by
      rw [Bool.eq_iff_iff, Bool.and_eq_true, decide_eq_true_iff, decide_eq_true_iff,
        decide_eq_true_iff]
      exact List.forall_mem_cons
    rw [insertBatch, hcons]
    simp only [ih]
    cases outcome with
    | done => cases htx : c.tx <;> simp [dbWriterInsertState, htx]
    | failed => simp [dbWriterInsertState]
    | rolledBack => simp [dbWriterInsertState]

/-- After all inserts the transaction is gone exactly where it was never open
or an insert took it away. -/
theorem insertBatch_tx_none (ok : Bool) (c : DbConn ρ) (rows : List (ρ × InsertOutcome)) :
    (insertBatch ok c rows).2.tx = none ↔ c.tx = none ∨ ∃ r ∈ rows, r.2 = .rolledBack := by
  induction rows generalizing ok c with
  | nil => simp [insertBatch]
  | cons r rest ih =>
    obtain ⟨row, outcome⟩ := r
    rw [insertBatch]
    simp only [ih, List.mem_cons, exists_eq_or_imp]
    cases outcome with
    | done => cases htx : c.tx <;> simp [dbWriterInsertState, htx]
    | failed => simp [dbWriterInsertState]
    | rolledBack => simp [dbWriterInsertState]

/-- Successful inserts extend the open transaction by all rows. -/
theorem insertBatch_allInserted {c : DbConn ρ} {old : List ρ} (ok : Bool) (htx : c.tx = some old)
    {rows : List (ρ × InsertOutcome)} (hall : AllInserted rows) :
    (insertBatch ok c rows).2 = { c with tx := some (old ++ rows.map Prod.fst) } := by
  induction rows generalizing ok c old with
  | nil => simp [insertBatch, ← htx]
  | cons r rest ih =>
    obtain ⟨row, outcome⟩ := r
    have hdone : outcome = .done := hall _ List.mem_cons_self
    subst hdone
    have hrest := ih (if (0 : ℤ) ≠ 0 then false else ok) (c := { c with tx := some (old ++ [row]) }) rfl
      fun r hr => hall r (List.mem_cons_of_mem _ hr)
    rw [insertBatch]
    simp only [dbWriterInsertState, htx, hrest, List.append_assoc, List.map_cons,
      List.singleton_append]

/-- The inserts only append to the table, at most one row for each success. -/
theorem insertBatch_table (ok : Bool) (c : DbConn ρ) (rows : List (ρ × InsertOutcome)) :
    c.table <+: (insertBatch ok c rows).2.table ∧
      (insertBatch ok c rows).2.table.length ≤
        c.table.length + rows.countP (fun r => decide (r.2 = .done)) := by
  induction rows generalizing ok c with
  | nil => exact ⟨List.prefix_rfl, Nat.le_add_right _ _⟩
  | cons r rest ih =>
    obtain ⟨row, outcome⟩ := r
    rw [insertBatch]
    cases outcome with
    | done =>
      cases htx : c.tx with
      | some old =>
        simp only [dbWriterInsertState, htx]
        obtain ⟨hfront, hlen⟩ := ih (if (0 : ℤ) ≠ 0 then false else ok)
          { c with tx := some (old ++ [row]) }
        refine ⟨hfront, hlen.trans ?_⟩
        simp
      | none =>
        simp only [dbWriterInsertState, htx]
        obtain ⟨hfront, hlen⟩ := ih (if (0 : ℤ) ≠ 0 then false else ok)
          { tx := none, table := c.table ++ [row] }
        refine ⟨(List.prefix_append _ _).trans hfront, hlen.trans ?_⟩
        simp
        omega
    | failed => simpa [dbWriterInsertState] using ih false c
    | rolledBack => simpa [dbWriterInsertState] using ih false { c with tx := none }

/-- Every statement of a begun batch succeeds. -/
def BatchOutcome.AllDone (b : BatchOutcome ρ) : Prop := AllInserted b.rows ∧ b.commit = .done

/-- The statements of a begun batch leave no transaction open: the commit
does not fail with its transaction open, and where an insert fails the
rollback succeeds or the insert took the transaction with it. -/
def BatchOutcome.Closes (b : BatchOutcome ρ) : Prop :=
  if AllInserted b.rows then b.commit ≠ .failedOpen
  else b.rollbackOk = true ∨ ∃ r ∈ b.rows, r.2 = .rolledBack

/-- A batch that cannot begin changes nothing. -/
theorem persistBatch_of_not_begun {c : DbConn ρ} {b : BatchOutcome ρ}
    (h : c.tx ≠ none ∨ b.granted = false) : persistBatch c b = (false, c) := by
  unfold persistBatch dbWriterBegin
  cases htx : c.tx with
  | some rows => rfl
  | none =>
    rcases h with h | h
    · exact absurd htx h
    · rw [h]
      rfl

/-- A batch that begins runs its inserts inside a fresh transaction. -/
theorem persistBatch_of_begun {c : DbConn ρ} {b : BatchOutcome ρ} (htx : c.tx = none)
    (hgranted : b.granted = true) :
    persistBatch c b = (true,
      if AllInserted b.rows then
        (dbWriterCommit (insertBatch true { c with tx := some [] } b.rows).2 b.commit).2
      else rollback (insertBatch true { c with tx := some [] } b.rows).2 b.rollbackOk) := by
  have hok := insertBatch_ok true { c with tx := some [] } b.rows
  unfold persistBatch dbWriterBegin
  rw [htx, if_pos hgranted]
  simp only [ne_eq, not_true_eq_false, if_false, hok, Bool.true_and, decide_eq_true_eq]

/-- A batch is begun exactly where its begin succeeds. -/
theorem persistBatch_begun_iff (c : DbConn ρ) (b : BatchOutcome ρ) :
    (persistBatch c b).1 = true ↔ (dbWriterBegin c b.granted).1 = 0 := by
  unfold persistBatch
  obtain ⟨rc, c1⟩ := dbWriterBegin c b.granted
  dsimp only
  by_cases hrc : rc = 0
  · rw [if_neg (not_not_intro hrc)]
    exact iff_of_true rfl hrc
  · rw [if_pos hrc]
    exact iff_of_false Bool.false_ne_true hrc

/-- A batch whose statements all succeed is committed as a whole. -/
theorem persistBatch_of_allDone {c : DbConn ρ} {b : BatchOutcome ρ} (htx : c.tx = none)
    (hgranted : b.granted = true) (hall : b.AllDone) :
    persistBatch c b = (true, ⟨none, c.table ++ b.rows.map Prod.fst⟩) := by
  have hinsert := insertBatch_allInserted (c := { c with tx := some [] }) true rfl hall.1
  rw [persistBatch_of_begun htx hgranted, if_pos hall.1, hinsert, hall.2]
  rfl

/-- A begun batch with a failure commits fewer rows than it has. -/
theorem persistBatch_of_not_allDone {c : DbConn ρ} {b : BatchOutcome ρ} (htx : c.tx = none)
    (hgranted : b.granted = true) (hrows : b.rows ≠ []) (hfail : ¬ b.AllDone) :
    c.table <+: (persistBatch c b).2.table ∧
      (persistBatch c b).2.table.length < c.table.length + b.rows.length := by
  have hpos : 0 < b.rows.length := List.length_pos_iff.mpr hrows
  rw [persistBatch_of_begun htx hgranted]
  by_cases hall : AllInserted b.rows
  · -- the commit fails, so the rows of the transaction stay invisible
    have hinsert := insertBatch_allInserted (c := { c with tx := some [] }) true rfl hall
    rw [if_pos hall, hinsert]
    cases hcommit : b.commit with
    | done => exact absurd ⟨hall, hcommit⟩ hfail
    | failedOpen => exact ⟨List.prefix_rfl, by simpa [dbWriterCommit] using hpos⟩
    | failedClosed => exact ⟨List.prefix_rfl, by simpa [dbWriterCommit] using hpos⟩
  · -- an insert fails, and at most the successful ones reach the table
    obtain ⟨hfront, hlen⟩ := insertBatch_table true { c with tx := some [] } b.rows
    have hcount : b.rows.countP (fun r => decide (r.2 = .done)) < b.rows.length := by
      refine lt_of_le_of_ne (List.countP_le_length) fun heq => hall ?_
      simpa [AllInserted] using List.countP_eq_length.mp heq
    rw [if_neg hall]
    have htable : (rollback (insertBatch true { c with tx := some [] } b.rows).2 b.rollbackOk).table =
        (insertBatch true { c with tx := some [] } b.rows).2.table := by
      unfold rollback
      split <;> rfl
    rw [htable]
    exact ⟨hfront, by dsimp only at hlen ⊢; omega⟩

/-- Whether a begun batch leaves its transaction open. -/
theorem persistBatch_tx_none {c : DbConn ρ} {b : BatchOutcome ρ} (htx : c.tx = none)
    (hgranted : b.granted = true) : (persistBatch c b).2.tx = none ↔ b.Closes := by
  rw [persistBatch_of_begun htx hgranted, BatchOutcome.Closes]
  by_cases hall : AllInserted b.rows
  · have hinsert := insertBatch_allInserted (c := { c with tx := some [] }) true rfl hall
    rw [if_pos hall, if_pos hall, hinsert]
    cases b.commit <;> simp [dbWriterCommit]
  · have hnone := insertBatch_tx_none true { c with tx := some [] } b.rows
    rw [if_neg hall, if_neg hall]
    unfold rollback
    cases b.rollbackOk <;> simp [hnone]

/-- All rows that the connection sees: the committed ones and then those of
its open transaction. -/
def DbConn.visible (c : DbConn ρ) : List ρ := c.table ++ c.tx.getD []

/-- The inserts add rows of the batch in their order, or lose rows. -/
theorem insertBatch_visible (ok : Bool) (c : DbConn ρ) (rows : List (ρ × InsertOutcome)) :
    (insertBatch ok c rows).2.visible.Sublist (c.visible ++ rows.map Prod.fst) := by
  induction rows generalizing ok c with
  | nil => simp [insertBatch]
  | cons r rest ih =>
    obtain ⟨row, outcome⟩ := r
    have hinsert : (dbWriterInsertState c row outcome).2.visible.Sublist (c.visible ++ [row]) := by
      cases outcome with
      | done => cases htx : c.tx <;> simp [dbWriterInsertState, DbConn.visible, htx]
      | failed => exact List.sublist_append_left _ _
      | rolledBack =>
        refine List.Sublist.trans ?_ (List.sublist_append_left _ _)
        exact (List.Sublist.refl _).append (List.nil_sublist _)
    have happend := hinsert.append (List.Sublist.refl (rest.map Prod.fst))
    rw [List.append_assoc, List.singleton_append] at happend
    exact (ih _ _).trans happend

/-- One batch adds rows of its own in their order, or loses rows. -/
theorem persistBatch_visible (c : DbConn ρ) (b : BatchOutcome ρ) :
    (persistBatch c b).2.visible.Sublist (c.visible ++ b.rows.map Prod.fst) := by
  by_cases hbegun : c.tx = none ∧ b.granted = true
  · obtain ⟨htx, hgranted⟩ := hbegun
    have hinsert := insertBatch_visible true { c with tx := some [] } b.rows
    have hfresh : DbConn.visible { c with tx := some [] } = c.visible := by
      simp [DbConn.visible, htx]
    rw [hfresh] at hinsert
    rw [persistBatch_of_begun htx hgranted]
    generalize (insertBatch true { c with tx := some [] } b.rows).2 = c2 at hinsert ⊢
    refine List.Sublist.trans ?_ hinsert
    split
    · unfold dbWriterCommit
      cases hopen : c2.tx <;> cases b.commit <;> simp [DbConn.visible, hopen]
    · unfold rollback
      split <;> simp [DbConn.visible]
  · have hnot : c.tx ≠ none ∨ b.granted = false := by
      rw [not_and_or, Bool.not_eq_true] at hbegun
      exact hbegun
    rw [persistBatch_of_not_begun hnot]
    exact List.sublist_append_left _ _

/-- One batch only appends to the table. -/
theorem persistBatch_table (c : DbConn ρ) (b : BatchOutcome ρ) :
    c.table <+: (persistBatch c b).2.table := by
  by_cases hbegun : c.tx = none ∧ b.granted = true
  · obtain ⟨htx, hgranted⟩ := hbegun
    have hfront := (insertBatch_table true { c with tx := some [] } b.rows).1
    rw [persistBatch_of_begun htx hgranted]
    generalize (insertBatch true { c with tx := some [] } b.rows).2 = c2 at hfront ⊢
    refine hfront.trans ?_
    split
    · unfold dbWriterCommit
      cases c2.tx <;> cases b.commit <;> simp
    · unfold rollback
      split <;> exact List.prefix_rfl
  · have hnot : c.tx ≠ none ∨ b.granted = false := by
      rw [not_and_or, Bool.not_eq_true] at hbegun
      exact hbegun
    simp only [persistBatch_of_not_begun hnot, List.prefix_rfl]

end TelemetryPlatform.WriterConnection
