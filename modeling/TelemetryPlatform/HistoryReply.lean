import TelemetryPlatform.KeyedWindow
import TelemetryPlatform.WriterThread

/-!
# The history reply

The reader selects rows by descending reception time with a row limit, renders
each row into a buffer of its own and then prints the buffers in reverse,
joined by commas. A row that cannot be rendered ends the loop, and a buffer
that cannot be appended is left out without an error.
-/

namespace TelemetryPlatform.HistoryReply

open CStrings FormattedText StringBuilder TelemetryTypes SampleJson GuardedRuns KeyedWindow
open WriterConnection WriterThread

/-- The row limit after clamping. -/
def clampLimit (limit : ℤ) : ℕ :=
  let limit := if limit ≤ 0 then 300 else limit
  let limit := if 5000 < limit then 5000 else limit
  limit.toNat

/-- The row loop: each row that the statement returns is rendered into a
buffer of its own, up to the limit. -/
def renderRows : ℕ → List (List SqlValue) → Heap → List StrBuf × Heap
  | _, [], heap => ([], heap)
  | 0, _ :: _, heap => ([], heap)
  | room + 1, st :: rest, heap =>
    let (rc, one, heap1) := appendRowAsSampleJson StrBuf.empty st heap
    if rc ≠ 0 then ([], heap1)
    else
      let (rows, heap2) := renderRows room rest heap1
      (one :: rows, heap2)

/-- The output loop over the rendered rows in the order of output. The return
codes of the appends are ignored. -/
def emitRows (sb : StrBuf) : List StrBuf → Heap → StrBuf × Heap
  | [], heap => (sb, heap)
  | one :: rest, heap =>
    if one.memory = [] then emitRows sb rest heap
    else
      let (_, sb1, heap1) := sbAppend sb (CString.ofMemory one.memory) heap
      if rest = [] then emitRows sb1 rest heap1
      else
        let (_, sb2, heap2) := sbAppend sb1 ⟨lit ",", by decide⟩ heap1
        emitRows sb2 rest heap2

/-- The outcomes that the history call meets. -/
structure HistoryCall where
  /-- The reader, its connection and both output pointers are there. -/
  ready : Bool
  /-- The statement is prepared. -/
  prepared : Bool
  /-- Outcomes of the allocations. -/
  heap : Heap

/-- The call in which nothing fails. -/
def HistoryCall.flawless : HistoryCall := ⟨true, true, []⟩

/-- The history call, for the rows that the statement returns under the bound
limit. -/
def dbReaderHistoryLastJson (call : HistoryCall) (limit : ℤ)
    (query : ℕ → List (List SqlValue)) : Except ℤ StrBuf :=
  if call.ready = false then .error (-1)
  else
    let limit := clampLimit limit
    if call.prepared = false then .error (-2)
    else
      let (rc, sb, heap) := sbAppend StrBuf.empty
        ⟨lit "\x7b\"type\":\"history\",\"items\":[", by decide⟩ call.heap
      if rc ≠ 0 then .error (-3)
      else
        let (granted, heap) := allocate heap
        if granted = false then .error (-4)
        else
          let (rows, heap) := renderRows limit (query limit) heap
          let (sb, heap) := emitRows sb rows.reverse heap
          let (rc, sb, _) := sbAppend sb ⟨lit "]\x7d", by decide⟩ heap
          if rc ≠ 0 then .error (-5) else .ok sb

/-- The key by which the select orders a stored sample. -/
def receivedAt (r : StoredRow) : ℤ := (columnInt64 (insertedRow r.state .receivedAtNs)).toInt

/-- A result row of the select. -/
def resultRow (r : StoredRow) : List SqlValue := selectRow (insertedRow r.state)

/-- The rows that the select returns where it arranges the table like this. -/
def historyQuery (sorted : List StoredRow) (limit : ℕ) : List (List SqlValue) :=
  (sorted.take limit).map resultRow

/-- The samples of the reply in the order of output. -/
def historyItems (limit : ℤ) (sorted : List StoredRow) : List StoredRow :=
  (sorted.take (clampLimit limit)).reverse

/-- Texts joined by commas. -/
def commaJoin : List Bytes → Bytes
  | [] => []
  | [text] => text
  | text :: rest => text ++ lit "," ++ commaJoin rest

/-- The text of one item. -/
def itemText (st : List SqlValue) : Bytes := (format (samplePieces st)).bytes

/-- The text of a whole reply. -/
def historyText (items : List (List SqlValue)) : Bytes :=
  lit "\x7b\"type\":\"history\",\"items\":[" ++ commaJoin (items.map itemText) ++ lit "]\x7d"

/-- An item has a text. -/
theorem itemText_ne_nil (st : List SqlValue) : itemText st ≠ [] := by
  simp [itemText, samplePieces, sampleHead, format, txt, Piece.bytes, lit]

/-- A buffer that holds a nonempty text is allocated and read as this text. -/
theorem Holds.read {sb : StrBuf} {s : CString} (hold : sb.Holds s.bytes) (hne : s.bytes ≠ []) :
    sb.memory ≠ [] ∧ CString.ofMemory sb.memory = s := by
  obtain ⟨-, ⟨-, hempty⟩ | ⟨rest, hmemory⟩⟩ := hold
  · exact absurd hempty hne
  · rw [hmemory, CString.ofMemory_terminated]
    exact ⟨by simp, rfl⟩

/-- Where no allocation fails, the row loop renders all rows up to the limit. -/
theorem renderRows_nil (room : ℕ) (rows : List (List SqlValue)) :
    ∃ ones, renderRows room rows [] = (ones, []) ∧
      List.Forall₂ (fun one st => one.Holds (itemText st)) ones (rows.take room) := by
  induction room generalizing rows with
  | zero => cases rows <;> exact ⟨[], rfl, by simp⟩
  | succ room ih =>
    cases rows with
    | nil => exact ⟨[], rfl, by simp⟩
    | cons st rest =>
      obtain ⟨one, hcall, hone⟩ := appendRowAsSampleJson_nil StrBuf.holds_empty st
      obtain ⟨ones, hrest, hones⟩ := ih rest
      refine ⟨one :: ones, ?_, .cons hone hones⟩
      simp only [renderRows, hcall, hrest, ne_eq, not_true_eq_false, if_false]

/-- Where no allocation fails, the output loop appends all rows with commas
between them. -/
theorem emitRows_nil {ones : List StrBuf} {items : List (List SqlValue)}
    (hones : List.Forall₂ (fun one st => one.Holds (itemText st)) ones items)
    {sb : StrBuf} {old : Bytes} (hold : sb.Holds old) :
    ∃ sb', emitRows sb ones [] = (sb', []) ∧
      sb'.Holds (old ++ commaJoin (items.map itemText)) := by
  induction hones generalizing sb old with
  | nil => exact ⟨sb, rfl, by simpa [commaJoin] using hold⟩
  | @cons one st ones items hone hrest ih =>
    obtain ⟨halloc, hread⟩ := Holds.read hone (itemText_ne_nil st)
    obtain ⟨sb1, hcall1, hold1⟩ := (sbAppend_appends hold (format (samplePieces st)) []).of_nil
    cases hrest with
    | nil =>
      refine ⟨sb1, ?_, hold1⟩
      simp only [emitRows, if_neg halloc, hread, hcall1, if_true]
    | cons hnext hlater =>
      obtain ⟨sb2, hcall2, hold2⟩ := (sbAppend_appends hold1 ⟨lit ",", by decide⟩ []).of_nil
      obtain ⟨sb3, hcall3, hold3⟩ := ih hold2
      refine ⟨sb3, ?_, ?_⟩
      · rw [emitRows, if_neg halloc, hread, hcall1]
        simp only [reduceCtorEq, if_false, hcall2, hcall3]
      · simpa only [List.map_cons, commaJoin, itemText, List.append_assoc] using hold3

/-- Where nothing fails, the reply is the text of the returned rows in reverse. -/
theorem dbReaderHistoryLastJson_flawless (limit : ℤ) (query : ℕ → List (List SqlValue)) :
    ∃ sb, dbReaderHistoryLastJson .flawless limit query = .ok sb ∧
      sb.Holds (historyText ((query (clampLimit limit)).take (clampLimit limit)).reverse) := by
  obtain ⟨sb1, hcall1, hold1⟩ := (sbAppend_appends StrBuf.holds_empty
    ⟨lit "\x7b\"type\":\"history\",\"items\":[", by decide⟩ []).of_nil
  obtain ⟨ones, hrender, hones⟩ := renderRows_nil (clampLimit limit) (query (clampLimit limit))
  obtain ⟨sb2, hemit, hold2⟩ := emitRows_nil (List.rel_reverse hones) hold1
  obtain ⟨sb3, hcall3, hold3⟩ := (sbAppend_appends hold2 ⟨lit "]\x7d", by decide⟩ []).of_nil
  refine ⟨sb3, ?_, hold3⟩
  simp only [dbReaderHistoryLastJson, HistoryCall.flawless, Bool.true_eq_false, if_false, hcall1,
    ne_eq, not_true_eq_false, allocate, hrender, hemit, hcall3]

/-- A reply is the text of the items of its arrangement. -/
theorem reply_items (limit : ℤ) (sorted : List StoredRow) :
    ∃ sb, dbReaderHistoryLastJson .flawless limit (historyQuery sorted) = .ok sb ∧
      sb.Holds (historyText ((historyItems limit sorted).map resultRow)) := by
  obtain ⟨sb, hcall, hold⟩ := dbReaderHistoryLastJson_flawless limit (historyQuery sorted)
  refine ⟨sb, hcall, ?_⟩
  have hitems : ((historyQuery sorted (clampLimit limit)).take (clampLimit limit)).reverse =
      (historyItems limit sorted).map resultRow := by
    rw [historyQuery, historyItems, ← List.map_take, List.take_take, Nat.min_self,
      List.map_reverse]
  rw [← hitems]
  exact hold

/-- What holds of the items of any arrangement: as many as asked for or all,
each once and from the table, oldest reception first, and no sample that is
left out was received after one that is not. -/
structure LatestReceived (table : List StoredRow) (limit : ℤ) (items : List StoredRow) : Prop where
  /-- The number of items. -/
  length_eq : items.length = min (clampLimit limit) table.length
  /-- No item is repeated. -/
  nodup : items.Nodup
  /-- All items are stored samples. -/
  stored : ∀ r ∈ items, r ∈ table
  /-- Items are ordered by reception time. -/
  ascending : items.Pairwise fun a b => receivedAt a ≤ receivedAt b
  /-- Samples left out were not received later. -/
  latest : ∀ a ∈ table, a ∉ items → ∀ b ∈ items, receivedAt a ≤ receivedAt b

/-- The items of every arrangement are the latest received samples. -/
theorem latestReceived_historyItems {table sorted : List StoredRow} (hnodup : table.Nodup)
    (limit : ℤ) (hsorted : Arrangement receivedAt table sorted) :
    LatestReceived table limit (historyItems limit sorted) := by
  have hsplit := List.take_append_drop (clampLimit limit) sorted
  constructor
  · rw [historyItems, List.length_reverse, List.length_take, hsorted.perm.length_eq]
  · rw [historyItems, List.nodup_reverse]
    exact (hsorted.perm.nodup_iff.mpr hnodup).sublist (List.take_sublist _ _)
  · intro r hr
    exact hsorted.perm.subset (List.mem_of_mem_take (List.mem_reverse.mp hr))
  · rw [historyItems, List.pairwise_reverse]
    exact hsorted.descending.sublist (List.take_sublist _ _)
  · intro a ha hout b hb
    have hdesc := hsorted.descending
    rw [← hsplit, List.pairwise_append] at hdesc
    have hmem : a ∈ sorted := hsorted.perm.mem_iff.mpr ha
    rw [← hsplit, List.mem_append] at hmem
    have hrest : a ∈ sorted.drop (clampLimit limit) :=
      hmem.resolve_left fun h => hout (List.mem_reverse.mpr h)
    exact hdesc.2.2 b (List.mem_reverse.mp hb) a hrest

/-- For the table of any run of the writer and any limit, every reply lists
the latest received samples in the order of reception, and for every order that
the select may choose these are the last inserted samples in the order of
insertion, exactly when each of the last inserted samples was received after
all samples inserted before it. -/
theorem history_eq_last_inserted_iff {actions : List WriterAction} {w : WriterState}
    (hrun : Run writerStep anyStep WriterState.init actions w) (limit : ℤ) :
    (∀ sorted, Arrangement receivedAt w.conn.table sorted →
        LatestReceived w.conn.table limit (historyItems limit sorted) ∧
        ∃ sb, dbReaderHistoryLastJson .flawless limit (historyQuery sorted) = .ok sb ∧
          sb.Holds (historyText ((historyItems limit sorted).map resultRow))) ∧
      ((∀ sorted, Arrangement receivedAt w.conn.table sorted →
          historyItems limit sorted = lastEntries (clampLimit limit) w.conn.table) ↔
        LastDominate receivedAt (clampLimit limit) w.conn.table) := by
  have hnodup := table_nodup hrun
  constructor
  · intro sorted hsorted
    exact ⟨latestReceived_historyItems hnodup limit hsorted, reply_items limit sorted⟩
  · exact window_eq_lastEntries_iff hnodup

/-- A sample received at some time. -/
def stateAt (nowRealtimeNs : BitVec 64) : TelemetryState :=
  onMessageState ⟨none, none, none, none, none, none, 0, none, none⟩ nowRealtimeNs [] false

/-- A turn that persists samples received at given times. -/
def batchAt (times : List (BitVec 64)) : BatchRun where
  samples := times.map fun t => ⟨stateAt t, .done, true⟩
  granted := true
  commit := .done
  rollbackOk := true
  t0 := 0
  t1 := 0

/-- Two samples with different reception times. -/
theorem history_eq_last_inserted_iff_twoSamples :
    ∃ w, Run writerStep anyStep WriterState.init [.batch (batchAt [3, 5])] w ∧
      ∀ sorted, Arrangement receivedAt w.conn.table sorted →
        historyItems 1 sorted = lastEntries 1 w.conn.table := by
  have hexec : ∃ w, exec writerStep anyStep WriterState.init [.batch (batchAt [3, 5])] = some w :=
    ⟨_, rfl⟩
  obtain ⟨w, hw⟩ := hexec
  have hrun := run_of_exec hw
  refine ⟨w, hrun, (history_eq_last_inserted_iff hrun 1).2.mpr ?_⟩
  cases hw
  refine ⟨fun a ha b hb => ?_, .cons (fun b hb => absurd hb List.not_mem_nil) .nil⟩
  cases List.mem_singleton.mp ha
  cases List.mem_singleton.mp hb
  decide

/-- After the clock steps back, the last inserted sample is not the last one
of the reply. -/
theorem history_misses_last_inserted :
    ∃ w, Run writerStep anyStep WriterState.init [.batch (batchAt [5, 3])] w ∧
      ∃ sorted, Arrangement receivedAt w.conn.table sorted ∧
        historyItems 1 sorted ≠ lastEntries 1 w.conn.table := by
  have hexec : ∃ w, exec writerStep anyStep WriterState.init [.batch (batchAt [5, 3])] = some w :=
    ⟨_, rfl⟩
  obtain ⟨w, hw⟩ := hexec
  refine ⟨w, run_of_exec hw, w.conn.table, ?_, ?_⟩
  · cases hw
    refine ⟨.refl _, .cons (fun b hb => ?_) (.cons (fun b hb => absurd hb List.not_mem_nil) .nil)⟩
    cases List.mem_singleton.mp hb
    decide
  · cases hw
    intro h
    have harrival := congrArg (List.map StoredRow.arrival) h
    exact absurd harrival (by decide)

end TelemetryPlatform.HistoryReply
