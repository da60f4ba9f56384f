import Mathlib.Order.Bounds.Basic
import TelemetryPlatform.SampleQueue
import TelemetryPlatform.WriterThread

/-!
# From reception to broadcast

Received samples are pushed on the queue and the writer pops them in batches;
the two take turns in any order. What was popped followed by what the queue
holds is always what was pushed, and what the writer hands to the broadcast is
what was pushed, in that order, less whole batches whose begin failed.
-/

namespace TelemetryPlatform.SamplePipeline

open GuardedRuns LinkedChains TelemetryTypes WriterConnection WriterThread SampleQueue

/-- Queue and writer of the gateway. The pushed samples and the turns record
what happened; the code does not read them. -/
structure Pipeline where
  /-- The queue. -/
  queue : Queue TelemetryState
  /-- The running flag. -/
  running : Bool
  /-- The writer thread. -/
  writer : WriterState
  /-- The samples pushed so far. -/
  pushed : List TelemetryState
  /-- The batches popped so far, with whether their begin succeeded. -/
  turns : List (List TelemetryState × Bool)

/-- The gateway before its first sample. -/
def Pipeline.init : Pipeline := ⟨Queue.init, true, WriterState.init, [], []⟩

/-- The outcomes of the calls in one turn of the writer, for the samples by
their place in the batch. -/
structure TurnOutcome where
  /-- Outcome of the insert of a sample, and whether its text is allocated. -/
  sample : ℕ → InsertOutcome × Bool
  /-- Whether the write lock is granted at the begin. -/
  granted : Bool
  /-- Outcome of the commit, where one is made. -/
  commit : CommitOutcome
  /-- Whether the rollback succeeds, where one is made. -/
  rollbackOk : Bool
  /-- Monotonic clock before the transaction. -/
  t0 : ℤ
  /-- Monotonic clock after the transaction. -/
  t1 : ℤ

/-- The turn of the writer on the popped samples. -/
def TurnOutcome.batch (o : TurnOutcome) (popped : List TelemetryState) : BatchRun where
  samples := popped.zipIdx.map fun (s, i) => ⟨s, (o.sample i).1, (o.sample i).2⟩
  granted := o.granted
  commit := o.commit
  rollbackOk := o.rollbackOk
  t0 := o.t0
  t1 := o.t1

/-- Steps of reception and writer. -/
inductive PipelineAction where
  /-- Push a received sample in a newly allocated node, absent where the
  allocation fails. -/
  | push (s : TelemetryState) (node : Option Addr)
  /-- The gateway is stopped. -/
  | stop
  /-- Pop a batch up to a size and take a turn with it. -/
  | turn (max : ℕ) (o : TurnOutcome)
  /-- Hand the next sample of the batch to the broadcast. -/
  | publish

/-- One step. Popping waits while the queue is empty and the gateway runs. -/
def pipelineStep (p : Pipeline) : PipelineAction → Option Pipeline
  | .push _ none => some p
  | .push s (some n) =>
    if n ≠ 0 ∧ p.queue.nodes n = none then
      (queuePush p.queue n s).map fun q => { p with queue := q, pushed := p.pushed ++ [s] }
    else none
  | .stop => some { p with running := false }
  | .turn max o =>
    if 1 ≤ max ∧ (p.running = false ∨ p.queue.qHead ≠ 0) then
      (queuePopBatch max p.queue).bind fun (popped, q) =>
        (writerStep p.writer (.batch (o.batch popped))).map fun w =>
          { p with
            queue := q
            writer := w
            turns := p.turns ++ [(popped, decide ((dbWriterBegin p.writer.conn o.granted).1 = 0))] }
    else none
  | .publish => (writerStep p.writer .publish).map fun w => { p with writer := w }

/-- No allocation fails in the step. -/
def AllAllocated (_ : Pipeline) : PipelineAction → Prop
  | .push _ node => node ≠ none
  | .stop => True
  | .turn _ o => ∀ i, (o.sample i).2 = true
  | .publish => True

/-- The states of the samples that were handed to the broadcast or are next. -/
def WriterState.outgoing (w : WriterState) : List TelemetryState :=
  (w.published.map fun r => r.1.state) ++ w.todo.map fun r => r.1.state

/-- The samples of the batches whose begin succeeded. -/
def begunSamples (turns : List (List TelemetryState × Bool)) : List TelemetryState :=
  ((turns.filter Prod.snd).map Prod.fst).flatten

/-- What holds between queue, writer and the samples pushed. -/
structure InOrder (p : Pipeline) (cells : List (Addr × TelemetryState)) : Prop where
  /-- The queue holds the cells. -/
  holds : p.queue.Holds cells
  /-- Popped and queued samples are the pushed ones. -/
  pushed : (p.turns.map Prod.fst).flatten ++ cells.map Prod.snd = p.pushed
  /-- The writer has the samples of the begun batches. -/
  outgoing : WriterState.outgoing p.writer = begunSamples p.turns
  /-- The texts of the current batch are allocated. -/
  rendered : ∀ e ∈ p.writer.todo, e.2 = true

/-- A turn keeps the popped samples and their order. -/
theorem batch_states (o : TurnOutcome) (popped : List TelemetryState) (first : ℕ) :
    ((o.batch popped).numbered first).map (fun r => r.1.state) = popped := by
  have hstates : (o.batch popped).samples.map SampleRun.state = popped := by
    rw [TurnOutcome.batch, List.map_map]
    exact List.zipIdx_map_fst 0 popped
  conv_rhs => rw [← hstates, ← numbered_map_snd (o.batch popped) first, List.map_map]
  refine List.map_congr_left fun r hr => ?_
  obtain ⟨e, -, rfl⟩ := List.mem_map.mp hr
  rfl

/-- The begun samples after one more turn. -/
theorem begunSamples_snoc (turns : List (List TelemetryState × Bool)) (popped : List TelemetryState)
    (begun : Bool) :
    begunSamples (turns ++ [(popped, begun)]) =
      begunSamples turns ++ if begun = true then popped else [] := by
  cases begun <;> simp [begunSamples, List.filter_append]

/-- Pushing keeps the order. -/
theorem InOrder.push {p : Pipeline} {cells : List (Addr × TelemetryState)} (h : InOrder p cells)
    {s : TelemetryState} {n : Addr} {q : Queue TelemetryState} (hnull : n ≠ 0)
    (hfresh : p.queue.nodes n = none) (hq : queuePush p.queue n s = some q) :
    InOrder { p with queue := q, pushed := p.pushed ++ [s] } (cells ++ [(n, s)]) := by
  obtain ⟨q', hpush, hholds, -⟩ := h.holds.push hnull hfresh s
  cases hq.symm.trans hpush
  refine ⟨hholds, ?_, h.outgoing, h.rendered⟩
  rw [List.map_append, ← List.append_assoc, h.pushed]
  rfl

/-- A turn keeps the order: its batch leaves the queue at the front and goes
to the broadcast as a whole or not at all. -/
theorem InOrder.turn {p : Pipeline} {cells : List (Addr × TelemetryState)} (h : InOrder p cells)
    {max : ℕ} {o : TurnOutcome} {popped : List TelemetryState} {q : Queue TelemetryState}
    {w : WriterState} (hrendered : ∀ i, (o.sample i).2 = true)
    (hq : queuePopBatch max p.queue = some (popped, q))
    (hw : writerStep p.writer (.batch (o.batch popped)) = some w) :
    InOrder
      { p with
        queue := q
        writer := w
        turns := p.turns ++ [(popped, decide ((dbWriterBegin p.writer.conn o.granted).1 = 0))] }
      (cells.drop max) := by
  obtain ⟨q', hpop, hholds, -⟩ := h.holds.pop max
  cases hq.symm.trans hpop
  obtain ⟨hempty, hpublished, htodo⟩ := writerStep_batch_todo hw
  have hgranted : (o.batch ((cells.take max).map Prod.snd)).granted = o.granted := rfl
  rw [hgranted] at htodo
  have hold := h.outgoing
  rw [WriterState.outgoing, hempty, List.map_nil, List.append_nil] at hold
  refine ⟨hholds, ?_, ?_, ?_⟩
  · rw [← h.pushed]
    conv_rhs => rw [← List.take_append_drop max cells]
    simp
  · rw [WriterState.outgoing, hpublished, hold, begunSamples_snoc, htodo]
    simp only [decide_eq_true_eq, List.append_cancel_left_eq]
    split_ifs with hrc
    · rw [List.map_map]
      exact batch_states o _ p.writer.popped
    · rfl
  · intro e he
    rw [htodo] at he
    split at he
    · obtain ⟨⟨row, r⟩, hr, rfl⟩ := List.mem_map.mp he
      have hsample : r ∈ (o.batch ((cells.take max).map Prod.snd)).samples := by
        rw [← numbered_map_snd _ p.writer.popped]
        exact List.mem_map_of_mem hr
      obtain ⟨⟨s, i⟩, -, rfl⟩ := List.mem_map.mp hsample
      exact hrendered i
    · exact absurd he List.not_mem_nil

/-- Publishing keeps the order. -/
theorem InOrder.publish {p : Pipeline} {cells : List (Addr × TelemetryState)} (h : InOrder p cells)
    {w : WriterState} (hw : writerStep p.writer .publish = some w) :
    InOrder { p with writer := w } cells := by
  have hold := h.outgoing
  have hrendered := h.rendered
  cases htodo : p.writer.todo with
  | nil =>
    rw [writerStep, htodo] at hw
    cases hw
  | cons e rest =>
    obtain ⟨row, mallocOk⟩ := e
    have hok : mallocOk = true := hrendered _ (htodo ▸ List.mem_cons_self)
    subst hok
    rw [writerStep_publish_allocated htodo] at hw
    cases hw
    refine ⟨h.holds, h.pushed, ?_, fun e he => hrendered e (htodo ▸ List.mem_cons_of_mem _ he)⟩
    rw [← hold, WriterState.outgoing, WriterState.outgoing, htodo]
    simp

/-- One step keeps the order, and the length maximum follows the queue. -/
theorem InOrder.step {p p' : Pipeline} {cells : List (Addr × TelemetryState)} (h : InOrder p cells)
    (hmax : cells.length ≤ p.queue.qLenMax.toNat) {a : PipelineAction} (hok : AllAllocated p a)
    (hstep : pipelineStep p a = some p') :
    ∃ cells', InOrder p' cells' ∧
      p'.queue.qLenMax.toNat = max p.queue.qLenMax.toNat cells'.length := by
  have hsame : p.queue.qLenMax.toNat = max p.queue.qLenMax.toNat cells.length :=
    (Nat.max_eq_left hmax).symm
  cases a with
  | push s node =>
    cases node with
    | none => exact absurd rfl hok
    | some n =>
      rw [pipelineStep] at hstep
      split_ifs at hstep with hnode
      obtain ⟨hnull, hfresh⟩ := hnode
      obtain ⟨q, hq, rfl⟩ := Option.map_eq_some_iff.mp hstep
      have hnew := h.push hnull hfresh hq
      obtain ⟨q', hpush, -, hqmax⟩ := h.holds.push hnull hfresh s
      cases hq.symm.trans hpush
      refine ⟨_, hnew, ?_⟩
      dsimp only
      rw [← hnew.holds.len_toNat, hqmax]
      dsimp only
      split_ifs with hlt
      · rw [BitVec.lt_def] at hlt
        omega
      · rw [BitVec.lt_def] at hlt
        omega
  | stop =>
    cases hstep
    exact ⟨cells, ⟨h.holds, h.pushed, h.outgoing, h.rendered⟩, hsame⟩
  | turn max o =>
    rw [pipelineStep] at hstep
    split_ifs at hstep with hready
    obtain ⟨⟨popped, q⟩, hq, hmap⟩ := Option.bind_eq_some_iff.mp hstep
    obtain ⟨w, hw, rfl⟩ := Option.map_eq_some_iff.mp hmap
    obtain ⟨q', hpop, -, hqmax⟩ := h.holds.pop max
    cases hq.symm.trans hpop
    refine ⟨_, h.turn hok hq hw, ?_⟩
    dsimp only
    rw [hqmax, List.length_drop]
    omega
  | publish =>
    obtain ⟨w, hw, rfl⟩ := Option.map_eq_some_iff.mp hstep
    exact ⟨cells, h.publish hw, hsame⟩

/-- The lengths of the queue in the states that a run has reached. -/
def lengthsReached (actions : List PipelineAction) : Set ℕ :=
  {n | ∃ earlier later p cells, actions = earlier ++ later ∧
    Run pipelineStep AllAllocated Pipeline.init earlier p ∧ Queue.Holds p.queue cells ∧
      n = cells.length}

/-- One more step adds the length in its state. -/
theorem lengthsReached_snoc {actions : List PipelineAction} {a : PipelineAction} {p : Pipeline}
    (hrun : Run pipelineStep AllAllocated Pipeline.init (actions ++ [a]) p)
    {cells : List (Addr × TelemetryState)} (hcells : p.queue.Holds cells) :
    lengthsReached (actions ++ [a]) = insert cells.length (lengthsReached actions) := by
  ext n
  constructor
  · rintro ⟨earlier, later, q, held, heq, hearlier, hheld, rfl⟩
    rcases List.eq_nil_or_concat later with rfl | ⟨front, last, rfl⟩
    · rw [List.append_nil] at heq
      cases heq
      cases hearlier.unique hrun
      refine .inl ?_
      rw [← hheld.len_toNat, ← hcells.len_toNat]
    · rw [List.concat_eq_append, ← List.append_assoc] at heq
      obtain ⟨hfront, -⟩ := List.append_inj' heq rfl
      exact .inr ⟨earlier, front, q, held, hfront, hearlier, hheld, rfl⟩
  · rintro (rfl | ⟨earlier, later, q, held, rfl, hearlier, hheld, rfl⟩)
    · exact ⟨actions ++ [a], [], p, cells, (List.append_nil _).symm, hrun, hcells, rfl⟩
    · exact ⟨earlier, later ++ [a], q, held, List.append_assoc _ _ _, hearlier, hheld, rfl⟩

/-- The queue starts empty. -/
theorem inOrder_init : InOrder Pipeline.init [] :=
  ⟨⟨rfl, List.nodup_nil, List.not_mem_nil, rfl, rfl⟩, rfl, rfl, fun _ he => absurd he List.not_mem_nil⟩

/-- Along every run the order is kept and the length maximum is exact. -/
theorem inOrder_of_run {actions : List PipelineAction} {p : Pipeline}
    (hrun : Run pipelineStep AllAllocated Pipeline.init actions p) :
    ∃ cells, InOrder p cells ∧ IsGreatest (lengthsReached actions) p.queue.qLenMax.toNat := by
  induction hrun with
  | nil =>
    have hnil : Run pipelineStep AllAllocated Pipeline.init [] Pipeline.init := .nil
    refine ⟨[], inOrder_init, ⟨[], [], _, [], rfl, hnil, inOrder_init.holds, rfl⟩, ?_⟩
    rintro n ⟨earlier, later, q, held, heq, hearlier, hheld, rfl⟩
    obtain ⟨rfl, rfl⟩ := List.append_eq_nil_iff.mp heq.symm
    cases hearlier.unique hnil
    rw [← hheld.len_toNat]
    exact le_rfl
  | @snoc actions p p' a hearlier hok hstep ih =>
    obtain ⟨cells, hcells, hgreatest⟩ := ih
    have hle : cells.length ≤ p.queue.qLenMax.toNat :=
      hgreatest.2 ⟨actions, [], p, cells, (List.append_nil _).symm, hearlier, hcells.holds, rfl⟩
    obtain ⟨cells', hcells', hmax⟩ := hcells.step hle hok hstep
    refine ⟨cells', hcells', ?_⟩
    rw [lengthsReached_snoc (.snoc hearlier hok hstep) hcells'.holds, hmax, max_comm]
    exact hgreatest.insert cells'.length

/-- Along every run without failed allocations: the popped batches followed by
the content of the queue are the pushed samples; length, tail, head and length
maximum describe that content; no access leaves allocated memory; and the
writer hands on the pushed samples, less the batches whose begin failed: it has
published a front of them, and all of them once nothing is left to publish. -/
theorem arrival_order_kept {actions : List PipelineAction} {p : Pipeline}
    (hrun : Run pipelineStep AllAllocated Pipeline.init actions p) :
    (∃ cells : List (Addr × TelemetryState),
        Segment p.queue.nodes p.queue.qHead cells 0 ∧
          (p.turns.map Prod.fst).flatten ++ cells.map Prod.snd = p.pushed ∧
          p.queue.qLen.toNat = cells.length ∧ p.queue.qTail = lastAddr cells) ∧
      (p.queue.qHead = 0 ↔ p.queue.qTail = 0) ∧
      IsGreatest (lengthsReached actions) p.queue.qLenMax.toNat ∧
      (∀ s n, n ≠ 0 → p.queue.nodes n = none → queuePush p.queue n s ≠ none) ∧
      (∀ max, queuePopBatch max p.queue ≠ none) ∧
      WriterState.outgoing p.writer = begunSamples p.turns ∧
      (p.writer.published.map fun r => r.1.state) <+: begunSamples p.turns ∧
      (p.writer.todo = [] → (p.writer.published.map fun r => r.1.state) = begunSamples p.turns) := by
  obtain ⟨cells, h, hgreatest⟩ := inOrder_of_run hrun
  refine ⟨⟨cells, h.holds.segment, h.pushed, h.holds.len_toNat, h.holds.tail⟩, ?_, hgreatest, ?_, ?_,
    h.outgoing, ?_, fun htodo => ?_⟩
  · rw [h.holds.head_eq_zero_iff, h.holds.tail_eq_zero_iff]
  · intro s n hnull hfresh
    obtain ⟨q, hpush, -⟩ := h.holds.push hnull hfresh s
    rw [hpush]
    exact Option.some_ne_none q
  · intro max
    obtain ⟨q, hpop, -⟩ := h.holds.pop max
    rw [hpop]
    exact Option.some_ne_none _
  · rw [← h.outgoing]
    exact List.prefix_append _ _
  · rw [← h.outgoing, WriterState.outgoing, htodo]
    exact (List.append_nil _).symm

/-- Two samples arrive, and a batch of size one is popped and published. -/
def twoPushes : List PipelineAction :=
  [.push blankState (some 16), .push blankState (some 32),
    .turn 1 ⟨fun _ => (.done, true), true, .done, true, 0, 0⟩, .publish]

/-- Two samples are queued, one of them leaves in a batch. -/
theorem arrival_order_kept_twoPushes :
    ∃ p, Run pipelineStep AllAllocated Pipeline.init twoPushes p ∧ p.pushed.length = 2 ∧
      p.queue.qLen = 1 ∧ p.queue.qLenMax = 2 ∧
      IsGreatest (lengthsReached twoPushes) p.queue.qLenMax.toNat ∧
      (p.writer.published.map fun r => r.1.state) = begunSamples p.turns := by
  have hrun : ∃ p, Run pipelineStep AllAllocated Pipeline.init twoPushes p ∧ p.pushed.length = 2 ∧
      p.queue.qLen = 1 ∧ p.queue.qLenMax = 2 ∧ p.writer.todo = [] := by
    refine ⟨_, .snoc (.snoc (.snoc (.snoc .nil ?_ rfl) ?_ rfl) ?_ rfl) ?_ rfl, rfl, rfl, rfl, rfl⟩
    · exact Option.some_ne_none _
    · exact Option.some_ne_none _
    · exact fun _ => rfl
    · trivial
  obtain ⟨p, hp, hpushed, hlen, hmax, htodo⟩ := hrun
  obtain ⟨-, -, hgreatest, -, -, -, -, hall⟩ := arrival_order_kept hp
  exact ⟨p, hp, hpushed, hlen, hmax, hgreatest, hall htodo⟩

end TelemetryPlatform.SamplePipeline
