import Mathlib.Algebra.BigOperators.Group.List.Basic
import Mathlib.Tactic.Linarith
import TelemetryPlatform.GatewayAccounts

/-!
# What the statistics report

The statistics thread reads the counters in one section and the length of the
queue in another, while the other threads go on, and reports the differences
to its last reading. The counters only grow, and they grow together: a batch
counts at least one row and at most a full buffer, and its time is at most
the longest one. So no difference is negative, the reported averages are in
their ranges, and the differences add up to the counters.
-/

namespace TelemetryPlatform.GatewayReports

open GuardedRuns SampleQueue TelemetryTypes WriterConnection WriterThread GatewayThreads
open GatewayPhases GatewayMemory GatewayAccounts

/-- The second counters are a later reading than the first ones, where a batch
has at most so many rows. -/
structure Later (maxn : ℕ) (c c' : Counters) : Prop where
  /-- Messages only grow. -/
  rxMsgs : c.rxMsgs ≤ c'.rxMsgs
  /-- Bytes only grow. -/
  rxBytes : c.rxBytes ≤ c'.rxBytes
  /-- Transactions only grow. -/
  commits : c.commitCount ≤ c'.commitCount
  /-- Every transaction has a row. -/
  rowsLow : c.dbRows + c'.commitCount ≤ c'.dbRows + c.commitCount
  /-- No transaction has more rows than a batch. -/
  rowsHigh : c'.dbRows + maxn * c.commitCount ≤ c.dbRows + maxn * c'.commitCount
  /-- The longest time only grows, from zero on. -/
  nsMax : 0 ≤ c.commitNsMax ∧ c.commitNsMax ≤ c'.commitNsMax
  /-- The total time only grows. -/
  nsLow : c.commitNsSum ≤ c'.commitNsSum
  /-- No transaction took longer than the longest. -/
  nsHigh : c'.commitNsSum - c.commitNsSum ≤
    ((c'.commitCount : ℤ) - c.commitCount) * c'.commitNsMax

variable {maxn : ℕ} {c c' c'' : Counters}

/-- A reading is as late as itself. -/
theorem later_refl (hmax : 0 ≤ c.commitNsMax) : Later maxn c c where
  rxMsgs := Nat.le_refl _
  rxBytes := Nat.le_refl _
  commits := Nat.le_refl _
  rowsLow := Nat.le_refl _
  rowsHigh := Nat.le_refl _
  nsMax := ⟨hmax, le_refl _⟩
  nsLow := le_refl _
  nsHigh := by rw [sub_self, sub_self, zero_mul]

/-- Later readings follow each other. -/
theorem Later.trans (h : Later maxn c c') (h' : Later maxn c' c'') : Later maxn c c'' where
  rxMsgs := h.rxMsgs.trans h'.rxMsgs
  rxBytes := h.rxBytes.trans h'.rxBytes
  commits := h.commits.trans h'.commits
  rowsLow := by
    have hfirst := h.rowsLow
    have hsecond := h'.rowsLow
    omega
  rowsHigh := by
    have hfirst := h.rowsHigh
    have hsecond := h'.rowsHigh
    omega
  nsMax := ⟨h.nsMax.1, h.nsMax.2.trans h'.nsMax.2⟩
  nsLow := h.nsLow.trans h'.nsLow
  nsHigh := by
    have hcount : (0 : ℤ) ≤ (c'.commitCount : ℤ) - c.commitCount :=
      sub_nonneg.mpr (Int.ofNat_le.mpr h.commits)
    have hgrow := mul_le_mul_of_nonneg_left h'.nsMax.2 hcount
    calc c''.commitNsSum - c.commitNsSum
        = (c''.commitNsSum - c'.commitNsSum) + (c'.commitNsSum - c.commitNsSum) := by ring
      _ ≤ ((c''.commitCount : ℤ) - c'.commitCount) * c''.commitNsMax +
          ((c'.commitCount : ℤ) - c.commitCount) * c''.commitNsMax :=
        add_le_add h'.nsHigh (h.nsHigh.trans hgrow)
      _ = ((c''.commitCount : ℤ) - c.commitCount) * c''.commitNsMax := by ring

/-- A batch gives a later reading. -/
theorem later_addBatch (hmax : 0 ≤ c.commitNsMax) {rows : ℕ} (hrows : 1 ≤ rows ∧ rows ≤ maxn)
    {dt : ℤ} (hdt : 0 ≤ dt) : Later maxn c (c.addBatch rows dt) where
  rxMsgs := Nat.le_refl _
  rxBytes := Nat.le_refl _
  commits := Nat.le_succ _
  rowsLow := by
    simp only [Counters.addBatch]
    omega
  rowsHigh := by
    simp only [Counters.addBatch, Nat.mul_succ]
    omega
  nsMax := by
    simp only [Counters.addBatch]
    split <;> omega
  nsLow := by
    simp only [Counters.addBatch]
    omega
  nsHigh := by
    have hlongest : dt ≤ (c.addBatch rows dt).commitNsMax := by
      simp only [Counters.addBatch]
      split <;> omega
    calc (c.addBatch rows dt).commitNsSum - c.commitNsSum = dt := add_sub_cancel_left _ _
      _ ≤ (c.addBatch rows dt).commitNsMax := hlongest
      _ = _ := by
        simp only [Counters.addBatch, Nat.cast_succ]
        ring

/-- A message gives a later reading. -/
theorem later_addMessage (hmax : 0 ≤ c.commitNsMax) (bytes : ℕ) :
    Later maxn c { c with rxMsgs := c.rxMsgs + 1, rxBytes := c.rxBytes + bytes } :=
  { later_refl hmax with
    rxMsgs := Nat.le_succ _
    rxBytes := Nat.le_add_right _ _ }

/-- What a report says is consistent. -/
structure Sound (maxn : ℕ) (r : Report) : Prop where
  /-- Nothing is divided by zero. -/
  dtNs : 0 < r.dtNs
  /-- Messages are not negative. -/
  rxMsgs : 0 ≤ r.dRxMsgs
  /-- Bytes are not negative. -/
  rxBytes : 0 ≤ r.dRxBytes
  /-- Transactions are not negative, and each has a row. -/
  rowsLow : 0 ≤ r.dCommit ∧ r.dCommit ≤ r.dDbRows
  /-- No transaction has more rows than a batch. -/
  rowsHigh : r.dDbRows ≤ maxn * r.dCommit
  /-- The average time is at most the longest one. -/
  ns : 0 ≤ r.dCommitNsSum ∧ r.dCommitNsSum ≤ r.dCommit * r.total.commitNsMax
  /-- There are at most as many rows as messages. -/
  rows : r.total.dbRows ≤ r.total.rxMsgs
  /-- The queue is at most as long as it ever was. -/
  queue : r.qLen ≤ r.qMax

/-- The reports add up to these counters. -/
structure AddsUp (reports : List Report) (c : Counters) : Prop where
  /-- Messages. -/
  rxMsgs : (reports.map Report.dRxMsgs).sum = c.rxMsgs
  /-- Bytes. -/
  rxBytes : (reports.map Report.dRxBytes).sum = c.rxBytes
  /-- Rows. -/
  dbRows : (reports.map Report.dDbRows).sum = c.dbRows
  /-- Transactions. -/
  commits : (reports.map Report.dCommit).sum = c.commitCount
  /-- Time of the transactions. -/
  ns : (reports.map Report.dCommitNsSum).sum = c.commitNsSum

variable {cfg : Settings} {g t : Gateway} {a : Action} {cells : List (Addr × Sample)}

/-- The batch that the writer works on before it is counted. -/
def batchOf : WriterPc → Option (List Sample)
  | .popped buf => some buf
  | .inserting buf _ _ _ => some buf
  | .counting buf _ => some buf
  | _ => none

/-- The batch of the writer fits the buffer, and its time is not negative. -/
structure Handled (cfg : Settings) (pc : WriterPc) : Prop where
  /-- A batch has at least one sample and fits. -/
  sized : ∀ buf ∈ batchOf pc, 1 ≤ buf.length ∧ buf.length ≤ cfg.maxn
  /-- The clock may step back, but no time is negative. -/
  time : ∀ buf dt, pc = .counting buf dt → 0 ≤ dt

/-- The readings of the counters follow each other. -/
structure Tallied (cfg : Settings) (g : Gateway) : Prop where
  /-- The batch in hand. -/
  handled : Handled cfg g.writer
  /-- The counters are later than the last report. -/
  counters : Later cfg.maxn g.last g.counters
  /-- A reading lies between the last report and the counters. -/
  reading : ∀ nowNs now, g.stats = .sampled nowNs now →
    Later cfg.maxn g.last now ∧ Later cfg.maxn now g.counters ∧ now.dbRows ≤ now.rxMsgs
  /-- The length of the queue is at most its maximum. -/
  queue : g.queue.qLen ≤ g.queue.qLenMax
  /-- Every report is sound. -/
  sound : ∀ r ∈ g.reports, Sound cfg.maxn r
  /-- The reports add up to the last reading. -/
  sums : AddsUp g.reports g.last

/-- A writer without a batch. -/
theorem handled_of_none {pc : WriterPc} (hpc : batchOf pc = none) : Handled cfg pc where
  sized buf hbuf := by
    rw [hpc] at hbuf
    cases hbuf
  time buf dt hcounting := by
    rw [hcounting] at hpc
    cases hpc

/-- Waking the writer leaves its batch. -/
theorem Handled.wake {pc : WriterPc} (h : Handled cfg pc) : Handled cfg pc.wake := by
  cases pc with
  | asleep => exact handled_of_none rfl
  | _ => exact h

/-- Pushing keeps the length at most its maximum. -/
theorem queue_push_le (h : Kept g cells) (hstage : stage g.stop < 5) {n : Addr} {s : Sample}
    {q : Queue Sample} (hnull : n ≠ 0) (hfresh : g.queue.nodes n = none)
    (hpush : queuePush g.queue n s = some q) : q.qLen ≤ q.qLenMax := by
  obtain ⟨q', hpush', -, hmax⟩ := (h.chained.holds hstage).push hnull hfresh s
  cases hpush.symm.trans hpush'
  rw [hmax]
  split
  · exact BitVec.le_refl _
  · rename_i hlt
    exact BitVec.not_lt.mp hlt

/-- Popping keeps the length at most its maximum. -/
theorem queue_pop_le (h : Kept g cells) (hstage : stage g.stop < 5) {max : ℕ} {out : List Sample}
    {q : Queue Sample} (hle : g.queue.qLen ≤ g.queue.qLenMax)
    (hpop : queuePopBatch max g.queue = some (out, q)) : q.qLen ≤ q.qLenMax := by
  have hholds := h.chained.holds hstage
  obtain ⟨q', hpop', hholds', hmax⟩ := hholds.pop max
  cases hpop.symm.trans hpop'
  rw [hmax]
  refine BitVec.le_trans ?_ hle
  rw [BitVec.le_def, hholds'.len_toNat, hholds.len_toNat, List.length_drop]
  exact Nat.sub_le _ _

/-- A popped batch is not larger than asked for. -/
theorem popped_length_le (h : Kept g cells) (hstage : stage g.stop < 5) {max : ℕ}
    {out : List Sample} {q : Queue Sample} (hpop : queuePopBatch max g.queue = some (out, q)) :
    out.length ≤ max := by
  obtain ⟨q', hpop', -⟩ := (h.chained.holds hstage).pop max
  cases hpop.symm.trans hpop'
  rw [List.length_map, List.length_take]
  exact Nat.min_le_left _ _

/-- There are at most as many rows as messages. -/
theorem rows_le_messages (haccounted : Accounted g) (hkept : Kept g cells) :
    g.counters.dbRows ≤ g.counters.rxMsgs := by
  have hcounted := haccounted.books.countedOrder.length_le
  have hpushed := hkept.length_pushed
  have hmessages := haccounted.messages
  have hrows := haccounted.rows
  rw [List.length_append] at hcounted
  omega

/-- A report on a later reading is sound. -/
theorem sound_reportOn {nowNs : ℤ} {now : Counters} (hlater : Later maxn g.last now)
    (hrows : now.dbRows ≤ now.rxMsgs) (hqueue : g.queue.qLen ≤ g.queue.qLenMax) :
    Sound maxn (g.reportOn nowNs now) where
  dtNs := by
    simp only [Gateway.reportOn, sinceLast]
    split <;> omega
  rxMsgs := sub_nonneg.mpr (Int.ofNat_le.mpr hlater.rxMsgs)
  rxBytes := sub_nonneg.mpr (Int.ofNat_le.mpr hlater.rxBytes)
  rowsLow := by
    have hlow := hlater.rowsLow
    have hcommits := hlater.commits
    simp only [Gateway.reportOn]
    omega
  rowsHigh := by
    have hhigh : (now.dbRows : ℤ) + maxn * g.last.commitCount ≤
        g.last.dbRows + maxn * now.commitCount := by exact_mod_cast hlater.rowsHigh
    simp only [Gateway.reportOn, mul_sub]
    omega
  ns := ⟨sub_nonneg.mpr hlater.nsLow, hlater.nsHigh⟩
  rows := hrows
  queue := hqueue

/-- One more report adds up to its reading. -/
theorem AddsUp.snoc {reports : List Report} (h : AddsUp reports g.last) (nowNs : ℤ) (now : Counters) :
    AddsUp (reports ++ [g.reportOn nowNs now]) now where
  rxMsgs := by
    rw [List.map_append, List.sum_append, h.rxMsgs]
    simp [Gateway.reportOn]
  rxBytes := by
    rw [List.map_append, List.sum_append, h.rxBytes]
    simp [Gateway.reportOn]
  dbRows := by
    rw [List.map_append, List.sum_append, h.dbRows]
    simp [Gateway.reportOn]
  commits := by
    rw [List.map_append, List.sum_append, h.commits]
    simp [Gateway.reportOn]
  ns := by
    rw [List.map_append, List.sum_append, h.ns]
    simp [Gateway.reportOn]

/-- The longest time is not negative. -/
theorem Tallied.nsMax (h : Tallied cfg g) : 0 ≤ g.counters.commitNsMax :=
  h.counters.nsMax.1.trans h.counters.nsMax.2

/-- A step of another thread than that of the statistics. -/
theorem Tallied.grow (h : Tallied cfg g) (hstats : t.stats = g.stats) (hlast : t.last = g.last)
    (hreports : t.reports = g.reports) (hlater : Later cfg.maxn g.counters t.counters)
    (hhandled : Handled cfg t.writer) (hqueue : t.queue.qLen ≤ t.queue.qLenMax) :
    Tallied cfg t where
  handled := hhandled
  counters := by
    rw [hlast]
    exact h.counters.trans hlater
  reading nowNs now hpc := by
    rw [hstats] at hpc
    obtain ⟨hfirst, hsecond, hrows⟩ := h.reading nowNs now hpc
    rw [hlast]
    exact ⟨hfirst, hsecond.trans hlater, hrows⟩
  queue := hqueue
  sound := by
    rw [hreports]
    exact h.sound
  sums := by
    rw [hreports, hlast]
    exact h.sums

/-- A step of the statistics thread that does not report. -/
theorem Tallied.look (h : Tallied cfg g) {pc : StatsPc}
    (hreading : ∀ nowNs now, pc = .sampled nowNs now →
      Later cfg.maxn g.last now ∧ Later cfg.maxn now g.counters ∧ now.dbRows ≤ now.rxMsgs) :
    Tallied cfg { g with stats := pc } :=
  ⟨h.handled, h.counters, hreading, h.queue, h.sound, h.sums⟩

/-- A report. -/
theorem Tallied.report (h : Tallied cfg g) {nowNs : ℤ} {now : Counters}
    (hpc : g.stats = .sampled nowNs now) :
    Tallied cfg { g with
      stats := .head
      last := now
      lastMonoNs := nowNs
      reports := g.reports ++ [g.reportOn nowNs now] } := by
  obtain ⟨hfirst, hsecond, hrows⟩ := h.reading nowNs now hpc
  refine ⟨h.handled, hsecond, ?_, h.queue, fun r hr => ?_, h.sums.snoc _ _⟩
  · intro _ _ hhead
    cases hhead
  rcases List.mem_append.mp hr with hold | hnew
  · exact h.sound r hold
  · rw [List.mem_singleton.mp hnew]
    exact sound_reportOn hfirst hrows h.queue

/-- Every step keeps the statistics consistent. -/
theorem Tallied.move (h : Tallied cfg g) (hphases : Phases g) (hkept : Kept g cells)
    (haccounted : Accounted g) (hmove : Move cfg g a t) : Tallied cfg t := by
  have hsame : Later cfg.maxn g.counters g.counters := later_refl h.nsMax
  cases hmove with
  | ignored => exact h
  | admitted | unreadable | built | unqueued =>
    exact h.grow rfl rfl rfl hsame h.handled h.queue
  | messageCounted msg =>
    exact h.grow rfl rfl rfl (later_addMessage h.nsMax msg.payload.length) h.handled h.queue
  | pushed s n q hpc hnull hfresh hpush =>
    have hstage := stage_lt_of_receiver hphases (by simp [hpc])
    exact h.grow rfl rfl rfl hsame h.handled.wake (queue_push_le hkept hstage hnull hfresh hpush)
  | turned | writerEnded | fellAsleep | wokeUp | notBegun | rawDropped | allDropped | published
  | textless | allPublished =>
    exact h.grow rfl rfl rfl hsame (handled_of_none rfl) h.queue
  | poppedNone q hpc hready hpop =>
    have hstage := stage_lt_of_writer hphases (by simp [hpc])
    exact h.grow rfl rfl rfl hsame (handled_of_none rfl) (queue_pop_le hkept hstage h.queue hpop)
  | popped s rest q hpc hpop =>
    have hstage := stage_lt_of_writer hphases (by simp [hpc])
    refine h.grow rfl rfl rfl hsame ⟨fun buf hbuf => ?_, fun _ _ hcounting => by cases hcounting⟩
      (queue_pop_le hkept hstage h.queue hpop)
    cases hbuf
    exact ⟨Nat.succ_pos _, popped_length_le hkept hstage hpop⟩
  | begun buf _ _ hpc =>
    have hsized := h.handled.sized buf (by rw [hpc]; rfl)
    refine h.grow rfl rfl rfl hsame ⟨fun b hb => ?_, fun _ _ hcounting => by cases hcounting⟩ h.queue
    cases hb
    exact hsized
  | inserted buf s todo _ _ _ _ hpc =>
    have hsized := h.handled.sized buf (by rw [hpc]; rfl)
    refine h.grow rfl rfl rfl hsame ⟨fun b hb => ?_, fun _ _ hcounting => by cases hcounting⟩ h.queue
    cases hb
    exact hsized
  | ended buf _ t0 t1 _ _ hpc =>
    have hsized := h.handled.sized buf (by rw [hpc]; rfl)
    refine h.grow rfl rfl rfl hsame ⟨fun b hb => ?_, fun _ _ hcounting => ?_⟩ h.queue
    · cases hb
      exact hsized
    · cases hcounting
      unfold elapsed
      split <;> omega
  | batchCounted buf dt hpc =>
    have hsized := h.handled.sized buf (by rw [hpc]; rfl)
    have hdt := h.handled.time buf dt hpc
    exact h.grow rfl rfl rfl (later_addBatch h.nsMax hsized hdt) (handled_of_none rfl) h.queue
  | slept | statsEnded | sampling | wokeToEnd => exact h.look fun _ _ hpc => by cases hpc
  | sampled nowNs hpc =>
    refine h.look fun _ _ hsampled => ?_
    cases hsampled
    exact ⟨h.counters, hsame, rows_le_messages haccounted hkept⟩
  | reported nowNs now hpc => exact h.report hpc
  | flagged | writerJoined | statsJoined | closed | drained | freed =>
    exact h.grow rfl rfl rfl hsame h.handled h.queue
  | woken => exact h.grow rfl rfl rfl hsame h.handled.wake h.queue

/-- Every run keeps the statistics consistent. -/
theorem tallied_of_run {startMonoNs : ℤ} {actions : List Action}
    (hrun : Run (gatewayStep cfg) anyStep (Gateway.init cfg startMonoNs) actions g) :
    Tallied cfg g := by
  induction hrun with
  | nil =>
    have hwriter : batchOf (Gateway.init cfg startMonoNs).writer = none := by
      simp only [Gateway.init]
      split <;> rfl
    refine ⟨handled_of_none hwriter, later_refl (le_refl _), fun _ _ hpc => ?_, BitVec.le_refl _,
      fun r hr => absurd hr List.not_mem_nil, ⟨rfl, rfl, rfl, rfl, rfl⟩⟩
    simp only [Gateway.init] at hpc
    split at hpc <;> cases hpc
  | snoc hrun _ hstep ih =>
    obtain ⟨hphases, cells, hkept⟩ := kept_of_run hrun
    have hmove := (gatewayStep_cases hstep).resolve_right (hkept.not_stray hphases)
    exact ih.move hphases hkept (accounted_of_run hrun) hmove

/-- In every run, whatever the clocks show: no report has a negative
difference or divides by zero, its transactions have between one row and a
full batch each, its average time is at most the longest, its rows are at most
the messages received, and the queue is at most as long as its maximum; and
the reports so far add up to the counters at the last reading. -/
theorem reports_consistent {startMonoNs : ℤ} {actions : List Action}
    (hrun : Run (gatewayStep cfg) anyStep (Gateway.init cfg startMonoNs) actions g) :
    (∀ r ∈ g.reports, Sound cfg.maxn r) ∧ AddsUp g.reports g.last ∧
      Later cfg.maxn g.last g.counters := by
  have htallied := tallied_of_run hrun
  exact ⟨htallied.sound, htallied.sums, htallied.counters⟩

/-- A sample is stored while the statistics thread sleeps, and then reported. -/
def storeAndReport : List Action :=
  [.statsHead, .writerHead] ++ oneMessage (some emptyMsg) (some 16) ++
    [.popBatch, .beginTransaction true 0, .insertState .done, .endTransaction .done true 5,
      .countBatch, .statsWake 3, .readCounters, .report]

/-- One batch and one report on it. -/
theorem reports_consistent_storeAndReport :
    ∃ g, Run (gatewayStep allThreads) anyStep (Gateway.init allThreads 0) storeAndReport g ∧
      g.reports.length = 1 ∧ (g.last.rxMsgs, g.last.dbRows, g.last.commitNsSum) = (1, 1, 5) ∧
      (∀ r ∈ g.reports, Sound 2 r) ∧ AddsUp g.reports g.last := by
  have hexec : (exec (gatewayStep allThreads) anyStep (Gateway.init allThreads 0)
      storeAndReport).map (fun g => (g.reports.length, g.last.rxMsgs, g.last.dbRows,
        g.last.commitNsSum)) = some (1, 1, 1, 5) := by decide +kernel
  obtain ⟨g, hg, hfacts⟩ := Option.map_eq_some_iff.mp hexec
  obtain ⟨hlength, hlast⟩ := Prod.mk.inj hfacts
  have hrun := run_of_exec hg
  obtain ⟨hsound, hsums, -⟩ := reports_consistent hrun
  exact ⟨g, hrun, hlength, hlast, hsound, hsums⟩

end TelemetryPlatform.GatewayReports
