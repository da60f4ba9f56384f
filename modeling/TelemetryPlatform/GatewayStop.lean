import TelemetryPlatform.GatewayMemory

/-!
# The stop of the gateway ends

The writer is asleep only while nothing is queued and the stop has not woken
it, whichever thread signals at which moment. Once the running flag is cleared
every thread has a bounded amount of work left, counted in steps, and some
thread can take the next step until the gateway is freed; so the stop neither
blocks nor goes on for ever.
-/

namespace TelemetryPlatform.GatewayStop

open GuardedRuns SampleQueue GatewayThreads GatewayPhases GatewayMemory

variable {cfg : Settings} {g t : Gateway} {a : Action} {cells cells' : List (Addr × Sample)}

/-- A sleeping writer has nothing to do and will be woken. -/
structure Wakeful (g : Gateway) : Prop where
  /-- Nothing is queued. -/
  empty : g.writer = .asleep → g.queue.qHead = 0
  /-- The stop has not woken the writer yet. -/
  waiting : g.writer = .asleep → stage g.stop < 2

/-- A writer that was woken is not asleep. -/
theorem wake_ne_asleep (pc : WriterPc) : pc.wake ≠ .asleep := by
  cases pc <;> simp [WriterPc.wake]

/-- A step after which the writer is not asleep. -/
theorem wakeful_of_ne (hpc : t.writer ≠ .asleep) : Wakeful t :=
  ⟨fun h => absurd h hpc, fun h => absurd h hpc⟩

/-- A step that changes neither the writer nor the queue nor the stop. -/
theorem Wakeful.same (h : Wakeful g) (hwriter : t.writer = g.writer) (hqueue : t.queue = g.queue)
    (hstop : t.stop = g.stop) : Wakeful t where
  empty hpc := by
    rw [hwriter] at hpc
    rw [hqueue, h.empty hpc]
  waiting hpc := by
    rw [hwriter] at hpc
    rw [hstop]
    exact h.waiting hpc

/-- Every step keeps the writer wakeful. -/
theorem Wakeful.move (h : Wakeful g) (hphases : Phases g) (hmove : Move cfg g a t) : Wakeful t := by
  cases hmove with
  | ignored => exact h
  | admitted | messageCounted | unreadable | built | unqueued | slept | statsEnded | sampling
  | wokeToEnd | sampled | reported => exact h.same rfl rfl rfl
  | pushed => exact wakeful_of_ne (wake_ne_asleep _)
  | fellAsleep hpc hrunning hempty =>
    refine ⟨fun _ => hempty, fun _ => ?_⟩
    show stage g.stop < 2
    rw [hphases.running.mp hrunning]
    decide
  | turned | writerEnded | poppedNone | popped | wokeUp | notBegun | begun | rawDropped
  | allDropped | inserted | ended | batchCounted | published | textless | allPublished =>
    exact wakeful_of_ne (by simp)
  | flagged hpc => exact ⟨h.empty, fun _ => by simp [stage]⟩
  | woken => exact wakeful_of_ne (wake_ne_asleep _)
  | writerJoined hpc hdone => exact wakeful_of_ne (by simp [hdone])
  | statsJoined hpc | closed hpc | drained _ _ hpc | freed hpc =>
    have hdone : g.writer = .done := hphases.writer (by simp [hpc, stage])
    exact wakeful_of_ne (by simp [hdone])

/-- Steps that the network thread has left for its message. -/
def receiverWork : ReceiverPc → ℕ
  | .idle => 0
  | .admitted _ => 6
  | .counted _ => 5
  | .built _ => 4
  | .closed => 0

/-- Steps that the writer has left before it ends. -/
def writerWork : WriterPc → ℕ
  | .head => 1
  | .checking => 6
  | .asleep => 7
  | .popped buf => 5 + 2 * buf.length
  | .dropping rest => 2 + rest.length
  | .inserting buf todo _ _ => 4 + buf.length + todo.length
  | .counting buf _ => 3 + buf.length
  | .publishing rest => 2 + rest.length
  | .done => 0

/-- Steps that the statistics thread has left before it ends. -/
def statsWork : StatsPc → ℕ
  | .head => 1
  | .sleeping => 1
  | .sampling _ => 3
  | .sampled _ _ => 2
  | .done => 0

/-- A bound on the steps that are left once the gateway does not run; a sample
in the queue is worth the steps of the writer with it. -/
def work (g : Gateway) : ℕ :=
  receiverWork g.receiver + writerWork g.writer + statsWork g.stats + (6 - stage g.stop) +
    3 * (g.pushed.length - (g.popped.length + g.drained.length))

/-- The step is the arrival of a message. -/
def arrives : Action → Bool
  | .receive _ => true
  | _ => false

/-- Waking the writer is no work for it. -/
theorem writerWork_wake (pc : WriterPc) : writerWork pc.wake ≤ writerWork pc := by
  cases pc <;> simp [WriterPc.wake, writerWork]

/-- Once the gateway does not run, every step but the arrival of a message
leaves less work. -/
theorem work_decreases (hg : Kept g cells) (ht : Kept t cells') (hphases : Phases g)
    (hstopped : g.running = false) (hmove : Move cfg g a t) (ha : arrives a = false) :
    work t < work g := by
  have hgl := hg.length_pushed
  have htl := ht.length_pushed
  have hstage : stage g.stop ≠ 0 := by
    intro hzero
    rw [hphases.running.mpr hzero] at hstopped
    cases hstopped
  cases hmove with
  | ignored | admitted => cases ha
  | messageCounted _ hpc | unreadable _ _ _ hpc | built _ _ _ _ hpc | unqueued _ hpc =>
    simp only [work, hpc, receiverWork]
    omega
  | pushed s n q hpc =>
    have hwake := writerWork_wake g.writer
    simp only [List.length_append, List.length_singleton] at htl
    simp only [work, hpc, receiverWork, List.length_append, List.length_singleton]
    omega
  | turned _ hrunning | fellAsleep _ hrunning | slept _ hrunning | sampling _ _ hrunning =>
    rw [hstopped] at hrunning
    cases hrunning
  | writerEnded hpc | poppedNone _ hpc | wokeUp hpc | allDropped hpc | allPublished _ hpc =>
    simp only [work, hpc, writerWork, List.length_nil]
    omega
  | popped s rest q hpc =>
    simp only [List.length_append] at htl
    simp only [work, hpc, writerWork, List.length_append]
    omega
  | notBegun buf _ _ hpc | begun buf _ _ hpc | ended buf _ _ _ _ _ hpc | batchCounted buf _ hpc =>
    simp only [work, hpc, writerWork, List.length_nil]
    omega
  | rawDropped s rest hpc | inserted _ s rest _ _ _ _ hpc | published s rest _ hpc
  | textless s rest _ hpc =>
    simp only [work, hpc, writerWork, List.length_cons]
    omega
  | statsEnded hpc | wokeToEnd _ hpc | sampled _ hpc | reported _ _ hpc =>
    simp only [work, hpc, statsWork]
    omega
  | flagged hpc => exact absurd (by rw [hpc]; rfl) hstage
  | woken hpc =>
    have hwake := writerWork_wake g.writer
    simp only [work, hpc, stage]
    omega
  | writerJoined hpc | statsJoined hpc | freed hpc =>
    simp only [work, hpc, stage]
    omega
  | closed hpc =>
    simp only [work, hpc, stage, receiverWork]
    omega
  | drained q node hpc =>
    simp only [List.length_append, List.length_singleton] at htl
    simp only [work, hpc, stage, List.length_append, List.length_singleton]
    omega

/-- The writer can go on unless it is asleep or has ended. -/
theorem writer_goes_on (hasleep : g.writer ≠ .asleep) (hrun : g.writer ≠ .done) :
    ∃ a, arrives a = false ∧ a ≠ .wakeWriter ∧ (gatewayStep cfg g a).isSome = true := by
  cases hpc : g.writer with
  | head => exact ⟨.writerHead, rfl, by simp, by simp [gatewayStep, writerThreadStep, hpc]⟩
  | checking =>
    refine ⟨.popBatch, rfl, by simp, ?_⟩
    simp only [gatewayStep, writerThreadStep, hpc]
    split
    · rfl
    · split <;> rfl
  | asleep => exact absurd hpc hasleep
  | popped buf =>
    refine ⟨.beginTransaction true 0, rfl, by simp, ?_⟩
    simp only [gatewayStep, writerThreadStep, hpc]
    split <;> rfl
  | dropping rest =>
    exact ⟨.dropRaw, rfl, by simp, by cases rest <;> simp [gatewayStep, writerThreadStep, hpc]⟩
  | inserting buf todo ok t0 =>
    cases todo with
    | nil =>
      exact ⟨.endTransaction .done true 0, rfl, by simp, by simp [gatewayStep, writerThreadStep, hpc]⟩
    | cons s todo =>
      exact ⟨.insertState .done, rfl, by simp, by simp [gatewayStep, writerThreadStep, hpc]⟩
  | counting buf dt => exact ⟨.countBatch, rfl, by simp, by simp [gatewayStep, writerThreadStep, hpc]⟩
  | publishing rest =>
    refine ⟨.publish false, rfl, by simp, ?_⟩
    cases rest with
    | nil => simp [gatewayStep, writerThreadStep, hpc]
    | cons s rest =>
      simp only [gatewayStep, writerThreadStep, hpc]
      split <;> rfl
  | done => exact absurd hpc hrun

/-- The statistics thread can go on unless it has ended. -/
theorem stats_goes_on (hrun : g.stats ≠ .done) :
    ∃ a, arrives a = false ∧ a ≠ .wakeWriter ∧ (gatewayStep cfg g a).isSome = true := by
  cases hpc : g.stats with
  | head => exact ⟨.statsHead, rfl, by simp, by simp [gatewayStep, statsThreadStep, hpc]⟩
  | sleeping => exact ⟨.statsWake 0, rfl, by simp, by simp [gatewayStep, statsThreadStep, hpc]⟩
  | sampling => exact ⟨.readCounters, rfl, by simp, by simp [gatewayStep, statsThreadStep, hpc]⟩
  | sampled => exact ⟨.report, rfl, by simp, by simp [gatewayStep, statsThreadStep, hpc]⟩
  | done => exact absurd hpc hrun

/-- The stop can go on unless the thread that it waits for can. -/
theorem stop_goes_on (hwakeful : Wakeful g) (hpc : g.stop ≠ .freed) :
    ∃ a, arrives a = false ∧ a ≠ .wakeWriter ∧ (gatewayStep cfg g a).isSome = true := by
  cases hstop : g.stop with
  | working => exact ⟨.stop, rfl, by simp, by simp [gatewayStep, gatewayStopStep, hstop]⟩
  | flagged => exact ⟨.stop, rfl, by simp, by simp [gatewayStep, gatewayStopStep, hstop]⟩
  | woken =>
    by_cases hdone : g.writer = .done
    · exact ⟨.stop, rfl, by simp, by simp [gatewayStep, gatewayStopStep, hstop, hdone]⟩
    · refine writer_goes_on (fun hasleep => ?_) hdone
      have hearly := hwakeful.waiting hasleep
      rw [hstop] at hearly
      exact absurd hearly (by decide)
  | writerJoined =>
    by_cases hdone : g.stats = .done
    · exact ⟨.stop, rfl, by simp, by simp [gatewayStep, gatewayStopStep, hstop, hdone]⟩
    · exact stats_goes_on hdone
  | statsJoined =>
    cases hreceiver : g.receiver with
    | idle => exact ⟨.stop, rfl, by simp, by simp [gatewayStep, gatewayStopStep, hstop, hreceiver]⟩
    | closed => exact ⟨.stop, rfl, by simp, by simp [gatewayStep, gatewayStopStep, hstop, hreceiver]⟩
    | admitted =>
      exact ⟨.countMessage, rfl, by simp, by simp [gatewayStep, onMessageStep, hreceiver]⟩
    | counted =>
      exact ⟨.unpack none 0 true, rfl, by simp, by simp [gatewayStep, onMessageStep, hreceiver]⟩
    | built =>
      exact ⟨.queuePush none, rfl, by simp, by simp [gatewayStep, onMessageStep, hreceiver]⟩
  | draining q =>
    refine ⟨.stop, rfl, by simp, ?_⟩
    simp only [gatewayStep, gatewayStopStep, hstop]
    split
    · rfl
    · split <;> rfl
  | freed => exact absurd hstop hpc

/-- A gateway that does not run stays so. -/
theorem stopped_of_move (hmove : Move cfg g a t) (hstopped : g.running = false) :
    t.running = false := by
  cases frame_of_move hmove with
  | receiver _ _ hrunning | writer _ _ hrunning | stats _ _ hrunning =>
    rw [hrunning, hstopped]
  | stop ha =>
    subst ha
    cases hmove with
    | flagged => rfl
    | _ => exact hstopped

/-- Every run keeps the writer wakeful. -/
theorem wakeful_of_run {startMonoNs : ℤ} {actions : List Action}
    (hrun : Run (gatewayStep cfg) anyStep (Gateway.init cfg startMonoNs) actions g) : Wakeful g := by
  induction hrun with
  | nil =>
    refine wakeful_of_ne ?_
    simp only [Gateway.init]
    split <;> simp
  | snoc hrun _ hstep ih =>
    obtain ⟨hphases, cells, hkept⟩ := kept_of_run hrun
    rcases gatewayStep_cases hstep with hmove | hstray
    · exact ih.move hphases hmove
    · exact absurd hstray (hkept.not_stray hphases)

/-- The threads reach this state, and the gateway does not run. -/
structure Stopped (g : Gateway) : Prop where
  /-- The threads end one after the other. -/
  phases : Phases g
  /-- Every sample is kept. -/
  kept : ∃ cells, Kept g cells
  /-- The running flag is cleared. -/
  stopped : g.running = false

/-- Every step keeps the gateway stopped and leaves less work, but for the
arrival of a message, which is ignored. -/
theorem Stopped.step (h : Stopped g) (hstep : gatewayStep cfg g a = some t) :
    Stopped t ∧ (arrives a = true → work t ≤ work g) ∧ (arrives a = false → work t < work g) := by
  obtain ⟨cells, hkept⟩ := h.kept
  have hmove := (gatewayStep_cases hstep).resolve_right (hkept.not_stray h.phases)
  obtain ⟨cells', hkept'⟩ := hkept.move h.phases hmove
  refine ⟨⟨h.phases.move hmove, ⟨cells', hkept'⟩, stopped_of_move hmove h.stopped⟩, fun ha => ?_,
    work_decreases hkept hkept' h.phases h.stopped hmove⟩
  cases hmove with
  | ignored => exact Nat.le_refl _
  | admitted _ _ hrunning =>
    rw [h.stopped] at hrunning
    cases hrunning
  | _ => cases ha

/-- In every state that the threads reach: the writer is asleep only while all
samples pushed are popped. Once the gateway does not run, every further run
takes a bounded number of steps other than messages that are ignored, and
until the gateway is freed some thread can take a step, without a writer that
wakes up by chance. -/
theorem stop_finishes {startMonoNs : ℤ} {actions : List Action}
    (hrun : Run (gatewayStep cfg) anyStep (Gateway.init cfg startMonoNs) actions g) :
    (g.writer = .asleep → g.pushed = g.popped) ∧
      (g.running = false →
        (∀ later t, Run (gatewayStep cfg) anyStep g later t →
          (later.filter fun a => !arrives a).length ≤ work g) ∧
        (g.stop ≠ .freed → ∃ a, arrives a = false ∧ a ≠ .wakeWriter ∧
          (gatewayStep cfg g a).isSome = true)) := by
  obtain ⟨hphases, cells, hkept⟩ := kept_of_run hrun
  have hwakeful := wakeful_of_run hrun
  refine ⟨fun hasleep => ?_, fun hstopped => ⟨fun later t hlater => ?_, fun hpc => ?_⟩⟩
  · have hstage : stage g.stop < 5 := Nat.lt_of_lt_of_le (hwakeful.waiting hasleep) (by decide)
    have hempty := (hkept.chained.holds hstage).head_eq_zero_iff.mp (hwakeful.empty hasleep)
    have horder := hkept.order
    rwa [hempty, hkept.undrained hstage, List.map_nil, List.append_nil, List.append_nil] at horder
  · have hstart : Stopped g := ⟨hphases, ⟨cells, hkept⟩, hstopped⟩
    have hbound := (hlater.work_bound hstart fun _ _ _ h hstep => h.step hstep).2
    omega
  · exact stop_goes_on hwakeful hpc

/-- The writer is asleep when the stop clears the running flag. -/
def stopAsleep : List Action := [.writerHead, .popBatch, .statsHead, .stop]

/-- The stop begins while the writer sleeps. -/
theorem stop_finishes_stopAsleep :
    ∃ g, Run (gatewayStep allThreads) anyStep (Gateway.init allThreads 0) stopAsleep g ∧
      g.running = false ∧ work g = 13 ∧ g.stop ≠ .freed ∧
      (∀ later t, Run (gatewayStep allThreads) anyStep g later t →
        (later.filter fun a => !arrives a).length ≤ 13) ∧
      ∃ a, arrives a = false ∧ a ≠ .wakeWriter ∧ (gatewayStep allThreads g a).isSome = true := by
  have hexec : (exec (gatewayStep allThreads) anyStep (Gateway.init allThreads 0) stopAsleep).map
      (fun g => (g.running, work g, stage g.stop)) = some (false, 13, 1) := by decide +kernel
  obtain ⟨g, hg, hfacts⟩ := Option.map_eq_some_iff.mp hexec
  simp only [Prod.mk.injEq] at hfacts
  obtain ⟨hstopped, hwork, hstage⟩ := hfacts
  have hrun := run_of_exec hg
  have hpc : g.stop ≠ .freed := by
    intro hfreed
    rw [hfreed] at hstage
    cases hstage
  obtain ⟨-, hend⟩ := stop_finishes hrun
  obtain ⟨hbound, hstep⟩ := hend hstopped
  rw [hwork] at hbound
  exact ⟨g, hrun, hstopped, hwork, hpc, hbound, hstep hpc⟩

end TelemetryPlatform.GatewayStop
