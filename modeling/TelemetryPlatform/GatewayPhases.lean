import TelemetryPlatform.GatewayThreads

/-!
# What the stop of the gateway waits for

The stop clears the running flag, wakes the writer and then joins one thread
after the other. Which threads may still run is therefore known from where the
main thread stands. The writer never sleeps while a sample is queued, and it
does not sleep once the stop has woken it, so joining it ends.
-/

namespace TelemetryPlatform.GatewayPhases

open GuardedRuns HeldBlocks SampleQueue WriterThread GatewayThreads

variable {cfg : Settings} {g t : Gateway} {a : Action}

/-- The steps of the stop in their order. -/
def stage : StopPc → ℕ
  | .working => 0
  | .flagged => 1
  | .woken => 2
  | .writerJoined => 3
  | .statsJoined => 4
  | .draining _ => 5
  | .freed => 6

/-- Which threads run while the stop goes on. -/
structure Phases (g : Gateway) : Prop where
  /-- The running flag is cleared by the first step of the stop. -/
  running : g.running = true ↔ stage g.stop = 0
  /-- The writer is joined. -/
  writer : 3 ≤ stage g.stop → g.writer = .done
  /-- The statistics thread is joined. -/
  stats : 4 ≤ stage g.stop → g.stats = .done
  /-- The network thread is joined. -/
  receiver : 5 ≤ stage g.stop → g.receiver = .closed

/-- Waking a writer that has ended does nothing. -/
theorem wake_eq_done {pc : WriterPc} (hpc : pc = .done) : pc.wake = .done := by rw [hpc]; rfl

/-- What the steps of one thread leave alone. -/
inductive Frame (g t : Gateway) (a : Action) : Prop
  /-- The network thread may wake the writer. -/
  | receiver (hopen : g.receiver ≠ .closed) (hstop : t.stop = g.stop)
      (hrunning : t.running = g.running) (hstats : t.stats = g.stats)
      (hwriter : t.writer = g.writer ∨ t.writer = g.writer.wake)
  /-- The writer moves itself only. -/
  | writer (hrun : g.writer ≠ .done) (hstop : t.stop = g.stop) (hrunning : t.running = g.running)
      (hstats : t.stats = g.stats) (hreceiver : t.receiver = g.receiver)
  /-- So does the statistics thread. -/
  | stats (hrun : g.stats ≠ .done) (hstop : t.stop = g.stop) (hrunning : t.running = g.running)
      (hwriter : t.writer = g.writer) (hreceiver : t.receiver = g.receiver)
  /-- A step of the stop itself. -/
  | stop (ha : a = .stop)

/-- Every step is one of a single thread. -/
theorem frame_of_move (hmove : Move cfg g a t) : Frame g t a := by
  cases hmove with
  | ignored _ hpc | admitted _ hpc | messageCounted _ hpc | unreadable _ _ _ hpc
  | built _ _ _ _ hpc | unqueued _ hpc =>
    exact .receiver (by simp [hpc]) rfl rfl rfl (.inl rfl)
  | pushed _ _ _ hpc => exact .receiver (by simp [hpc]) rfl rfl rfl (.inr rfl)
  | turned hpc | writerEnded hpc | fellAsleep hpc | poppedNone _ hpc | popped _ _ _ hpc
  | wokeUp hpc | notBegun _ _ _ hpc | begun _ _ _ hpc | rawDropped _ _ hpc | allDropped hpc
  | inserted _ _ _ _ _ _ _ hpc | ended _ _ _ _ _ _ hpc | batchCounted _ _ hpc
  | published _ _ _ hpc | textless _ _ _ hpc | allPublished _ hpc =>
    exact .writer (by simp [hpc]) rfl rfl rfl rfl
  | slept hpc | statsEnded hpc | sampling _ hpc | wokeToEnd _ hpc | sampled _ hpc
  | reported _ _ hpc =>
    exact .stats (by simp [hpc]) rfl rfl rfl rfl
  | _ => exact .stop rfl

/-- The phases hold after the start. -/
theorem phases_init (cfg : Settings) (startMonoNs : ℤ) : Phases (Gateway.init cfg startMonoNs) where
  running := iff_of_true rfl rfl
  writer h := absurd h (by simp [Gateway.init, stage])
  stats h := absurd h (by simp [Gateway.init, stage])
  receiver h := absurd h (by simp [Gateway.init, stage])

/-- Every step keeps the phases. -/
theorem Phases.move (h : Phases g) (hmove : Move cfg g a t) : Phases t := by
  cases frame_of_move hmove with
  | receiver hopen hstop hrunning hstats hwriter =>
    refine ⟨by rw [hrunning, hstop, h.running], fun hs => ?_, fun hs => ?_, fun hs => ?_⟩ <;>
      rw [hstop] at hs
    · rcases hwriter with hsame | hwake
      · rw [hsame, h.writer hs]
      · rw [hwake, wake_eq_done (h.writer hs)]
    · rw [hstats, h.stats hs]
    · exact absurd (h.receiver hs) hopen
  | writer hrun hstop hrunning hstats hreceiver =>
    refine ⟨by rw [hrunning, hstop, h.running], fun hs => ?_, fun hs => ?_, fun hs => ?_⟩ <;>
      rw [hstop] at hs
    · exact absurd (h.writer hs) hrun
    · rw [hstats, h.stats hs]
    · rw [hreceiver, h.receiver hs]
  | stats hrun hstop hrunning hwriter hreceiver =>
    refine ⟨by rw [hrunning, hstop, h.running], fun hs => ?_, fun hs => ?_, fun hs => ?_⟩ <;>
      rw [hstop] at hs
    · rw [hwriter, h.writer hs]
    · exact absurd (h.stats hs) hrun
    · rw [hreceiver, h.receiver hs]
  | stop ha =>
    have hrunning : stage g.stop ≠ 0 → ¬ g.running = true := fun hs hr => hs (h.running.mp hr)
    subst ha
    cases hmove with
    | flagged hpc => exact ⟨by simp [stage], by simp [stage], by simp [stage], by simp [stage]⟩
    | woken hpc =>
      refine ⟨?_, by simp [stage], by simp [stage], by simp [stage]⟩
      exact iff_of_false (hrunning (by rw [hpc]; decide)) (by simp [stage])
    | writerJoined hpc hdone =>
      refine ⟨?_, fun _ => hdone, by simp [stage], by simp [stage]⟩
      exact iff_of_false (hrunning (by rw [hpc]; decide)) (by simp [stage])
    | statsJoined hpc hdone =>
      refine ⟨?_, fun _ => h.writer (by rw [hpc]; decide), fun _ => hdone, by simp [stage]⟩
      exact iff_of_false (hrunning (by rw [hpc]; decide)) (by simp [stage])
    | closed hpc hquiet =>
      refine ⟨?_, fun _ => h.writer (by rw [hpc]; decide),
        fun _ => h.stats (by rw [hpc]; decide), fun _ => rfl⟩
      exact iff_of_false (hrunning (by rw [hpc]; decide)) (by simp [stage])
    | drained q node hpc | freed hpc =>
      refine ⟨?_, fun _ => h.writer (by simp [hpc, stage]), fun _ => h.stats (by simp [hpc, stage]),
        fun _ => h.receiver (by simp [hpc, stage])⟩
      exact iff_of_false (hrunning (by simp [hpc, stage])) (by simp [stage])

end TelemetryPlatform.GatewayPhases
