import TelemetryPlatform.RobotSnapshots

/-!
# The robot ends, and leaves nothing behind

The cache is a variable of the main thread, and each thread frees the arguments
that it was given. The main thread returns only after every thread that it has
started has ended, also where a start has failed; so no thread uses the cache
after that, and all arguments are freed once. A signal or a failed start leaves
a bounded amount of work, and some thread can always go on with it: nobody waits
for a lock whose holder does not come back.
-/

namespace TelemetryPlatform.RobotStop

open CachePublisher CriticalSections GuardedRuns HeldBlocks RobotCache RobotSnapshots RobotStages
open RobotThreads TelemetryTypes

variable {periodNs : RobotThread → ℕ} {r r' : Robot} {t : RobotThread} {words : CacheWords}

/-- The argument blocks that threads have. -/
def heldArgs (args : RobotThread → Option ℕ) : List ℕ := startOrder.filterMap args

/-- One thread with its block and the others. -/
theorem heldArgs_perm (args : RobotThread → Option ℕ) (t : RobotThread) :
    (heldArgs args).Perm ((args t).toList ++ heldArgs (Function.update args t none)) := by
  have hperm : startOrder.Perm (t :: startOrder.erase t) := List.perm_cons_erase (mem_startOrder t)
  have hnodup : startOrder.Nodup := by decide
  have hrest : (startOrder.erase t).filterMap (Function.update args t none) =
      (startOrder.erase t).filterMap args := by
    refine List.filterMap_congr fun u hu => Function.update_of_ne ?_ _ _
    exact ((List.Nodup.mem_erase_iff hnodup).mp hu).1
  have hothers : (heldArgs (Function.update args t none)).Perm ((startOrder.erase t).filterMap args) := by
    have hcons := hperm.filterMap (Function.update args t none)
    rwa [List.filterMap_cons, Function.update_self, hrest] at hcons
  have hsplit : (heldArgs args).Perm ((args t).toList ++ (startOrder.erase t).filterMap args) := by
    have hcons := hperm.filterMap args
    rw [List.filterMap_cons] at hcons
    cases hargs : args t with
    | none => simpa [heldArgs, hargs] using hcons
    | some b => simpa [heldArgs, hargs] using hcons
  exact hsplit.trans (hothers.symm.append_left _)

/-- Threads that were not started or have ended have no arguments, the other
arguments are held, and the cache was not used after its end. -/
structure Tidy (r : Robot) : Prop where
  /-- Who does not run has nothing. -/
  idle : ∀ t, r.pc t = .absent ∨ r.pc t = .exited → r.args t = none
  /-- Who runs has a block of its own. -/
  held : Held r.blocks (heldArgs r.args)
  /-- The cache was there when it was used. -/
  clean : r.strayed = false

/-- Nothing is started. -/
theorem tidy_init : Tidy Robot.init :=
  ⟨fun _ _ => rfl, held_init, rfl⟩

/-- The block of a thread is among those that are held. -/
theorem mem_heldArgs {args : RobotThread → Option ℕ} {b : ℕ} (hb : b ∈ args t) :
    b ∈ heldArgs args := List.mem_filterMap.mpr ⟨t, mem_startOrder t, hb⟩

/-- A thread that runs reads its arguments. -/
theorem Tidy.readArgs (h : Tidy r) (t : RobotThread) :
    Held (r.blocks.readAt (r.args t)) (heldArgs r.args) :=
  h.held.readAt fun _ hb => mem_heldArgs hb

/-- So do the sensors that read their rate. -/
theorem Tidy.readRate (h : Tidy r) (t : RobotThread) : Held (r.readRate t).blocks (heldArgs r.args) := by
  refine h.held.readAt fun b hb => ?_
  split_ifs at hb
  · exact mem_heldArgs hb
  · cases hb

/-- A thread that runs frees its arguments. -/
theorem freeArgs_held {blocks : Blocks} (h : Held blocks (heldArgs r.args)) (t : RobotThread) :
    Held (blocks.freeAt (r.args t)) (heldArgs (Function.update r.args t none)) :=
  (h.perm (heldArgs_perm r.args t)).freeAt

/-- The cache is there as long as a thread runs. -/
theorem alive_of_runs (hstaged : Staged r) (hruns : Runs t r r') : r.alive = true := by
  cases hmain : r.main with
  | returned status =>
    rw [Staged, hmain] at hstaged
    exact ((hstaged t).elim hruns.started hruns.unended).elim
  | _ => simp [Robot.alive, hmain]

/-- A step of a thread that leaves its arguments alone. -/
theorem Tidy.goes (h : Tidy r) (hruns : Runs t r r') (hargs : r'.args = r.args)
    (hpc : r'.pc t ≠ .exited) (hblocks : Held r'.blocks (heldArgs r.args))
    (hclean : r'.strayed = false) : Tidy r' := by
  refine ⟨fun u hu => ?_, hargs ▸ hblocks, hclean⟩
  rw [hargs]
  by_cases hut : u = t
  · subst hut
    exact (hu.elim hruns.stays hpc).elim
  · rw [hruns.others u hut] at hu
    exact h.idle u hu

/-- A step of a thread that frees its arguments. -/
theorem Tidy.ends (h : Tidy r) (hruns : Runs t r r') (hargs : r'.args = Function.update r.args t none)
    (hblocks : Held r'.blocks (heldArgs (Function.update r.args t none)))
    (hclean : r'.strayed = r.strayed) : Tidy r' := by
  refine ⟨fun u hu => ?_, hargs ▸ hblocks, hclean.trans h.clean⟩
  · rw [hargs]
    by_cases hut : u = t
    · rw [hut, Function.update_self]
    · rw [hruns.others u hut] at hu
      rw [Function.update_of_ne hut]
      exact h.idle u hu

/-- Steps of the threads keep the arguments and the cache in order. -/
theorem Tidy.threadMove {a : ThreadAction} (h : Tidy r) (hstaged : Staged r)
    (hmove : ThreadMove periodNs r t a r') : Tidy r' := by
  have hruns := runs_of_threadMove hmove
  have htouch : (r.strayed || !r.alive) = false := by
    rw [h.clean, alive_of_runs hstaged hruns]
    rfl
  have hpc : ∀ {pc : ThreadPc}, pc ≠ .exited → Function.update r.pc t pc t ≠ .exited := by
    intro pc hne
    rwa [Function.update_self]
  cases hmove with
  | connected now hpc' => exact h.goes hruns rfl (hpc ThreadPc.noConfusion) (h.readArgs t) h.clean
  | unconnected now hpc' => exact h.ends hruns rfl (freeArgs_held (h.readArgs t) t) rfl
  | closed hpc' => exact h.ends hruns rfl (freeArgs_held h.held t) rfl
  | turned hpc' hrunning => exact h.goes hruns rfl (hpc ThreadPc.noConfusion) (h.readArgs t) h.clean
  | ended hpc' hrunning => exact h.goes hruns rfl (hpc ThreadPc.noConfusion) (h.readArgs t) h.clean
  | updateBegun u todo cache hpc' hlock =>
    exact h.goes hruns rfl (hpc ThreadPc.noConfusion) (h.readArgs t) htouch
  | readBegun cache hpc' ht hlock =>
    exact h.goes hruns rfl (hpc ThreadPc.noConfusion) (h.readArgs t) htouch
  | operated cache hpc' hop => exact h.goes hruns rfl hruns.unended h.held htouch
  | updateReleased u todo regs cache hpc' hrelease =>
    exact h.goes hruns rfl (hpc ThreadPc.noConfusion) h.held htouch
  | readReleased snapshot cache hpc' hrelease =>
    exact h.goes hruns rfl (hpc ThreadPc.noConfusion) h.held htouch
  | stamped snapshot timestampNs hpc' =>
    exact h.goes hruns rfl (hpc ThreadPc.noConfusion) (h.readArgs t) h.clean
  | woke hpc' => exact h.goes hruns rfl (hpc ThreadPc.noConfusion) (h.readRate t) h.clean
  | _ => exact h.goes hruns rfl (hpc ThreadPc.noConfusion) h.held h.clean

/-- Every step keeps the arguments and the cache in order. -/
theorem Tidy.move {a : RobotAction} (h : Tidy r) (hstaged : Staged r) (hmove : Move periodNs r a r') :
    Tidy r' := by
  cases hmove with
  | started t todo started hmain =>
    rw [Staged, hmain] at hstaged
    have hargs := h.idle t (.inl (hstaged.2.1 t List.mem_cons_self))
    refine ⟨fun u hu => ?_, ?_, h.clean⟩
    · by_cases hut : u = t
      · subst hut
        have hpc : Function.update r.pc u ThreadPc.connecting u = .connecting :=
          Function.update_self _ _ _
        rcases hu with hu | hu
        · cases hpc.symm.trans hu
        · cases hpc.symm.trans hu
      · have hother : Function.update r.pc t ThreadPc.connecting u = r.pc u :=
          Function.update_of_ne hut _ _
        show Function.update r.args t (some r.blocks.alloc.1) u = none
        rw [Function.update_of_ne hut]
        exact h.idle u (hother ▸ hu)
    · have hperm := heldArgs_perm (Function.update r.args t (some r.blocks.alloc.1)) t
      have hback : Function.update r.args t none = r.args := by
        rw [← hargs, Function.update_eq_self]
      rw [Function.update_idem, hback, Function.update_self] at hperm
      exact h.held.alloc.perm hperm.symm
  | unstarted t todo started hmain => exact ⟨h.idle, h.held.alloc.free, h.clean⟩
  | thread t a r' hmove => exact h.threadMove hstaged hmove
  | _ => exact ⟨h.idle, h.held, h.clean⟩

/-- Every run keeps the arguments and the cache in order. -/
theorem tidy_of_run {steps : List RobotAction}
    (hrun : Run (robotStep periodNs) anyStep Robot.init steps r) : Tidy r := by
  induction hrun with
  | nil => exact tidy_init
  | snoc hrun _ hstep ih => exact ih.move (staged_of_run hrun) (robotStep_cases hstep)

/-- Steps that a sensor has left for its sample. -/
def todoWork : List Act → ℕ
  | [] => 0
  | .publish _ :: todo => 1 + todoWork todo
  | .update u :: todo => 2 + u.ops.length + todoWork todo

/-- Steps that a thread has left, without those inside of its section. -/
def pcWork : ThreadPc → ℕ
  | .absent => 0
  | .connecting => 3
  | .head => 2
  | .computing => 30
  | .acting todo => 4 + todoWork todo
  | .updating _ todo => 5 + todoWork todo
  | .reading => 8
  | .stamping _ => 7
  | .allocating _ => 6
  | .publishing _ => 5
  | .retrying => 3
  | .sleeping => 3
  | .closing => 1
  | .exited => 0

/-- Steps that all threads have left. -/
def threadsWork (pc : RobotThread → ThreadPc) : ℕ := (startOrder.map fun t => pcWork (pc t)).sum

/-- Steps that the main thread has left, with those of the threads that it will start. -/
def mainWork : MainPc → ℕ
  | .starting todo started => 5 * todo.length + started.length + 2
  | .joining todo _ => todo.length + 1
  | .returned _ => 0

/-- A bound on the steps that are left once the running flag is cleared. -/
def work (r : Robot) : ℕ := mainWork r.main + threadsWork r.pc + r.cache.left

/-- The step is a signal. -/
def signals : RobotAction → Bool
  | .signal => true
  | _ => false

/-- One thread goes to another place. -/
theorem threadsWork_update (pc : RobotThread → ThreadPc) (t : RobotThread) (p : ThreadPc) :
    threadsWork (Function.update pc t p) + pcWork (pc t) = threadsWork pc + pcWork p := by
  cases t <;> simp [threadsWork, startOrder, Function.update] <;> omega

/-- No sample is more work than it takes to measure it. -/
theorem todoWork_iteration {tickCount tickCount' : Fin 2 → BitVec 32} {x : Sample} {todo : List Act}
    (hx : iteration tickCount t x = some (todo, tickCount')) : todoWork todo ≤ 14 := by
  cases t <;> cases x <;> cases hx
  · show 12 ≤ 14
    decide
  · show 9 ≤ 14
    decide
  · exact Nat.le_refl 14
  · exact Nat.le_refl 14

/-- A thread goes to a place with less work. -/
theorem work_lt (hmain : r'.main = r.main) {p : ThreadPc} (hpc : r'.pc = Function.update r.pc t p)
    (hless : pcWork p + r'.cache.left < pcWork (r.pc t) + r.cache.left) : work r' < work r := by
  have hgo := threadsWork_update r.pc t p
  rw [work, work, hmain, hpc]
  omega

/-- Steps of the threads leave less work once the running flag is cleared. -/
theorem work_decreases_thread {a : ThreadAction} (hstopped : r.running = false)
    (hmove : ThreadMove periodNs r t a r') : work r' < work r := by
  cases hmove with
  | turned hpc hrunning =>
    rw [hstopped] at hrunning
    cases hrunning
  | measured x todo tickCount hpc hx =>
    have htodo := todoWork_iteration hx
    refine work_lt rfl rfl (Nat.add_lt_add_right ?_ _)
    rw [hpc]
    show 4 + todoWork todo < 30
    omega
  | updateBegun u todo cache hpc hlock =>
    obtain ⟨hfree, hleft⟩ := left_acquire hlock
    refine work_lt rfl rfl ?_
    rw [hpc, hfree]
    show 5 + todoWork todo + cache.left < 4 + (2 + u.ops.length + todoWork todo) + 0
    rw [hleft]
    dsimp only
    omega
  | readBegun cache hpc ht hlock =>
    obtain ⟨hfree, hleft⟩ := left_acquire hlock
    have hops : getOps.length = 21 := by decide
    refine work_lt rfl rfl ?_
    rw [hpc, hfree]
    show 8 + cache.left < 30 + 0
    rw [hleft]
    dsimp only
    omega
  | operated cache hpc hop =>
    have hleft := left_operate hop
    show mainWork r.main + threadsWork r.pc + cache.left < _
    rw [work]
    omega
  | updateReleased u todo regs cache hpc hrelease =>
    obtain ⟨hleft, hleft'⟩ := left_release hrelease
    refine work_lt rfl rfl ?_
    rw [hpc, hleft]
    show 4 + todoWork todo + cache.left < 5 + todoWork todo + 0
    omega
  | readReleased snapshot cache hpc hrelease =>
    obtain ⟨hleft, hleft'⟩ := left_release hrelease
    refine work_lt rfl rfl ?_
    rw [hpc, hleft]
    show 7 + cache.left < 8 + 0
    omega
  | _ =>
    refine work_lt rfl rfl (Nat.add_lt_add_right ?_ _)
    rw [‹r.pc t = _›]
    simp [pcWork, todoWork]

/-- Once the running flag is cleared, every step but a signal leaves less work. -/
theorem work_decreases {a : RobotAction} (hstopped : r.running = false) (hstaged : Staged r)
    (hmove : Move periodNs r a r') (ha : signals a = false) : work r' < work r := by
  cases hmove with
  | signalled => cases ha
  | started t todo started hmain =>
    rw [Staged, hmain] at hstaged
    have habsent := hstaged.2.1 t List.mem_cons_self
    have hgo := threadsWork_update r.pc t .connecting
    rw [habsent] at hgo
    simp only [pcWork] at hgo
    show mainWork (.starting todo (started ++ [t])) +
      threadsWork (Function.update r.pc t .connecting) + r.cache.left < _
    rw [work, hmain]
    simp only [mainWork, List.length_cons, List.length_append, List.length_nil]
    omega
  | unstarted t todo started hmain =>
    show mainWork (.joining started 1) + threadsWork r.pc + r.cache.left < _
    rw [work, hmain]
    simp only [mainWork, List.length_cons]
    omega
  | outOfMemory t todo started hmain =>
    show mainWork (.joining started 1) + threadsWork r.pc + r.cache.left < _
    rw [work, hmain]
    simp only [mainWork, List.length_cons]
    omega
  | waiting started hmain =>
    show mainWork (.joining started 0) + threadsWork r.pc + r.cache.left < _
    rw [work, hmain]
    simp only [mainWork, List.length_nil]
    omega
  | joined t todo status hmain hpc =>
    show mainWork (.joining todo status) + threadsWork r.pc + r.cache.left < _
    rw [work, hmain]
    simp only [mainWork, List.length_cons]
    omega
  | returned status hmain =>
    show mainWork (.returned status) + threadsWork r.pc + r.cache.left < _
    rw [work, hmain]
    simp only [mainWork, List.length_nil]
    omega
  | thread t a r' hmove => exact work_decreases_thread hstopped hmove

/-- The running flag is never set again. -/
theorem stopped_of_move {a : RobotAction} (hmove : Move periodNs r a r') (hstopped : r.running = false) :
    r'.running = false := by
  cases hmove with
  | signalled => rfl
  | unstarted t todo started hmain =>
    show (r.running && started.isEmpty) = false
    rw [hstopped]
    rfl
  | outOfMemory t todo started hmain =>
    show (r.running && started.isEmpty) = false
    rw [hstopped]
    rfl
  | thread t a r' hmove => cases hmove <;> exact hstopped
  | _ => exact hstopped

/-- The lock is free, and no thread believes to hold it, or its holder can go on. -/
theorem lock_goes_on (h : Cached r words) :
    (∀ sec, (r.cache.acquire sec).isSome = true) ∧ (∀ t, inside (r.pc t) = none) ∨
      ∃ t a, (threadStep periodNs r t a).isSome = true := by
  obtain ⟨current, hserial, hstanding⟩ := h
  cases current with
  | none => exact .inl ⟨hserial.free, hstanding⟩
  | some sec =>
    right
    obtain ⟨-, hinside, -⟩ := hstanding
    cases hpc : r.pc sec.thread with
    | updating u todo =>
      rcases hserial.goes_on with hop | hrelease
      · exact ⟨sec.thread, .operate, by simpa [threadStep, hpc] using hop⟩
      · exact ⟨sec.thread, .unlock, by simpa [threadStep, hpc] using hrelease⟩
    | reading =>
      rcases hserial.goes_on with hop | hrelease
      · exact ⟨sec.thread, .operate, by simpa [threadStep, hpc] using hop⟩
      · exact ⟨sec.thread, .unlock, by simpa [threadStep, hpc] using hrelease⟩
    | _ =>
      rw [hpc] at hinside
      cases hinside

/-- As long as a thread runs, it can go on or the holder of the lock can. -/
theorem thread_goes_on (h : Cached r words) (hstarted : r.pc t ≠ .absent) (hunended : r.pc t ≠ .exited) :
    ∃ t a, (threadStep periodNs r t a).isSome = true := by
  rcases lock_goes_on h with ⟨hfree, hnone⟩ | hholder
  · have hplace := hnone t
    cases hpc : r.pc t with
    | absent => exact absurd hpc hstarted
    | connecting => exact ⟨t, .connect true ⟨0, 0⟩, by simp [threadStep, hpc]⟩
    | head => exact ⟨t, .head, by simp [threadStep, hpc]⟩
    | computing =>
      cases t with
      | imu =>
        exact ⟨.imu, .compute (.imu ⟨Vec3.zero, Vec3.zero, ⟨0, 0, 0⟩, ⟨0, 0, 0⟩⟩),
          by simp [threadStep, hpc, iteration]⟩
      | tilt =>
        exact ⟨.tilt, .compute (.tilt ⟨Vec3.zero, ⟨0, 0, 0⟩⟩), by simp [threadStep, hpc, iteration]⟩
      | motor1 =>
        exact ⟨.motor1, .compute (.motor ⟨0, 0, 0, 0, 0⟩), by simp [threadStep, hpc, iteration]⟩
      | motor2 =>
        exact ⟨.motor2, .compute (.motor ⟨0, 0, 0, 0, 0⟩), by simp [threadStep, hpc, iteration]⟩
      | state => exact ⟨.state, .lock, by simp [threadStep, hpc, lockCache, hfree]⟩
    | acting todo =>
      cases todo with
      | nil => exact ⟨t, .tick, by simp [threadStep, hpc]⟩
      | cons act todo =>
        cases act with
        | publish p => exact ⟨t, .publishPacket true, by simp [threadStep, hpc]⟩
        | update u => exact ⟨t, .lock, by simp [threadStep, hpc, lockCache, hfree]⟩
    | updating u todo =>
      rw [hpc] at hplace
      cases hplace
    | reading =>
      rw [hpc] at hplace
      cases hplace
    | stamping snapshot => exact ⟨t, .stamp 0, by simp [threadStep, hpc]⟩
    | allocating msg => exact ⟨t, .allocate true, by simp [threadStep, hpc]⟩
    | publishing msg => exact ⟨t, .publishState true, by simp [threadStep, hpc]⟩
    | retrying => exact ⟨t, .retry, by simp [threadStep, hpc]⟩
    | sleeping => exact ⟨t, .wake, by simp [threadStep, hpc]⟩
    | closing => exact ⟨t, .close, by simp [threadStep, hpc]⟩
    | exited => exact absurd hpc hunended
  · exact hholder

/-- Until the main thread has returned, it can go on, or a thread that it waits for. -/
theorem robot_goes_on (h : Cached r words) (hstaged : Staged r)
    (hmain : ∀ status, r.main ≠ .returned status) :
    ∃ a, signals a = false ∧ (robotStep periodNs r a).isSome = true := by
  rw [Staged] at hstaged
  cases hpc : r.main with
  | starting todo started =>
    cases todo with
    | nil => exact ⟨.join, rfl, by simp [robotStep, joinStep, hpc]⟩
    | cons t todo => exact ⟨.start .noMemory, rfl, by simp [robotStep, startStep, hpc]⟩
  | joining todo status =>
    cases todo with
    | nil => exact ⟨.join, rfl, by simp [robotStep, joinStep, hpc]⟩
    | cons t todo =>
      by_cases hexited : r.pc t = .exited
      · exact ⟨.join, rfl, by simp [robotStep, joinStep, hpc, hexited]⟩
      · rw [hpc] at hstaged
        obtain ⟨u, a, hstep⟩ : ∃ u a, (threadStep periodNs r u a).isSome = true :=
          thread_goes_on h (hstaged.1 t List.mem_cons_self) hexited
        exact ⟨.thread u a, rfl, hstep⟩
  | returned status => exact absurd hpc (hmain status)

/-- The running flag is cleared in a state that the threads reach. -/
structure Stopping (r : Robot) : Prop where
  /-- Threads are started and waited for in their order. -/
  staged : Staged r
  /-- The running flag is cleared. -/
  stopped : r.running = false

/-- Every step keeps the robot stopping and leaves less work, but for signals. -/
theorem Stopping.step {a : RobotAction} (h : Stopping r) (hstep : robotStep periodNs r a = some r') :
    Stopping r' ∧ (signals a = true → work r' ≤ work r) ∧ (signals a = false → work r' < work r) := by
  have hmove := robotStep_cases hstep
  refine ⟨⟨h.staged.move hmove, stopped_of_move hmove h.stopped⟩, fun ha => ?_,
    work_decreases h.stopped h.staged hmove⟩
  cases hmove with
  | signalled => exact Nat.le_refl _
  | _ => cases ha

/-- In every run, with every failure of a start and every signal: no thread uses
the cache after the main thread has returned, and no arguments are used or freed
after they were freed. Once the main thread has returned, all arguments are
freed, and no thread takes another step. Once the running flag is cleared, every
further run takes a bounded number of steps other than signals; and until the
main thread has returned, some step other than a signal is possible. -/
theorem robot_ends {steps : List RobotAction}
    (hrun : Run (robotStep periodNs) anyStep Robot.init steps r) :
    r.strayed = false ∧ r.blocks.misused = false ∧ (∀ b, r.blocks.freed b ≤ 1) ∧
      (∀ status, r.main = .returned status → (∀ b < r.blocks.allocated, r.blocks.freed b = 1) ∧
        ∀ t a, robotStep periodNs r (.thread t a) = none) ∧
      (r.running = false → ∀ later s, Run (robotStep periodNs) anyStep r later s →
        (later.filter fun a => !signals a).length ≤ work r) ∧
      ((∀ status, r.main ≠ .returned status) →
        ∃ a, signals a = false ∧ (robotStep periodNs r a).isSome = true) := by
  have htidy := tidy_of_run hrun
  have hstaged := staged_of_run hrun
  obtain ⟨actions, hexplained⟩ := explained_of_run hrun
  obtain ⟨words, hcached, -⟩ := hexplained.cached
  refine ⟨htidy.clean, htidy.held.clean, htidy.held.freed_le_one, fun status hmain => ⟨fun b hb => ?_,
    fun t a => ?_⟩, fun hstopped later s hlater => ?_, robot_goes_on hcached hstaged⟩
  · rw [Staged, hmain] at hstaged
    have hnone : heldArgs r.args = [] :=
      List.filterMap_eq_nil_iff.mpr fun t _ => htidy.idle t (hstaged t)
    have hheld := htidy.held
    rw [hnone] at hheld
    exact hheld.freed_eq_one hb
  · rw [Staged, hmain] at hstaged
    cases hstep : robotStep periodNs r (.thread t a) with
    | none => rfl
    | some s =>
      have hruns := runs_of_threadMove (threadStep_cases hstep)
      exact ((hstaged t).elim hruns.started hruns.unended).elim
  · have hstart : Stopping r := ⟨hstaged, hstopped⟩
    have hbound := (hlater.work_bound hstart fun _ _ _ h hstep => h.step hstep).2
    omega

/-- The start of the second motor fails while the IMU measures. -/
def failedStart : List RobotAction :=
  [.start .created, .start .created, .start .created] ++
    stepsOf .imu [.connect true ⟨0, 0⟩, .head] ++ [.start .noThread]

/-- The second thread cannot be created. -/
theorem robot_ends_failedStart :
    ∃ r, Run (robotStep fun _ => 20000000) anyStep Robot.init failedStart r ∧ r.running = false ∧
      work r = 40 ∧ r.blocks.misused = false ∧
      (∀ later s, Run (robotStep fun _ => 20000000) anyStep r later s →
        (later.filter fun a => !signals a).length ≤ 40) ∧
      ∃ a, signals a = false ∧ (robotStep (fun _ => 20000000) r a).isSome = true := by
  have hexec : (exec (robotStep fun _ => 20000000) anyStep Robot.init failedStart).map
      (fun r => (r.running, work r, mainWork r.main)) = some (false, 40, 4) := by
    decide +kernel
  obtain ⟨r, hr, hfacts⟩ := Option.map_eq_some_iff.mp hexec
  obtain ⟨hrunning, hrest⟩ := Prod.mk.inj hfacts
  obtain ⟨hwork, hmain⟩ := Prod.mk.inj hrest
  have hrun := run_of_exec hr
  obtain ⟨-, hmisused, -, -, hbound, hgoes⟩ := robot_ends hrun
  refine ⟨r, hrun, hrunning, hwork, hmisused, hwork ▸ hbound hrunning, hgoes fun status hreturned => ?_⟩
  rw [hreturned] at hmain
  cases hmain

end TelemetryPlatform.RobotStop
