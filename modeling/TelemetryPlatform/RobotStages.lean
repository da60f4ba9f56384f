import TelemetryPlatform.RobotThreads

/-!
# Where the threads of the robot stand

A thread does only what is its own: the sensors update the cache and send on
their topics, the publisher reads the cache. The main thread starts each thread
once, and what it has not started has done nothing; what it has waited for, or
never started, does nothing any more.
-/

namespace TelemetryPlatform.RobotStages

open GuardedRuns RobotThreads TelemetryTypes

variable {periodNs : RobotThread → ℕ} {r r' : Robot} {t : RobotThread}

/-- The thread that does this with its samples. -/
def CacheUpdate.owner : CacheUpdate → RobotThread
  | .imu _ _ => .imu
  | .tilt _ _ => .tilt
  | .motor i _ => if i = firstMotor then .motor1 else .motor2

/-- The thread that sends on a topic. -/
def Channel.owner : Channel → RobotThread
  | .imuAcc => .imu
  | .imuGyro => .imu
  | .tilt => .tilt
  | .motor i _ => if i = firstMotor then .motor1 else .motor2

/-- The thread that does this. -/
def Act.owner : Act → RobotThread
  | .publish p => Channel.owner p.channel
  | .update u => CacheUpdate.owner u

/-- A thread does only what is its own; the publisher of the state has no sensor. -/
def Fits (t : RobotThread) : ThreadPc → Prop
  | .acting todo => ∀ act ∈ todo, Act.owner act = t
  | .updating u todo => CacheUpdate.owner u = t ∧ ∀ act ∈ todo, Act.owner act = t
  | .reading | .stamping _ | .allocating _ | .publishing _ | .retrying => t = .state
  | _ => True

/-- What a sensor does with a sample is its own. -/
theorem owner_of_iteration {tickCount tickCount' : Fin 2 → BitVec 32} {x : Sample} {todo : List Act}
    (hx : iteration tickCount t x = some (todo, tickCount')) : ∀ act ∈ todo, Act.owner act = t := by
  cases t <;> cases x <;> cases hx
  · simp [imuIteration, Act.owner, Channel.owner, CacheUpdate.owner]
  · simp [tiltIteration, Act.owner, Channel.owner, CacheUpdate.owner]
  · simp [motorIteration, Act.owner, Channel.owner, CacheUpdate.owner]
  · simp [motorIteration, Act.owner, Channel.owner, CacheUpdate.owner, firstMotor, secondMotor]

/-- One thread goes to another place that fits it. -/
theorem fits_update (h : ∀ u, Fits u (r.pc u)) (pc : ThreadPc) (hpc : Fits t pc) (u : RobotThread) :
    Fits u (Function.update r.pc t pc u) := by
  by_cases hu : u = t
  · subst hu
    rw [Function.update_self]
    exact hpc
  · rw [Function.update_of_ne hu]
    exact h u

/-- Threads keep to what is their own. -/
theorem fits_of_threadMove {a : ThreadAction} (h : ∀ u, Fits u (r.pc u))
    (hmove : ThreadMove periodNs r t a r') (u : RobotThread) : Fits u (r'.pc u) := by
  have hold := h t
  cases hmove with
  | measured x todo tickCount hpc hx => exact fits_update h (.acting todo) (owner_of_iteration hx) u
  | packetHanded p todo accepted hpc =>
    rw [hpc] at hold
    exact fits_update h (.acting todo) (fun act hact => hold act (List.mem_cons_of_mem _ hact)) u
  | updateBegun v todo cache hpc hlock =>
    rw [hpc] at hold
    exact fits_update h (.updating v todo)
      ⟨hold _ List.mem_cons_self, fun act hact => hold act (List.mem_cons_of_mem _ hact)⟩ u
  | readBegun cache hpc ht hlock => exact fits_update h .reading ht u
  | operated cache hpc hop => exact h u
  | updateReleased v todo regs cache hpc hrelease =>
    rw [hpc] at hold
    exact fits_update h (.acting todo) hold.2 u
  | readReleased snapshot cache hpc hrelease =>
    rw [hpc] at hold
    exact fits_update h (.stamping snapshot) hold u
  | stamped snapshot timestampNs hpc =>
    rw [hpc] at hold
    exact fits_update h (.allocating _) hold u
  | allocated msg hpc =>
    rw [hpc] at hold
    exact fits_update h (.publishing msg) hold u
  | unallocated msg hpc =>
    rw [hpc] at hold
    exact fits_update h .retrying hold u
  | stateAccepted msg hpc => exact fits_update h (.acting []) (fun _ hact => by cases hact) u
  | stateRefused msg hpc => exact fits_update h (.acting []) (fun _ hact => by cases hact) u
  | _ =>
    refine fits_update h _ ?_ u
    exact trivial

/-- In every state each thread does only what is its own. -/
theorem fits_of_move {a : RobotAction} (h : ∀ u, Fits u (r.pc u)) (hmove : Move periodNs r a r')
    (u : RobotThread) : Fits u (r'.pc u) := by
  cases hmove with
  | started v todo started hmain => exact fits_update h .connecting trivial u
  | thread v a r' hmove => exact fits_of_threadMove h hmove u
  | _ => exact h u

/-- What the main thread knows of the others. -/
def Staged (r : Robot) : Prop :=
  match r.main with
  | .starting todo started => started ++ todo = startOrder ∧ (∀ t ∈ todo, r.pc t = .absent) ∧
      ∀ t ∈ started, r.pc t ≠ .absent
  | .joining todo _ => (∀ t ∈ todo, r.pc t ≠ .absent) ∧
      ∀ t, t ∉ todo → r.pc t = .absent ∨ r.pc t = .exited
  | .returned _ => ∀ t, r.pc t = .absent ∨ r.pc t = .exited

/-- A thread that takes a step runs, and it is one of its own. -/
structure Runs (t : RobotThread) (r r' : Robot) : Prop where
  /-- It was started. -/
  started : r.pc t ≠ .absent
  /-- It has not ended. -/
  unended : r.pc t ≠ .exited
  /-- It does not vanish. -/
  stays : r'.pc t ≠ .absent
  /-- Other threads stay where they are. -/
  others : ∀ u, u ≠ t → r'.pc u = r.pc u
  /-- So does the main thread. -/
  main : r'.main = r.main

/-- Every step of a thread is of one that runs. -/
theorem runs_of_threadMove {a : ThreadAction} (hmove : ThreadMove periodNs r t a r') :
    Runs t r r' := by
  cases hmove with
  | operated cache hpc hop =>
    have hplace : r.pc t ≠ .absent ∧ r.pc t ≠ .exited := by
      rcases hpc with ⟨u, todo, hpc⟩ | hpc
      · simp [hpc]
      · simp [hpc]
    exact ⟨hplace.1, hplace.2, hplace.1, fun _ _ => rfl, rfl⟩
  | _ =>
    refine ⟨?_, ?_, ?_, fun u hu => Function.update_of_ne hu _ _, rfl⟩
    · rw [‹r.pc t = _›]
      exact ThreadPc.noConfusion
    · rw [‹r.pc t = _›]
      exact ThreadPc.noConfusion
    · refine fun h => ?_
      have hgoto := (Function.update_self t _ r.pc).symm.trans h
      cases hgoto

/-- Every thread is started at some time. -/
theorem mem_startOrder (t : RobotThread) : t ∈ startOrder := by
  cases t <;> decide

/-- The main thread knows what it needs to know. -/
theorem staged_init : Staged Robot.init :=
  ⟨rfl, fun _ _ => rfl, fun _ h => absurd h List.not_mem_nil⟩

/-- Threads that were not started stay as they are, and those that were take
steps until they have ended. -/
theorem Staged.runs (h : Staged r) (hruns : Runs t r r') : Staged r' := by
  have hkept : ∀ u, r'.pc u = .absent ↔ r.pc u = .absent := by
    intro u
    by_cases hu : u = t
    · subst hu
      exact ⟨fun ht => absurd ht hruns.stays, fun ht => absurd ht hruns.started⟩
    · rw [hruns.others u hu]
  rw [Staged, hruns.main]
  rw [Staged] at h
  cases hmain : r.main with
  | starting todo started =>
    simp only [hmain] at h ⊢
    exact ⟨h.1, fun u hu => (hkept u).mpr (h.2.1 u hu), fun u hu hu' => h.2.2 u hu ((hkept u).mp hu')⟩
  | joining todo status =>
    simp only [hmain] at h ⊢
    refine ⟨fun u hu hu' => h.1 u hu ((hkept u).mp hu'), fun u hu => ?_⟩
    have hold := h.2 u hu
    by_cases hut : u = t
    · subst hut
      exact (hold.elim hruns.started hruns.unended).elim
    · rwa [hruns.others u hut]
  | returned status =>
    simp only [hmain] at h
    exact ((h t).elim hruns.started hruns.unended).elim

/-- Each step of the robot keeps to the order of starts and ends. -/
theorem Staged.move {a : RobotAction} (h : Staged r) (hmove : Move periodNs r a r') : Staged r' := by
  cases hmove with
  | signalled => exact h
  | started t todo started hmain =>
    rw [Staged, hmain] at h
    obtain ⟨horder, htodo, hstarted⟩ := h
    have hnodup : (started ++ t :: todo).Nodup := by
      rw [horder]
      decide
    obtain ⟨-, hrest, hapart⟩ := List.nodup_append.mp hnodup
    refine ⟨by rw [List.append_assoc]; exact horder, fun u hu => ?_, fun u hu => ?_⟩
    · have hut : u ≠ t := fun heq => (List.nodup_cons.mp hrest).1 (heq ▸ hu)
      exact (Function.update_of_ne hut _ _).trans (htodo u (List.mem_cons_of_mem _ hu))
    · rcases List.mem_append.mp hu with hold | hnew
      · have hut : u ≠ t := hapart u hold t List.mem_cons_self
        exact fun heq => hstarted u hold ((Function.update_of_ne hut _ _).symm.trans heq)
      · obtain rfl := List.mem_singleton.mp hnew
        have hpc : Function.update r.pc u ThreadPc.connecting u = .connecting :=
          Function.update_self _ _ _
        intro heq
        cases hpc.symm.trans heq
  | unstarted t todo started hmain =>
    rw [Staged, hmain] at h
    refine ⟨h.2.2, fun u hu => .inl (h.2.1 u ?_)⟩
    exact (List.mem_append.mp (h.1 ▸ mem_startOrder u)).resolve_left hu
  | outOfMemory t todo started hmain =>
    rw [Staged, hmain] at h
    refine ⟨h.2.2, fun u hu => .inl (h.2.1 u ?_)⟩
    exact (List.mem_append.mp (h.1 ▸ mem_startOrder u)).resolve_left hu
  | waiting started hmain =>
    rw [Staged, hmain] at h
    refine ⟨h.2.2, fun u hu => .inl (h.2.1 u ?_)⟩
    exact (List.mem_append.mp (h.1 ▸ mem_startOrder u)).resolve_left hu
  | joined t todo status hmain hpc =>
    rw [Staged, hmain] at h
    refine ⟨fun u hu => h.1 u (List.mem_cons_of_mem _ hu), fun u hu => ?_⟩
    by_cases hut : u = t
    · exact .inr (hut ▸ hpc)
    · exact h.2 u fun hmem => (List.mem_cons.mp hmem).elim hut hu
  | returned status hmain =>
    rw [Staged, hmain] at h
    exact fun u => h.2 u List.not_mem_nil
  | thread t a r' hmove => exact h.runs (runs_of_threadMove hmove)

/-- In every run threads are started and waited for in their order. -/
theorem staged_of_run {actions : List RobotAction}
    (hrun : Run (robotStep periodNs) anyStep Robot.init actions r) : Staged r :=
  hrun.invariant staged_init fun _ _ _ _ hstep h => h.move (robotStep_cases hstep)

end TelemetryPlatform.RobotStages
