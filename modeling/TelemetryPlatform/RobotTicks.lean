import Mathlib.Algebra.Order.Ring.Int
import TelemetryPlatform.RobotStages

/-!
# The ticks of the robot do not drift

Each thread sleeps up to points of the clock that it computes from the point
before and its period, never from the time at which it woke up. However long its
work takes and however late it wakes up, the point after some turns is the time
of its connection and as many periods; and there is no more than one sample or
message for each of them.
-/

namespace TelemetryPlatform.RobotTicks

open GuardedRuns RobotStages RobotThreads

variable {periodNs : RobotThread → ℕ} {r r' : Robot} {t : RobotThread} {steps : List RobotAction}

/-- A point of the clock in nanoseconds. -/
def toNs (ts : Timespec) : ℤ := ts.tvSec * nsPerSec + ts.tvNsec

/-- Carrying seconds over does not move the point, and with enough turns the
nanoseconds are less than a second. -/
theorem carrySeconds_spec (turns : ℕ) (ts : Timespec) (hturns : ts.tvNsec < (turns + 1) * nsPerSec) :
    toNs (carrySeconds turns ts) = toNs ts ∧ (carrySeconds turns ts).tvNsec < nsPerSec := by
  induction turns generalizing ts with
  | zero => exact ⟨rfl, by simpa [carrySeconds] using hturns⟩
  | succ turns ih =>
    rw [carrySeconds]
    split_ifs with hle
    · have hless : ts.tvNsec - nsPerSec < (turns + 1) * nsPerSec := by
        rw [Nat.succ_mul] at hturns
        omega
      obtain ⟨hns, hlt⟩ := ih ⟨ts.tvSec + 1, ts.tvNsec - nsPerSec⟩ hless
      refine ⟨hns.trans ?_, hlt⟩
      rw [toNs, toNs, Nat.cast_sub hle, Int.add_mul, Int.one_mul]
      omega
    · exact ⟨rfl, Nat.lt_of_not_le hle⟩

/-- The next tick is one period later. -/
theorem nextTick_spec (next : Timespec) (period : ℕ) :
    toNs (nextTick next period) = toNs next + period ∧ (nextTick next period).tvNsec < nsPerSec := by
  obtain ⟨hns, hlt⟩ := carrySeconds_spec ((next.tvNsec + period) / nsPerSec)
    ⟨next.tvSec, next.tvNsec + period⟩ (Nat.lt_mul_of_div_lt (Nat.lt_succ_self _) (by decide))
  refine ⟨hns.trans ?_, hlt⟩
  rw [toNs, toNs, Nat.cast_add, Int.add_assoc]

/-- The thread has connected at this time. -/
def connects (t : RobotThread) (now : Timespec) : RobotAction := .thread t (.connect true now)

/-- The ticks of a thread. -/
def ticks (t : RobotThread) (steps : List RobotAction) : ℕ :=
  steps.countP fun step => match step with
    | .thread u .tick => decide (u = t)
    | _ => false

/-- The samples of a thread and the messages that it has tried to send. -/
def turns (t : RobotThread) (steps : List RobotAction) : ℕ :=
  steps.countP fun step => match step with
    | .thread u (.compute _) => decide (u = t)
    | .thread u (.publishState _) => decide (u = t)
    | _ => false

/-- A thread that has not connected yet. -/
def early : ThreadPc → Bool
  | .absent | .connecting => true
  | _ => false

/-- A thread between a sample or a message and its tick. -/
def busy : ThreadPc → ℕ
  | .acting _ | .updating _ _ => 1
  | _ => 0

/-- The clock of a thread in a run. -/
structure Timed (periodNs : RobotThread → ℕ) (t : RobotThread) (r : Robot)
    (steps : List RobotAction) : Prop where
  /-- Before it connects nothing has happened. -/
  before : early (r.pc t) = true → (∀ now, connects t now ∉ steps) ∧ ticks t steps = 0
  /-- Afterwards its ticks are counted from the time of the connection. -/
  next : ∀ now, connects t now ∈ steps → now.tvNsec < nsPerSec →
    toNs (r.next t) = toNs now + ticks t steps * periodNs t ∧ (r.next t).tvNsec < nsPerSec
  /-- There is at most one sample or message for each tick. -/
  paced : turns t steps ≤ ticks t steps + busy (r.pc t)

/-- Nothing has happened. -/
theorem timed_init (t : RobotThread) : Timed periodNs t Robot.init [] :=
  ⟨fun _ => ⟨fun _ => List.not_mem_nil, rfl⟩, fun _ h => absurd h List.not_mem_nil, Nat.zero_le _⟩

/-- A step that is neither a connection nor a tick. -/
theorem Timed.quiet {a : RobotAction} (h : Timed periodNs t r steps)
    (hearly : early (r'.pc t) = true → early (r.pc t) = true) (hnext : r'.next t = r.next t)
    (hconnects : ∀ now, a ≠ connects t now) (hticks : ticks t [a] = 0)
    (hturns : turns t [a] + busy (r.pc t) ≤ busy (r'.pc t)) : Timed periodNs t r' (steps ++ [a]) := by
  have hmem : ∀ now, connects t now ∈ steps ++ [a] → connects t now ∈ steps := by
    intro now hnow
    refine (List.mem_append.mp hnow).resolve_right fun hlast => ?_
    exact hconnects now (List.mem_singleton.mp hlast).symm
  have hcount : ticks t (steps ++ [a]) = ticks t steps := by
    rw [ticks, List.countP_append]
    exact congrArg (ticks t steps + ·) hticks
  have hcount' : turns t (steps ++ [a]) = turns t steps + turns t [a] := List.countP_append
  refine ⟨fun he => ?_, fun now hnow hlt => ?_, ?_⟩
  · obtain ⟨hnone, hzero⟩ := h.before (hearly he)
    exact ⟨fun now hnow => hnone now (hmem now hnow), hcount.trans hzero⟩
  · rw [hnext, hcount]
    exact h.next now (hmem now hnow) hlt
  · have hold := h.paced
    rw [hcount, hcount']
    omega

/-- Steps of a thread keep its clock. -/
theorem Timed.own {a : ThreadAction} (h : Timed periodNs t r steps)
    (hmove : ThreadMove periodNs r t a r') : Timed periodNs t r' (steps ++ [.thread t a]) := by
  have hself : ∀ pc, Function.update r.pc t pc t = pc := fun _ => Function.update_self _ _ _
  have hself' : ∀ next, Function.update r.next t next t = next := fun _ => Function.update_self _ _ _
  cases hmove with
  | connected now hpc =>
    obtain ⟨hnone, hzero⟩ := h.before (by rw [hpc]; rfl)
    have hcount : ticks t (steps ++ [.thread t (.connect true now)]) = 0 := by
      rw [ticks, List.countP_append]
      exact congrArg (· + 0) hzero
    have hcount' : turns t (steps ++ [.thread t (.connect true now)]) = turns t steps := by
      rw [turns, List.countP_append]
      rfl
    refine ⟨fun he => ?_, fun now' hnow hlt => ?_, ?_⟩
    · have hhead : early (Function.update r.pc t .head t) = true := he
      rw [hself] at hhead
      cases hhead
    · have hlast := (List.mem_append.mp hnow).resolve_left (hnone now')
      cases List.mem_singleton.mp hlast
      show toNs (Function.update r.next t now t) = _ ∧ (Function.update r.next t now t).tvNsec < nsPerSec
      rw [hself', hcount]
      exact ⟨by simp, hlt⟩
    · have hold := h.paced
      rw [hpc] at hold
      rw [hcount', hcount, ← hzero]
      exact hold.trans (Nat.add_le_add_left (Nat.zero_le _) _)
  | ticked hpc =>
    obtain ⟨hns, hlt⟩ := nextTick_spec (r.next t) (periodNs t)
    have hcount : ticks t (steps ++ [.thread t .tick]) = ticks t steps + 1 := by
      rw [ticks, List.countP_append]
      exact congrArg (ticks t steps + ·) (by simp)
    have hcount' : turns t (steps ++ [.thread t .tick]) = turns t steps := by
      rw [turns, List.countP_append]
      rfl
    refine ⟨fun he => ?_, fun now hnow hsec => ?_, ?_⟩
    · have hsleeping : early (Function.update r.pc t .sleeping t) = true := he
      rw [hself] at hsleeping
      cases hsleeping
    · have hold := (h.next now ((List.mem_append.mp hnow).resolve_right (by simp [connects])) hsec).1
      show toNs (Function.update r.next t _ t) = _ ∧ (Function.update r.next t _ t).tvNsec < nsPerSec
      rw [hself', hns, hold, hcount]
      refine ⟨?_, hlt⟩
      rw [Nat.cast_add, Int.add_mul, Nat.cast_one, Int.one_mul, Int.add_assoc]
    · have hold := h.paced
      rw [hpc] at hold
      rw [hcount', hcount]
      exact hold.trans (Nat.le_add_right _ _)
  | operated cache hpc hop =>
    exact h.quiet id rfl (by simp [connects]) rfl (by rw [turns]; exact (Nat.zero_add _).le)
  | measured x todo tickCount hpc hx =>
    refine h.quiet (fun he => ?_) rfl (by simp [connects]) rfl ?_
    · have hnew := (congrArg early (hself _)).symm.trans he
      cases hnew
    · show turns t [.thread t (.compute x)] + _ ≤ busy (Function.update r.pc t _ t)
      rw [hself, hpc]
      simp [turns, busy]
  | stateAccepted msg hpc | stateRefused msg hpc =>
    refine h.quiet (fun he => ?_) rfl (by simp [connects]) rfl ?_
    · have hnew := (congrArg early (hself _)).symm.trans he
      cases hnew
    · show turns t [.thread t (.publishState _)] + _ ≤ busy (Function.update r.pc t _ t)
      rw [hself, hpc]
      simp [turns, busy]
  | _ =>
    refine h.quiet (fun he => ?_) rfl (by simp [connects]) rfl ?_
    · have hnew := (congrArg early (hself _)).symm.trans he
      cases hnew
    · rw [‹r.pc t = _›]
      show 0 + _ ≤ busy (Function.update r.pc t _ t)
      rw [hself]
      simp [busy]

/-- Steps of another thread. -/
theorem Timed.other {u : RobotThread} {a : ThreadAction} (h : Timed periodNs t r steps) (hu : u ≠ t)
    (hmove : ThreadMove periodNs r u a r') : Timed periodNs t r' (steps ++ [.thread u a]) := by
  have hpc := (runs_of_threadMove hmove).others t (Ne.symm hu)
  have hnext : r'.next t = r.next t := by
    cases hmove with
    | connected | ticked => exact Function.update_of_ne (Ne.symm hu) _ _
    | _ => rfl
  refine h.quiet (fun he => hpc ▸ he) hnext (fun now heq => ?_) ?_ ?_
  · cases heq
    exact hu rfl
  · cases a <;> simp [ticks, hu]
  · rw [hpc]
    have hzero : turns t [.thread u a] = 0 := by
      cases a <;> simp [turns, hu]
    rw [hzero, Nat.zero_add]

/-- Each step keeps the clock of every thread. -/
theorem Timed.move {a : RobotAction} (h : Timed periodNs t r steps) (hstaged : Staged r)
    (hmove : Move periodNs r a r') : Timed periodNs t r' (steps ++ [a]) := by
  cases hmove with
  | thread u a r' hmove =>
    by_cases hu : u = t
    · subst hu
      exact h.own hmove
    · exact h.other hu hmove
  | started u todo started hmain =>
    rw [Staged, hmain] at hstaged
    have habsent := hstaged.2.1 u List.mem_cons_self
    have hplace : early (Function.update r.pc u .connecting t) = early (r.pc t) ∧
        busy (Function.update r.pc u .connecting t) = busy (r.pc t) := by
      by_cases hu : t = u
      · rw [hu, Function.update_self, habsent]
        exact ⟨rfl, rfl⟩
      · rw [Function.update_of_ne hu]
        exact ⟨rfl, rfl⟩
    refine h.quiet (fun he => hplace.1 ▸ he) rfl (by simp [connects]) rfl ?_
    show 0 + _ ≤ busy (Function.update r.pc u .connecting t)
    rw [hplace.2, Nat.zero_add]
  | _ => exact h.quiet id rfl (by simp [connects]) rfl (Nat.zero_add _).le

/-- Every run keeps the clock of every thread. -/
theorem timed_of_run (hrun : Run (robotStep periodNs) anyStep Robot.init steps r) (t : RobotThread) :
    Timed periodNs t r steps := by
  induction hrun with
  | nil => exact timed_init t
  | snoc hrun _ hstep ih => exact ih.move (staged_of_run hrun) (robotStep_cases hstep)

/-- In every run, for every thread that has connected: the point of the clock up
to which it sleeps is the time of its connection and one period for each of its
turns, with less than a second of nanoseconds; and the samples that it has taken
or the messages that it has tried to send are at most one more than its turns. -/
theorem ticks_kept (hrun : Run (robotStep periodNs) anyStep Robot.init steps r) (t : RobotThread)
    {now : Timespec} (hnow : connects t now ∈ steps) (hsec : now.tvNsec < nsPerSec) :
    toNs (r.next t) = toNs now + ticks t steps * periodNs t ∧ (r.next t).tvNsec < nsPerSec ∧
      turns t steps ≤ ticks t steps + 1 := by
  have htimed := timed_of_run hrun t
  obtain ⟨hns, hlt⟩ := htimed.next now hnow hsec
  have hbusy : busy (r.pc t) ≤ 1 := by
    cases r.pc t <;> simp [busy]
  exact ⟨hns, hlt, htimed.paced.trans (Nat.add_le_add_left hbusy _)⟩

/-- The IMU takes one sample at the end of a second. -/
def oneTurn : List RobotAction :=
  [.start .created] ++ stepsOf .imu ([.connect true ⟨5, 990000000⟩, .head,
    .compute (.imu ⟨⟨1, 2, 3⟩, ⟨4, 5, 6⟩, ⟨0, 0, 0⟩, ⟨0, 0, 0⟩⟩), .publishPacket true, .lock] ++
      List.replicate 8 .operate ++ [.unlock, .publishPacket true, .tick, .wake])

/-- One turn of the IMU over the end of a second. -/
theorem ticks_kept_oneTurn :
    ∃ r, Run (robotStep fun _ => 20000000) anyStep Robot.init oneTurn r ∧
      r.next .imu = ⟨6, 10000000⟩ ∧ toNs (r.next .imu) = 6010000000 ∧
      (r.next .imu).tvNsec < nsPerSec ∧ turns .imu oneTurn ≤ 2 := by
  have hexec : (exec (robotStep fun _ => 20000000) anyStep Robot.init oneTurn).map
      (fun r => r.next .imu) = some ⟨6, 10000000⟩ := by
    decide +kernel
  obtain ⟨r, hr, hnext⟩ := Option.map_eq_some_iff.mp hexec
  have hrun := run_of_exec hr
  have hmem : connects .imu ⟨5, 990000000⟩ ∈ oneTurn := by
    simp [oneTurn, stepsOf, connects]
  obtain ⟨hns, hlt, hturns⟩ := ticks_kept hrun .imu hmem (by decide)
  have hticks : ticks .imu oneTurn = 1 := by decide +kernel
  rw [hticks] at hns hturns
  exact ⟨r, hrun, hnext, hns.trans (by decide), hlt, hturns⟩

end TelemetryPlatform.RobotTicks
