import TelemetryPlatform.RobotStages

/-!
# The cache of the robot behind its lock

Done without a break, the accesses of an update are the update, and those of
the reader copy the cache. Only the thread that stands inside of its section
accesses the cache, so the memory is what the updates leave whose lock was
given back, one after the other.
-/

namespace TelemetryPlatform.RobotCache

open CachePublisher CriticalSections HeldBlocks RobotThreads TelemetryTypes

/-- The update as a step on the whole cache. -/
def CacheUpdate.action : CacheUpdate → Action
  | .imu acc gyro => .setImu acc gyro
  | .tilt deg status => .setTilt deg status
  | .motor i u => .setMotor (i.val + 1) u

/-- A motor of the array has a number that is accepted. -/
theorem motorIdx_val : ∀ i : Fin 2, motorIdx (i.val + 1) = some i
  | 0 => rfl
  | 1 => rfl

/-- The accesses of an update make up the update. -/
theorem doAll_update (u : CacheUpdate) (words regs : CacheWords) (published : List TelemetryStateMsg) :
    cacheOf (doAll CacheOp.act u.ops (words, regs)).1 =
      (pubStep ⟨cacheOf words, published⟩ (CacheUpdate.action u)).cache := by
  cases u with
  | imu acc gyro =>
    simp [CacheUpdate.ops, setImuOps, storeVec, countUpdate, doAll, CacheOp.act, cacheOf,
      CacheUpdate.action, pubStep, telemetryCacheSetImu]
  | tilt deg status =>
    simp [CacheUpdate.ops, setTiltOps, storeVec, countUpdate, doAll, CacheOp.act, cacheOf,
      CacheUpdate.action, pubStep, telemetryCacheSetTilt]
  | motor i u =>
    simp only [CacheUpdate.action, pubStep, telemetryCacheSetMotor, motorIdx_val]
    simp [CacheUpdate.ops, setMotorOps, countUpdate, doAll, CacheOp.act, cacheOf,
      Function.update_apply, funext_iff]

/-- Loads copy the words that they name and leave the cache as it is. -/
theorem doAll_load (fields : List CacheField) (words regs : CacheWords) :
    doAll CacheOp.act (fields.map .load) (words, regs) =
      (words, fun f => if f ∈ fields then words f else regs f) := by
  induction fields generalizing regs with
  | nil => simp [doAll]
  | cons field fields ih =>
    have hrest : doAll CacheOp.act ((field :: fields).map .load) (words, regs) =
        doAll CacheOp.act (fields.map .load) (words, Function.update regs field (words field)) := rfl
    rw [hrest, ih]
    congr 1
    funext f
    by_cases hf : f ∈ fields
    · simp [hf]
    · by_cases heq : f = field
      · subst heq
        simp [hf]
      · simp [hf, heq]

/-- Every word of the cache. -/
def allFields : List CacheField :=
  (List.finRange 3).map .accG ++ (List.finRange 3).map .gyroDps ++ (List.finRange 3).map .tiltDeg ++
    [.tiltStatus] ++ (List.finRange 2).map .motorTics ++ (List.finRange 2).map .motorRpm ++
    (List.finRange 2).map .motorTempC ++ (List.finRange 2).map .motorVoltageMv ++
    (List.finRange 2).map .motorCurrentMa ++ [.seq]

/-- Every word of the cache is listed. -/
theorem mem_allFields (f : CacheField) : f ∈ allFields := by
  cases f <;> simp [allFields]

/-- The accesses of the reader copy every word. -/
theorem doAll_get (words regs : CacheWords) :
    doAll CacheOp.act getOps (words, regs) = (words, words) := by
  have hops : getOps = allFields.map .load := by
    simp [getOps, allFields, loadAll, Function.comp_def]
  rw [hops, doAll_load]
  congr 1
  funext f
  rw [if_pos (mem_allFields f)]

/-- The accesses of the section that a thread stands in. -/
def inside : ThreadPc → Option (List CacheOp)
  | .updating u _ => some u.ops
  | .reading => some getOps
  | _ => none

/-- The section under way is the one that its thread stands in, and no other
thread stands in one. -/
def Standing (pc : RobotThread → ThreadPc) : Option (Section RobotThread CacheOp CacheWords) → Prop
  | none => ∀ t, inside (pc t) = none
  | some sec => sec.regs = zeroWords ∧ inside (pc sec.thread) = some sec.ops ∧
      ∀ t, t ≠ sec.thread → inside (pc t) = none

/-- The released sections have left these words in the cache. -/
def Cached (r : Robot) (words : CacheWords) : Prop :=
  ∃ current, Serial CacheOp.act r.cache words current ∧ Standing r.pc current

variable {periodNs : RobotThread → ℕ} {r r' : Robot} {t : RobotThread} {words : CacheWords}

/-- At the start the cache is zero. -/
theorem cached_init : Cached Robot.init zeroWords := ⟨none, serial_init zeroWords, fun _ => rfl⟩

/-- A thread outside of its section goes to another place outside. -/
theorem Standing.outside {current : Option (Section RobotThread CacheOp CacheWords)}
    (h : Standing r.pc current) {pc : ThreadPc} (hfrom : inside (r.pc t) = none)
    (hto : inside pc = none) : Standing (Function.update r.pc t pc) current := by
  have hother : ∀ u, inside (Function.update r.pc t pc u) = inside (r.pc u) := by
    intro u
    by_cases hu : u = t
    · subst hu
      rw [Function.update_self, hfrom, hto]
    · rw [Function.update_of_ne hu]
  cases current with
  | none => exact fun u => (hother u).trans (h u)
  | some sec =>
    obtain ⟨hregs, hops, hnone⟩ := h
    exact ⟨hregs, (hother _).trans hops, fun u hu => (hother u).trans (hnone u hu)⟩

/-- Steps outside of the sections leave the cache as it is. -/
theorem Cached.outside (h : Cached r words) (hcache : r'.cache = r.cache) {pc : ThreadPc}
    (hpc : r'.pc = Function.update r.pc t pc) (hfrom : inside (r.pc t) = none)
    (hto : inside pc = none) : Cached r' words := by
  obtain ⟨current, hserial, hstanding⟩ := h
  exact ⟨current, hcache ▸ hserial, hpc ▸ hstanding.outside hfrom hto⟩

/-- A thread takes the lock. -/
theorem Cached.lock (h : Cached r words) {ops : List CacheOp}
    {cache : Locked RobotThread CacheOp CacheWords CacheWords}
    (hlock : r.cache.acquire ⟨t, zeroWords, ops⟩ = some cache) (hcache : r'.cache = cache)
    {pc : ThreadPc} (hpc : r'.pc = Function.update r.pc t pc) (hto : inside pc = some ops) :
    Cached r' words := by
  obtain ⟨current, hserial, hstanding⟩ := h
  obtain ⟨rfl, hserial'⟩ := hserial.acquire hlock
  refine ⟨_, hcache ▸ hserial', ?_⟩
  rw [hpc]
  refine ⟨rfl, by rw [Function.update_self, hto], fun u hu => ?_⟩
  rw [Function.update_of_ne hu]
  exact hstanding u

/-- A thread accesses the cache. -/
theorem Cached.operate (h : Cached r words)
    {cache : Locked RobotThread CacheOp CacheWords CacheWords}
    (hop : r.cache.operate CacheOp.act t = some cache) (hcache : r'.cache = cache)
    (hpc : r'.pc = r.pc) : Cached r' words := by
  obtain ⟨current, hserial, hstanding⟩ := h
  obtain ⟨sec, rfl, -, hserial'⟩ := hserial.operate hop
  exact ⟨some sec, hcache ▸ hserial', hpc ▸ hstanding⟩

/-- A thread gives the lock back: all accesses of its section count. -/
theorem Cached.unlock (h : Cached r words) {regs : CacheWords} {ops : List CacheOp}
    {cache : Locked RobotThread CacheOp CacheWords CacheWords}
    (hrelease : r.cache.release t = some (regs, cache)) (hcache : r'.cache = cache)
    {pc : ThreadPc} (hpc : r'.pc = Function.update r.pc t pc) (hfrom : inside (r.pc t) = some ops)
    (hto : inside pc = none) :
    (cache.memory, regs) = doAll CacheOp.act ops (words, zeroWords) ∧ Cached r' cache.memory := by
  obtain ⟨current, hserial, hstanding⟩ := h
  obtain ⟨sec, rfl, hthread, hall, hserial'⟩ := hserial.release hrelease
  obtain ⟨hregs, hops, hnone⟩ := hstanding
  rw [hthread, hfrom] at hops
  rw [hregs, ← Option.some.inj hops] at hall
  refine ⟨hall, none, hcache ▸ hserial', fun u => ?_⟩
  rw [hpc]
  by_cases hu : u = t
  · rw [hu, Function.update_self, hto]
  · rw [Function.update_of_ne hu]
    exact hnone u (hthread ▸ hu)

end TelemetryPlatform.RobotCache
