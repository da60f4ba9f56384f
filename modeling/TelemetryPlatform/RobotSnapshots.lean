import TelemetryPlatform.RobotCache

/-!
# The published states are snapshots

With its sensors and its publisher interleaved access by access, the robot
publishes what it would publish if every update and every snapshot happened at
once. An update then happens when its lock is given back, and a snapshot when
the publisher gives its lock back, although its message is accepted only later,
if at all.
-/

namespace TelemetryPlatform.RobotSnapshots

open CachePublisher CriticalSections GuardedRuns RobotCache RobotStages RobotThreads TelemetryTypes

/-- Steps without a message. -/
def Silent (actions : List Action) : Prop := ∀ a ∈ actions, a.publishes = false

/-- Runs go on from where runs end. -/
theorem pubRun_append (s : PubState) (actions later : List Action) :
    pubRun s (actions ++ later) = pubRun (pubRun s actions) later :=
  List.foldl_append

/-- What is published changes nothing but what is published. -/
theorem pubStep_of_silent {a : Action} (ha : a.publishes = false) (s : PubState)
    (published : List TelemetryStateMsg) :
    pubStep ⟨s.cache, published⟩ a = ⟨(pubStep s a).cache, published⟩ := by
  cases a with
  | tick timestampNs sent =>
    cases sent with
    | true => cases ha
    | false => rfl
  | _ => rfl

/-- Steps without a message work on the cache alone. -/
theorem pubRun_of_silent {actions : List Action} (h : Silent actions) (s : PubState)
    (published : List TelemetryStateMsg) :
    pubRun ⟨s.cache, published⟩ actions = ⟨(pubRun s actions).cache, published⟩ := by
  induction actions generalizing s with
  | nil => rfl
  | cons a rest ih =>
    have hstep : pubRun ⟨s.cache, published⟩ (a :: rest) =
        pubRun (pubStep ⟨s.cache, published⟩ a) rest := rfl
    rw [hstep, pubStep_of_silent (h a List.mem_cons_self)]
    exact ih (fun b hb => h b (List.mem_cons_of_mem _ hb)) (pubStep s a)

/-- A message that is sent from an earlier snapshot. -/
theorem pubRun_insert (before : List Action) {after : List Action} (hafter : Silent after)
    (timestampNs : BitVec 64) :
    pubRun PubState.init (before ++ .tick timestampNs true :: after) =
      ⟨(pubRun PubState.init (before ++ after)).cache,
        (pubRun PubState.init (before ++ after)).published ++
          [telemetryPubMessage (pubRun PubState.init before).cache timestampNs]⟩ := by
  rw [pubRun_append, pubRun_append]
  generalize pubRun PubState.init before = s
  have htick : pubRun s (.tick timestampNs true :: after) =
      pubRun ⟨s.cache, s.published ++ [telemetryPubMessage s.cache timestampNs]⟩ after := rfl
  have hplain : pubRun s after = ⟨(pubRun s after).cache, s.published⟩ :=
    pubRun_of_silent hafter s s.published
  rw [htick, pubRun_of_silent hafter, hplain]

/-- The identifiers of a run are those of its parts. -/
theorem seqTrace_append (n : ℕ) (actions later : List Action) :
    seqTrace n (actions ++ later) = seqTrace n actions ++ seqTrace (n + updateCount actions) later := by
  induction actions generalizing n with
  | nil => rfl
  | cons a rest ih =>
    cases ha : a.updates with
    | true =>
      have hcount : updateCount (a :: rest) = updateCount rest + 1 := by simp [updateCount, ha]
      rw [List.cons_append, seqTrace, seqTrace, if_pos ha, if_pos ha, ih, hcount,
        Nat.add_right_comm, Nat.add_assoc]
    | false =>
      have hcount : updateCount (a :: rest) = updateCount rest := by simp [updateCount, ha]
      rw [List.cons_append, seqTrace, seqTrace, hcount, ha]
      simp only [Bool.false_eq_true, if_false]
      split_ifs
      · rw [ih, List.cons_append]
      · exact ih n

/-- Without a message there is no identifier. -/
theorem seqTrace_of_silent {actions : List Action} (h : Silent actions) (n : ℕ) :
    seqTrace n actions = [] := by
  induction actions generalizing n with
  | nil => rfl
  | cons a rest ih =>
    have hrest : Silent rest := fun b hb => h b (List.mem_cons_of_mem _ hb)
    rw [seqTrace, h a List.mem_cons_self, ih hrest, ih hrest]
    simp

/-- Updates count and send nothing. -/
theorem action_facts (u : CacheUpdate) :
    (CacheUpdate.action u).updates = true ∧ (CacheUpdate.action u).publishes = false := by
  cases u with
  | motor i u => exact ⟨by rw [CacheUpdate.action, Action.updates, motorIdx_val]; rfl, rfl⟩
  | _ => exact ⟨rfl, rfl⟩

/-- Where the publisher stands with a snapshot, it is the cache between two
parts of the run, the second of which has no message yet. -/
def Snapshot (actions : List Action) (seen : ℕ) (c : TelemetryCache) : Prop :=
  ∃ before after, actions = before ++ after ∧ Silent after ∧ updateCount before = seen ∧
    c = (pubRun PubState.init before).cache

/-- What the publisher has taken from the cache. -/
def Taken (actions : List Action) (seen : ℕ) : ThreadPc → Prop
  | .stamping snapshot => Snapshot actions seen (cacheOf snapshot)
  | .allocating msg | .publishing msg =>
    ∃ c timestampNs, Snapshot actions seen c ∧ msg = telemetryPubMessage c timestampNs
  | _ => True

/-- The run of whole updates and snapshots that comes to the same. -/
structure Explained (r : Robot) (actions : List Action) : Prop where
  /-- Each thread does what is its own. -/
  fits : ∀ t, Fits t (r.pc t)
  /-- The released sections leave the same cache. -/
  cached : ∃ words, Cached r words ∧ cacheOf words = (pubRun PubState.init actions).cache
  /-- The same messages are published. -/
  published : (pubRun PubState.init actions).published = r.published
  /-- The updates happen in the order in which their locks were given back. -/
  updates : actions.filter Action.updates = r.released.map CacheUpdate.action
  /-- Every message is taken right after the updates that it has seen. -/
  sources : seqTrace 0 actions = r.sources
  /-- So is the message that is not sent yet. -/
  taken : Taken actions r.seen (r.pc .state)

variable {periodNs : RobotThread → ℕ} {r r' : Robot} {t : RobotThread} {actions : List Action}

/-- Nothing has happened. -/
theorem explained_init : Explained Robot.init [] :=
  ⟨fun _ => trivial, ⟨zeroWords, cached_init, rfl⟩, rfl, rfl, rfl, trivial⟩

/-- The number of released updates. -/
theorem Explained.length_released (h : Explained r actions) :
    updateCount actions = r.released.length := by
  rw [updateCount, List.countP_eq_length_filter, h.updates, List.length_map]

/-- A later update does not reach the snapshot. -/
theorem Taken.snoc {seen : ℕ} {pc : ThreadPc} (h : Taken actions seen pc) (u : CacheUpdate) :
    Taken (actions ++ [CacheUpdate.action u]) seen pc := by
  have hsnoc : ∀ c, Snapshot actions seen c → Snapshot (actions ++ [CacheUpdate.action u]) seen c := by
    rintro c ⟨before, after, rfl, hafter, hseen, hc⟩
    refine ⟨before, after ++ [CacheUpdate.action u], List.append_assoc _ _ _, ?_, hseen, hc⟩
    intro a ha
    rcases List.mem_append.mp ha with hold | hnew
    · exact hafter a hold
    · rw [List.mem_singleton.mp hnew]
      exact (action_facts u).2
  cases pc with
  | stamping snapshot => exact hsnoc _ h
  | allocating msg =>
    obtain ⟨c, timestampNs, hc, hmsg⟩ := h
    exact ⟨c, timestampNs, hsnoc c hc, hmsg⟩
  | publishing msg =>
    obtain ⟨c, timestampNs, hc, hmsg⟩ := h
    exact ⟨c, timestampNs, hsnoc c hc, hmsg⟩
  | _ => trivial

/-- The place that a thread goes to, where the publisher takes nothing with it
and other threads take nothing at all. -/
theorem Taken.goto {seen : ℕ} {pc : ThreadPc} (h : Taken actions seen (r.pc .state))
    (hpc : t = .state → Taken actions seen pc) :
    Taken actions seen (Function.update r.pc t pc .state) := by
  by_cases ht : t = .state
  · subst ht
    rw [Function.update_self]
    exact hpc rfl
  · rw [Function.update_of_ne (Ne.symm ht)]
    exact h

/-- A step outside of the lock that neither publishes nor takes anything. -/
theorem Explained.quiet (h : Explained r actions) (hfits : ∀ u, Fits u (r'.pc u)) (pc : ThreadPc)
    (hcache : r'.cache = r.cache) (hpc : r'.pc = Function.update r.pc t pc)
    (hfrom : inside (r.pc t) = none) (hto : inside pc = none) (hpublished : r'.published = r.published)
    (hreleased : r'.released = r.released) (hsources : r'.sources = r.sources)
    (hseen : r'.seen = r.seen) (htaken : t = .state → Taken actions r.seen pc) :
    Explained r' actions := by
  obtain ⟨words, hcached, hwords⟩ := h.cached
  refine ⟨hfits, ⟨words, hcached.outside hcache hpc hfrom hto, hwords⟩, hpublished ▸ h.published,
    hreleased ▸ h.updates, hsources ▸ h.sources, ?_⟩
  rw [hseen, hpc]
  exact h.taken.goto htaken

/-- The lock is taken for an update or for a snapshot. -/
theorem Explained.lock (h : Explained r actions) (hfits : ∀ u, Fits u (r'.pc u)) (pc : ThreadPc)
    {ops : List CacheOp} {cache : Locked RobotThread CacheOp CacheWords CacheWords}
    (hlock : r.cache.acquire ⟨t, zeroWords, ops⟩ = some cache) (hcache : r'.cache = cache)
    (hpc : r'.pc = Function.update r.pc t pc) (hto : inside pc = some ops)
    (hpublished : r'.published = r.published) (hreleased : r'.released = r.released)
    (hsources : r'.sources = r.sources) (hseen : r'.seen = r.seen) : Explained r' actions := by
  obtain ⟨words, hcached, hwords⟩ := h.cached
  refine ⟨hfits, ⟨words, hcached.lock hlock hcache hpc hto, hwords⟩, hpublished ▸ h.published,
    hreleased ▸ h.updates, hsources ▸ h.sources, ?_⟩
  rw [hseen, hpc]
  refine h.taken.goto fun _ => ?_
  cases pc with
  | stamping snapshot => cases hto
  | allocating msg => cases hto
  | publishing msg => cases hto
  | _ => trivial

/-- An update is released: it happens now. -/
theorem Explained.update (h : Explained r actions) (hfits : ∀ u, Fits u (r'.pc u)) {u : CacheUpdate}
    {todo : List Act} {regs : CacheWords}
    {cache : Locked RobotThread CacheOp CacheWords CacheWords} (hpc : r.pc t = .updating u todo)
    (hrelease : r.cache.release t = some (regs, cache)) (hcache : r'.cache = cache)
    (hpc' : r'.pc = Function.update r.pc t (.acting todo)) (hpublished : r'.published = r.published)
    (hreleased : r'.released = r.released ++ [u]) (hsources : r'.sources = r.sources)
    (hseen : r'.seen = r.seen) : Explained r' (actions ++ [CacheUpdate.action u]) := by
  obtain ⟨words, hcached, hwords⟩ := h.cached
  have hinside : inside (r.pc t) = some u.ops := by rw [hpc]; rfl
  obtain ⟨hall, hcached'⟩ := hcached.unlock hrelease hcache hpc' hinside rfl
  obtain ⟨hupdates, hsilent⟩ := action_facts u
  have hone : Silent [CacheUpdate.action u] := by
    intro a ha
    rw [List.mem_singleton.mp ha]
    exact hsilent
  have hrun : pubRun PubState.init (actions ++ [CacheUpdate.action u]) =
      pubStep (pubRun PubState.init actions) (CacheUpdate.action u) := pubRun_append _ _ _
  refine ⟨hfits, ⟨cache.memory, hcached', ?_⟩, ?_, ?_, ?_, ?_⟩
  · have hmemory : cache.memory = (doAll CacheOp.act u.ops (words, zeroWords)).1 :=
      congrArg Prod.fst hall
    rw [hmemory, doAll_update u words zeroWords (pubRun PubState.init actions).published, hwords, hrun]
  · rw [hrun, hpublished, ← h.published]
    exact (pubStep_update _ hupdates).2
  · rw [List.filter_append, h.updates, hreleased, List.map_append, List.filter_cons, if_pos hupdates]
    rfl
  · rw [seqTrace_append, seqTrace_of_silent hone, List.append_nil, hsources, h.sources]
  · rw [hseen, hpc']
    exact (h.taken.snoc u).goto fun _ => trivial

/-- The publisher gives the lock back: this is its snapshot. -/
theorem Explained.read (h : Explained r actions) (hfits : ∀ u, Fits u (r'.pc u)) {snapshot : CacheWords}
    {cache : Locked RobotThread CacheOp CacheWords CacheWords} (hpc : r.pc t = .reading)
    (hrelease : r.cache.release t = some (snapshot, cache)) (hcache : r'.cache = cache)
    (hpc' : r'.pc = Function.update r.pc t (.stamping snapshot))
    (hpublished : r'.published = r.published) (hreleased : r'.released = r.released)
    (hsources : r'.sources = r.sources) (hseen : r'.seen = r.released.length) :
    Explained r' actions := by
  obtain ⟨words, hcached, hwords⟩ := h.cached
  have hinside : inside (r.pc t) = some getOps := by rw [hpc]; rfl
  obtain ⟨hall, hcached'⟩ := hcached.unlock hrelease hcache hpc' hinside rfl
  rw [doAll_get] at hall
  obtain ⟨hmemory, hsnapshot⟩ := Prod.mk.inj hall
  have hstate : t = .state := by
    have hold := h.fits t
    rw [hpc] at hold
    exact hold
  refine ⟨hfits, ⟨words, hmemory ▸ hcached', hwords⟩, hpublished ▸ h.published,
    hreleased ▸ h.updates, hsources ▸ h.sources, ?_⟩
  rw [hpc', hstate, Function.update_self, hsnapshot, hseen]
  exact ⟨actions, [], (List.append_nil _).symm, fun a ha => absurd ha List.not_mem_nil,
    h.length_released, hwords⟩

/-- The message is accepted: its tick stands where the snapshot was taken. -/
theorem Explained.send (h : Explained r actions) (hfits : ∀ u, Fits u (r'.pc u))
    {msg : TelemetryStateMsg} (hpc : r.pc t = .publishing msg) (hcache : r'.cache = r.cache)
    (hpc' : r'.pc = Function.update r.pc t (.acting [])) (hpublished : r'.published = r.published ++ [msg])
    (hreleased : r'.released = r.released) (hsources : r'.sources = r.sources ++ [r.seen]) :
    ∃ actions', Explained r' actions' := by
  obtain ⟨words, hcached, hwords⟩ := h.cached
  have hstate : t = .state := by
    have hold := h.fits t
    rw [hpc] at hold
    exact hold
  subst hstate
  have htaken := h.taken
  rw [hpc] at htaken
  obtain ⟨c, timestampNs, ⟨before, after, rfl, hafter, hcount, hc⟩, hmsg⟩ := htaken
  have hrun := pubRun_insert before hafter timestampNs
  have hinside : inside (r.pc .state) = none := by rw [hpc]; rfl
  refine ⟨before ++ .tick timestampNs true :: after, hfits,
    ⟨words, hcached.outside hcache hpc' hinside rfl, by rw [hwords, hrun]⟩, ?_, ?_, ?_, ?_⟩
  · rw [hrun, hpublished, hmsg, hc, h.published]
  · rw [hreleased, ← h.updates, List.filter_append, List.filter_append, List.filter_cons]
    rfl
  · have hold := h.sources
    rw [seqTrace_append, seqTrace_of_silent hafter, List.append_nil] at hold
    have htick : seqTrace (0 + updateCount before) (.tick timestampNs true :: after) =
        (0 + updateCount before) :: seqTrace (0 + updateCount before) after := rfl
    rw [seqTrace_append, htick, seqTrace_of_silent hafter, hold, hsources, hcount, Nat.zero_add]
  · rw [hpc', Function.update_self]
    trivial

/-- Every step of a thread is explained. -/
theorem Explained.threadMove {a : ThreadAction} (h : Explained r actions)
    (hmove : ThreadMove periodNs r t a r') : ∃ actions', Explained r' actions' := by
  have hfits := fits_of_threadMove h.fits hmove
  have htaken := h.taken
  cases hmove with
  | updateBegun u todo cache hpc hlock =>
    exact ⟨actions, h.lock hfits (.updating u todo) hlock rfl rfl rfl rfl rfl rfl rfl⟩
  | readBegun cache hpc ht hlock =>
    exact ⟨actions, h.lock hfits .reading hlock rfl rfl rfl rfl rfl rfl rfl⟩
  | operated cache hpc hop =>
    obtain ⟨words, hcached, hwords⟩ := h.cached
    exact ⟨actions, hfits, ⟨words, hcached.operate hop rfl rfl, hwords⟩, h.published, h.updates,
      h.sources, h.taken⟩
  | updateReleased u todo regs cache hpc hrelease =>
    exact ⟨_, h.update hfits hpc hrelease rfl rfl rfl rfl rfl rfl⟩
  | readReleased snapshot cache hpc hrelease =>
    exact ⟨actions, h.read hfits hpc hrelease rfl rfl rfl rfl rfl rfl⟩
  | stateAccepted msg hpc => exact h.send hfits hpc rfl rfl rfl rfl rfl
  | stamped snapshot timestampNs hpc =>
    refine ⟨actions, h.quiet hfits (.allocating _) rfl rfl (by rw [hpc]; rfl) rfl rfl rfl rfl rfl
      fun ht => ?_⟩
    subst ht
    rw [hpc] at htaken
    exact ⟨_, timestampNs, htaken, rfl⟩
  | allocated msg hpc =>
    refine ⟨actions, h.quiet hfits (.publishing msg) rfl rfl (by rw [hpc]; rfl) rfl rfl rfl rfl rfl
      fun ht => ?_⟩
    subst ht
    rw [hpc] at htaken
    exact htaken
  | _ =>
    -- the thread is outside of the lock before and after the step
    refine ⟨actions, h.quiet hfits _ rfl rfl ?_ rfl rfl rfl rfl rfl fun _ => ?_⟩
    · rw [‹r.pc t = _›]
      rfl
    · trivial

/-- Every step of the robot is explained. -/
theorem Explained.move {a : RobotAction} (h : Explained r actions) (hstaged : Staged r)
    (hmove : Move periodNs r a r') : ∃ actions', Explained r' actions' := by
  have hfits := fits_of_move h.fits hmove
  cases hmove with
  | thread t a r' hmove => exact h.threadMove hmove
  | started t todo started hmain =>
    rw [Staged, hmain] at hstaged
    have habsent := hstaged.2.1 t List.mem_cons_self
    refine ⟨actions, h.quiet hfits _ rfl rfl ?_ rfl rfl rfl rfl rfl fun _ => ?_⟩
    · rw [habsent]
      rfl
    · trivial
  | _ => exact ⟨actions, hfits, h.cached, h.published, h.updates, h.sources, h.taken⟩

/-- Every run is explained. -/
theorem explained_of_run {steps : List RobotAction}
    (hrun : Run (robotStep periodNs) anyStep Robot.init steps r) : ∃ actions, Explained r actions := by
  induction hrun with
  | nil => exact ⟨[], explained_init⟩
  | snoc hrun _ hstep ih =>
    obtain ⟨actions, hactions⟩ := ih
    exact hactions.move (staged_of_run hrun) (robotStep_cases hstep)

/-- In every run of the threads, access by access and in any order, whole
updates and whole snapshots give the same: there is a sequence of them that
publishes the same messages and leaves the same cache wherever the lock is
free; its updates are those of the sensors in the order in which they gave the
lock back, and each message stands behind exactly the updates that were
released when the publisher gave its lock back. -/
theorem snapshots_untorn {steps : List RobotAction}
    (hrun : Run (robotStep periodNs) anyStep Robot.init steps r) :
    ∃ actions, (pubRun PubState.init actions).published = r.published ∧
      actions.filter Action.updates = r.released.map CacheUpdate.action ∧
      seqTrace 0 actions = r.sources ∧
      (r.cache.holder = none → cacheOf r.cache.memory = (pubRun PubState.init actions).cache) := by
  obtain ⟨actions, h⟩ := explained_of_run hrun
  obtain ⟨words, ⟨current, hserial, -⟩, hwords⟩ := h.cached
  refine ⟨actions, h.published, h.updates, h.sources, fun hfree => ?_⟩
  cases current with
  | none => rw [hserial.2, hwords]
  | some sec =>
    obtain ⟨regs, done, todo, hholder, -⟩ := hserial
    rw [hfree] at hholder
    cases hholder

/-- The publisher has its snapshot, and the tilt sensor updates the cache before
the message is sent. -/
def updateAfterSnapshot : List RobotAction :=
  List.replicate 5 (.start .created) ++
    stepsOf .imu ([.connect true ⟨0, 0⟩, .head, .compute (.imu ⟨⟨1, 2, 3⟩, ⟨4, 5, 6⟩, ⟨0, 0, 0⟩, ⟨0, 0, 0⟩⟩),
      .publishPacket true, .lock] ++ List.replicate 8 .operate ++ [.unlock]) ++
    stepsOf .state ([.connect true ⟨0, 0⟩, .head, .lock] ++ List.replicate 21 .operate ++
      [.unlock, .stamp 9]) ++
    stepsOf .tilt ([.connect true ⟨0, 0⟩, .head, .compute (.tilt ⟨⟨7, 8, 9⟩, ⟨0, 0, 0⟩⟩), .lock] ++
      List.replicate 6 .operate ++ [.unlock]) ++
    stepsOf .state [.allocate true, .publishState true]

/-- A second update after the publisher has read the cache. -/
theorem snapshots_untorn_updateAfterSnapshot :
    ∃ r, Run (robotStep fun _ => 20000000) anyStep Robot.init updateAfterSnapshot r ∧
      r.released.length = 2 ∧ r.published.map msgSeq = [1] ∧
      ∃ actions, (pubRun PubState.init actions).published = r.published ∧
        seqTrace 0 actions = [1] ∧
        cacheOf r.cache.memory = (pubRun PubState.init actions).cache := by
  have hexec : (exec (robotStep fun _ => 20000000) anyStep Robot.init updateAfterSnapshot).map
      (fun r => (r.released.length, r.published.map msgSeq, r.sources, r.cache.holder.isNone)) =
        some (2, [1], [1], true) := by
    decide +kernel
  obtain ⟨r, hr, hfacts⟩ := Option.map_eq_some_iff.mp hexec
  obtain ⟨hreleased, hrest⟩ := Prod.mk.inj hfacts
  obtain ⟨hpublished, hrest⟩ := Prod.mk.inj hrest
  obtain ⟨hsources, hfree⟩ := Prod.mk.inj hrest
  have hrun := run_of_exec hr
  obtain ⟨actions, hsame, -, htrace, hcache⟩ := snapshots_untorn hrun
  exact ⟨r, hrun, hreleased, hpublished, actions, hsame, htrace.trans hsources,
    hcache (Option.isNone_iff_eq_none.mp hfree)⟩

end TelemetryPlatform.RobotSnapshots
