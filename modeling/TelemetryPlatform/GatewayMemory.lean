import TelemetryPlatform.GatewayPhases

/-!
# Every payload and every node is freed once

A payload is held by the network thread while its sample is built, by the
queue, or by the writer while its batch is under way. Every step hands it over
or frees it, so no step reads or frees a payload twice and none is left when
the gateway is freed. The stop walks the nodes that are left in the queue by a
pointer of its own, and frees each of them with its payload.
-/

namespace TelemetryPlatform.GatewayMemory

open GuardedRuns HeldBlocks LinkedChains SampleQueue WriterConnection WriterThread
open GatewayThreads GatewayPhases

variable {cfg : Settings} {g t : Gateway} {a : Action} {cells : List (Addr × Sample)}

/-- The payloads of some samples. -/
def raws (samples : List Sample) : List ℕ := samples.flatMap fun s => s.raw.toList

/-- The samples that the network thread holds. -/
def heldByReceiver : ReceiverPc → List Sample
  | .built s => [s]
  | _ => []

/-- The samples that the writer holds. -/
def heldByWriter : WriterPc → List Sample
  | .popped buf => buf
  | .dropping rest => rest
  | .inserting buf _ _ _ => buf
  | .counting buf _ => buf
  | .publishing rest => rest
  | _ => []

/-- The samples in the gateway: with the writer, queued, with the network thread. -/
def samplesIn (g : Gateway) (cells : List (Addr × Sample)) : List Sample :=
  heldByWriter g.writer ++ cells.map Prod.snd ++ heldByReceiver g.receiver

/-- What is left of the queue while the stop goes on. -/
structure Chained (q : Queue Sample) (pc : StopPc) (cells : List (Addr × Sample)) : Prop where
  /-- The queue is complete until it is freed. -/
  holds : stage pc < 5 → q.Holds cells
  /-- The nodes from the pointer of the stop on are left. -/
  rest : ∀ c, pc = .draining c → Segment q.nodes c cells 0
  /-- Nothing is left. -/
  freed : pc = .freed → cells = []
  /-- No node is met twice. -/
  nodup : (cells.map Prod.fst).Nodup
  /-- No node lies at NULL. -/
  nonnull : 0 ∉ cells.map Prod.fst
  /-- Every allocated node is one of the cells. -/
  only : ∀ n, q.nodes n ≠ none → n ∈ cells.map Prod.fst

/-- The memory of the gateway is in order. -/
structure Kept (g : Gateway) (cells : List (Addr × Sample)) : Prop where
  /-- Every payload is held once or was freed. -/
  held : Held g.blocks (raws (samplesIn g cells))
  /-- The nodes of the queue. -/
  chained : Chained g.queue g.stop cells
  /-- The samples that are still to be inserted are held. -/
  todo : ∀ buf todo ok t0, g.writer = .inserting buf todo ok t0 → todo ⊆ buf
  /-- The samples pushed are those popped, those freed by the stop and those left. -/
  order : g.pushed = g.popped ++ g.drained ++ cells.map Prod.snd
  /-- Nothing is freed by the stop before it frees the queue. -/
  undrained : stage g.stop < 5 → g.drained = []
  /-- Nothing was touched that is not allocated. -/
  clean : g.strayed = false

/-- A complete queue before it is freed. -/
theorem chained_of_owns {q : Queue Sample} {pc : StopPc} (h : q.Owns cells) (hpc : stage pc < 5) :
    Chained q pc cells where
  holds _ := h.toHolds
  rest c hc := absurd hpc (by simp [hc, stage])
  freed hc := absurd hpc (by simp [hc, stage])
  nodup := h.nodup
  nonnull := h.nonnull
  only := h.only

/-- A queue that is not yet freed is complete. -/
theorem Chained.owns {q : Queue Sample} {pc : StopPc} (h : Chained q pc cells) (hpc : stage pc < 5) :
    q.Owns cells := ⟨h.holds hpc, h.only⟩

/-- Payloads of a concatenation. -/
theorem raws_append (front back : List Sample) : raws (front ++ back) = raws front ++ raws back :=
  List.flatMap_append

/-- Payloads with one more sample. -/
theorem raws_cons (s : Sample) (rest : List Sample) :
    raws (s :: rest) = s.raw.toList ++ raws rest := List.flatMap_cons

/-- Payloads of samples in another order. -/
theorem raws_perm {samples samples' : List Sample} (hperm : samples.Perm samples') :
    (raws samples).Perm (raws samples') := hperm.flatMap_right _

/-- A payload of one of the samples. -/
theorem mem_raws {samples : List Sample} {s : Sample} (hs : s ∈ samples) {b : ℕ} (hb : b ∈ s.raw) :
    b ∈ raws samples := List.mem_flatMap.mpr ⟨s, hs, Option.mem_toList.mpr hb⟩

/-- Waking the writer changes nothing that it holds. -/
theorem heldByWriter_wake (pc : WriterPc) : heldByWriter pc.wake = heldByWriter pc := by
  cases pc <;> rfl

/-- Building a sample allocates its payload, if there is one. -/
theorem held_buildSample {m : Blocks} {held : List ℕ} (h : Held m held) (msg : MqttMessage)
    (st : TelemetryTypes.TelemetryStateMsg) (now : BitVec 64) (rawOk : Bool) :
    Held (buildSample m msg st now rawOk).2
      ((buildSample m msg st now rawOk).1.raw.toList ++ held) := by
  unfold buildSample
  dsimp only
  split
  · exact h.alloc
  · exact h

/-- The memory is in order after the start. -/
theorem kept_init (cfg : Settings) (startMonoNs : ℤ) : Kept (Gateway.init cfg startMonoNs) [] where
  held := by
    have hnone : raws (samplesIn (Gateway.init cfg startMonoNs) []) = [] := by
      cases cfg with
      | mk _ _ writerStarted _ mqttConnected =>
        cases writerStarted <;> cases mqttConnected <;> rfl
    rw [hnone]
    exact held_init
  chained := by
    have hholds : Queue.init.Holds ([] : List (Addr × Sample)) :=
      ⟨rfl, List.nodup_nil, List.not_mem_nil, rfl, rfl⟩
    exact chained_of_owns ⟨hholds, fun _ h => absurd rfl h⟩ (by simp [Gateway.init, stage])
  todo buf todo ok t0 h := by
    cases cfg with
    | mk _ _ writerStarted => cases writerStarted <;> cases h
  order := rfl
  undrained _ := rfl
  clean := rfl

/-- The stop has not begun to free the queue while the writer runs. -/
theorem stage_lt_of_writer (hphases : Phases g) (hrun : g.writer ≠ .done) : stage g.stop < 5 := by
  by_contra hlate
  exact hrun (hphases.writer (by omega))

/-- The stop has not begun to free the queue while the network thread runs. -/
theorem stage_lt_of_receiver (hphases : Phases g) (hopen : g.receiver ≠ .closed) :
    stage g.stop < 5 := by
  by_contra hlate
  exact hopen (hphases.receiver (Nat.le_of_not_lt hlate))

/-- The samples that are left are those in the queue. -/
theorem Kept.length_pushed (h : Kept g cells) :
    g.pushed.length = g.popped.length + g.drained.length + cells.length := by
  rw [h.order, List.length_append, List.length_append, List.length_map]

/-- Nothing strays from memory in order. -/
theorem Kept.not_stray (h : Kept g cells) (hphases : Phases g) : ¬ Stray cfg g := by
  intro hstray
  cases hstray with
  | push s n hpc hnull hfresh hpush =>
    have hstage := stage_lt_of_receiver hphases (by simp [hpc])
    obtain ⟨q, hsome, -⟩ := (h.chained.owns hstage).toHolds.push hnull hfresh s
    rw [hpush] at hsome
    cases hsome
  | pop hpc hpop =>
    have hstage := stage_lt_of_writer hphases (by simp [hpc])
    obtain ⟨q, hsome, -⟩ := (h.chained.owns hstage).toHolds.pop cfg.maxn
    rw [hpop] at hsome
    cases hsome
  | drain q hpc hq hnode =>
    have hsegment := h.chained.rest q hpc
    cases cells with
    | nil => exact hq hsegment
    | cons cell rest =>
      obtain ⟨rfl, next, hsome, -⟩ := hsegment
      rw [hnode] at hsome
      cases hsome

/-- A step that changes neither memory nor queue and hands no sample over. -/
theorem Kept.same (h : Kept g cells) (hblocks : t.blocks = g.blocks) (hqueue : t.queue = g.queue)
    (hstop : t.stop = g.stop) (hwriter : heldByWriter t.writer = heldByWriter g.writer)
    (hreceiver : heldByReceiver t.receiver = heldByReceiver g.receiver)
    (htodo : ∀ buf todo ok t0, t.writer = .inserting buf todo ok t0 → todo ⊆ buf)
    (hpushed : t.pushed = g.pushed) (hpopped : t.popped = g.popped)
    (hdrained : t.drained = g.drained) (hstrayed : t.strayed = g.strayed) : Kept t cells where
  held := by
    rw [hblocks, samplesIn, hwriter, hreceiver]
    exact h.held
  chained := by
    rw [hqueue, hstop]
    exact h.chained
  todo := htodo
  order := by rw [hpushed, hpopped, hdrained, h.order]
  undrained hs := by
    rw [hstop] at hs
    rw [hdrained, h.undrained hs]
  clean := hstrayed.trans h.clean

/-- A step of the stop before it frees the queue. -/
theorem Kept.advance (h : Kept g cells) (pc : StopPc) (hpc : stage g.stop < 5) (hpc' : stage pc < 5)
    (running : Bool) : Kept { g with running := running, stop := pc } cells where
  held := h.held
  chained := chained_of_owns (h.chained.owns hpc) hpc'
  todo := h.todo
  order := h.order
  undrained _ := h.undrained hpc
  clean := h.clean

/-- Waking the writer. -/
theorem Kept.wake (h : Kept g cells) : Kept { g with writer := g.writer.wake } cells := by
  refine h.same rfl rfl rfl (heldByWriter_wake _) rfl (fun buf todo ok t0 hw => ?_) rfl rfl rfl rfl
  cases hwriter : g.writer <;> simp only [WriterPc.wake, hwriter] at hw <;> cases hw
  exact h.todo _ _ _ _ hwriter

/-- The network thread builds a sample. -/
theorem Kept.build (h : Kept g cells) (hidle : heldByReceiver g.receiver = []) (msg : MqttMessage)
    (st : TelemetryTypes.TelemetryStateMsg) (now : BitVec 64) (rawOk : Bool) :
    Kept { g with
      receiver := .built (buildSample g.blocks msg st now rawOk).1
      blocks := (buildSample g.blocks msg st now rawOk).2 } cells where
  held := by
    have hheld := h.held
    rw [samplesIn, hidle, List.append_nil] at hheld
    refine (held_buildSample hheld msg st now rawOk).perm (List.perm_append_comm.trans (.of_eq ?_))
    show _ = raws (heldByWriter g.writer ++ cells.map Prod.snd ++ [_])
    rw [raws_append (_ ++ _), raws_cons]
    exact congrArg _ (List.append_nil _).symm
  chained := h.chained
  todo := h.todo
  order := h.order
  undrained := h.undrained
  clean := h.clean

/-- The network thread frees the sample that it could not push. -/
theorem Kept.unqueue (h : Kept g cells) {s : Sample} (hpc : g.receiver = .built s) (unqueued : ℕ) :
    Kept { g with
      receiver := .idle
      blocks := g.blocks.freeAt s.raw
      unqueued := unqueued } cells where
  held := by
    have hheld := h.held
    rw [samplesIn, hpc] at hheld
    show Held _ (raws (heldByWriter g.writer ++ cells.map Prod.snd ++ []))
    rw [List.append_nil]
    exact (hheld.perm (raws_perm List.perm_append_comm)).freeAt
  chained := h.chained
  todo := h.todo
  order := h.order
  undrained := h.undrained
  clean := h.clean

/-- The network thread pushes its sample. -/
theorem Kept.push (h : Kept g cells) (hstage : stage g.stop < 5) {s : Sample} {n : Addr}
    {q : Queue Sample} (hpc : g.receiver = .built s) (hnull : n ≠ 0) (hfresh : g.queue.nodes n = none)
    (hpush : queuePush g.queue n s = some q) :
    Kept { g with receiver := .idle, queue := q, pushed := g.pushed ++ [s] }
      (cells ++ [(n, s)]) where
  held := by
    have hheld := h.held
    rw [samplesIn, hpc, List.append_assoc] at hheld
    show Held _ (raws (heldByWriter g.writer ++ (cells ++ [(n, s)]).map Prod.snd ++ []))
    rwa [List.append_nil, List.map_append]
  chained := chained_of_owns ((h.chained.owns hstage).push hnull hfresh hpush) hstage
  todo := h.todo
  order := by
    show g.pushed ++ [s] = _
    rw [h.order, List.map_append, List.append_assoc _ _ [s]]
    rfl
  undrained := h.undrained
  clean := h.clean

/-- The writer pops some samples. -/
theorem Kept.pop (h : Kept g cells) (hstage : stage g.stop < 5) {out : List Sample}
    {q : Queue Sample} {max : ℕ} (pc : WriterPc) (hpc : heldByWriter g.writer = [])
    (hpop : queuePopBatch max g.queue = some (out, q)) (hpc' : heldByWriter pc = out)
    (htodo : ∀ buf todo ok t0, pc = .inserting buf todo ok t0 → todo ⊆ buf) :
    Kept { g with queue := q, writer := pc, popped := g.popped ++ out } (cells.drop max) := by
  obtain ⟨hout, howns⟩ := (h.chained.owns hstage).pop hpop
  have hsplit : out ++ (cells.drop max).map Prod.snd = cells.map Prod.snd := by
    rw [hout, ← List.map_append, List.take_append_drop]
  refine ⟨?_, chained_of_owns howns hstage, htodo, ?_, h.undrained, h.clean⟩
  · have hheld := h.held
    rw [samplesIn, hpc, List.nil_append] at hheld
    rwa [samplesIn, hpc', hsplit]
  · have horder := h.order
    rw [h.undrained hstage, List.append_nil] at horder
    show g.pushed = (g.popped ++ out) ++ g.drained ++ (cells.drop max).map Prod.snd
    rw [h.undrained hstage, List.append_nil, List.append_assoc, hsplit, horder]

/-- The writer frees the first of its samples. -/
theorem Kept.release (h : Kept g cells) {s : Sample} {rest : List Sample} (pc : WriterPc)
    (hpc : heldByWriter g.writer = s :: rest) (hpc' : heldByWriter pc = rest)
    (htodo : ∀ buf todo ok t0, pc = .inserting buf todo ok t0 → todo ⊆ buf) :
    Kept { g with writer := pc, blocks := g.blocks.freeAt s.raw } cells where
  held := by
    have hheld := h.held
    rw [samplesIn, hpc, List.cons_append, List.cons_append, raws_cons] at hheld
    rw [samplesIn, hpc']
    exact hheld.freeAt
  chained := h.chained
  todo := htodo
  order := h.order
  undrained := h.undrained
  clean := h.clean

/-- The writer reads one of its samples. -/
theorem Kept.insert (h : Kept g cells) {buf todo : List Sample} {s : Sample} {ok ok' : Bool} {t0 : ℤ}
    (hpc : g.writer = .inserting buf (s :: todo) ok t0)
    (conn : DbConn TelemetryTypes.TelemetryState) :
    Kept { g with
      conn := conn
      blocks := g.blocks.readAt s.raw
      writer := .inserting buf todo ok' t0 } cells where
  held := by
    have hheld := h.held
    rw [samplesIn, hpc] at hheld
    refine hheld.readAt fun b hb => mem_raws ?_ hb
    have hs : s ∈ buf := h.todo _ _ _ _ hpc List.mem_cons_self
    exact List.mem_append_left _ (List.mem_append_left _ hs)
  chained := h.chained
  todo _ _ _ _ hw := by
    cases hw
    exact fun x hx => h.todo _ _ _ _ hpc (List.mem_cons_of_mem _ hx)
  order := h.order
  undrained := h.undrained
  clean := h.clean

/-- The stop begins to free the queue. -/
theorem Kept.startDrain (h : Kept g cells) (hpc : g.stop = .statsJoined)
    (hquiet : g.receiver = .idle ∨ g.receiver = .closed) :
    Kept { g with receiver := .closed, stop := .draining g.queue.qHead } cells where
  held := by
    have hheld := h.held
    rcases hquiet with hidle | hclosed
    · rwa [samplesIn, hidle] at hheld
    · rwa [samplesIn, hclosed] at hheld
  chained :=
    { holds := fun hs => absurd hs (by simp [stage])
      rest := fun c hc => by
        cases hc
        exact (h.chained.holds (by simp [hpc, stage])).segment
      freed := fun hc => by cases hc
      nodup := h.chained.nodup
      nonnull := h.chained.nonnull
      only := h.chained.only }
  todo := h.todo
  order := h.order
  undrained hs := absurd hs (by simp [stage])
  clean := h.clean

/-- The stop frees one node with its payload. -/
theorem Kept.drain (h : Kept g cells) (hphases : Phases g) {q : Addr} {node : Node Addr Sample}
    (hpc : g.stop = .draining q) (hq : q ≠ 0) (hnode : g.queue.nodes q = some node) :
    Kept { g with
      blocks := g.blocks.freeAt node.value.raw
      queue := { g.queue with nodes := Function.update g.queue.nodes q none }
      stop := .draining node.next
      drained := g.drained ++ [node.value] } (cells.drop 1) := by
  have hsegment := h.chained.rest q hpc
  cases cells with
  | nil => exact absurd hsegment hq
  | cons cell rest =>
    obtain ⟨c, v⟩ := cell
    have hqc : q = c := hsegment.1
    obtain ⟨next, hsome, hrest⟩ := hsegment.unlink h.chained.nodup
    cases hnode.symm.trans hsome
    have hwriter : heldByWriter g.writer = [] := by rw [hphases.writer (by simp [hpc, stage])]; rfl
    refine ⟨?_, ⟨?_, ?_, ?_, ?_, ?_, ?_⟩, h.todo, ?_, ?_, h.clean⟩
    · have hheld := h.held
      rw [samplesIn, hwriter, List.nil_append, List.map_cons, List.cons_append, raws_cons] at hheld
      show Held _ (raws (heldByWriter g.writer ++ _ ++ _))
      rw [hwriter, List.nil_append]
      exact hheld.freeAt
    · exact fun hs => absurd hs (by simp [stage])
    · intro d hd
      cases hd
      exact hrest
    · exact fun hc => by cases hc
    · exact (List.nodup_cons.mp h.chained.nodup).2
    · exact fun hz => h.chained.nonnull (List.mem_cons_of_mem _ hz)
    · intro n hn
      dsimp only at hn
      by_cases hnq : n = q
      · rw [hnq, Function.update_self] at hn
        exact absurd rfl hn
      · rw [Function.update_of_ne hnq] at hn
        exact (List.mem_cons.mp (h.chained.only n hn)).resolve_left (hqc ▸ hnq)
    · show g.pushed = g.popped ++ (g.drained ++ [v]) ++ rest.map Prod.snd
      rw [h.order, List.append_assoc, List.append_assoc, List.append_assoc]
      rfl
    · exact fun hs => absurd hs (by simp [stage])

/-- The stop has freed the whole queue. -/
theorem Kept.freed (h : Kept g cells) (hpc : g.stop = .draining 0) :
    Kept { g with stop := .freed } cells := by
  have hnil : cells = [] := by
    have hsegment := h.chained.rest 0 hpc
    cases cells with
    | nil => rfl
    | cons cell rest => exact absurd (hsegment.1 ▸ List.mem_cons_self) h.chained.nonnull
  refine ⟨h.held, ⟨?_, ?_, fun _ => hnil, h.chained.nodup, h.chained.nonnull, h.chained.only⟩,
    h.todo, h.order, ?_, h.clean⟩
  · exact fun hs => absurd hs (by simp [stage])
  · exact fun c hc => by cases hc
  · exact fun hs => absurd hs (by simp [stage])

/-- Every step keeps the memory in order. -/
theorem Kept.move (h : Kept g cells) (hphases : Phases g) (hmove : Move cfg g a t) :
    ∃ cells', Kept t cells' := by
  cases hmove with
  | ignored => exact ⟨cells, h⟩
  | admitted _ hpc | messageCounted _ hpc | unreadable _ _ _ hpc =>
    exact ⟨cells, h.same rfl rfl rfl rfl (by rw [hpc]; rfl) h.todo rfl rfl rfl rfl⟩
  | built msg st now rawOk hpc => exact ⟨cells, h.build (by rw [hpc]; rfl) msg st now rawOk⟩
  | unqueued s hpc => exact ⟨cells, h.unqueue hpc _⟩
  | pushed s n q hpc hnull hfresh hpush =>
    have hstage := stage_lt_of_receiver hphases (by simp [hpc])
    exact ⟨_, (h.push hstage hpc hnull hfresh hpush).wake⟩
  | turned hpc | writerEnded hpc | fellAsleep hpc | wokeUp hpc | allDropped hpc
  | allPublished _ hpc =>
    exact ⟨cells, h.same rfl rfl rfl (by rw [hpc]; rfl) rfl (by simp) rfl rfl rfl rfl⟩
  | poppedNone q hpc hready hpop =>
    have hstage := stage_lt_of_writer hphases (by simp [hpc])
    have hkept := h.pop hstage .head (by rw [hpc]; rfl) hpop rfl (by simp)
    rw [List.append_nil] at hkept
    exact ⟨_, hkept⟩
  | popped s rest q hpc hpop =>
    have hstage := stage_lt_of_writer hphases (by simp [hpc])
    exact ⟨_, h.pop hstage (.popped (s :: rest)) (by rw [hpc]; rfl) hpop rfl (by simp)⟩
  | notBegun buf granted t0 hpc | ended buf _ _ _ _ _ hpc | batchCounted buf _ hpc =>
    exact ⟨cells, h.same rfl rfl rfl (by rw [hpc]; rfl) rfl (by simp) rfl rfl rfl rfl⟩
  | begun buf granted t0 hpc =>
    refine ⟨cells, h.same rfl rfl rfl (by rw [hpc]; rfl) rfl ?_ rfl rfl rfl rfl⟩
    rintro _ _ _ _ hw
    cases hw
    exact fun x hx => hx
  | rawDropped s rest hpc => exact ⟨cells, h.release (.dropping rest) (by rw [hpc]; rfl) rfl (by simp)⟩
  | inserted buf s todo ok ok' t0 outcome hpc => exact ⟨cells, h.insert hpc _⟩
  | published s rest mallocOk hpc =>
    have hkept := h.release (s := s) (.publishing rest) (by rw [hpc]; rfl) rfl (by simp)
    exact ⟨cells, hkept.same rfl rfl rfl rfl rfl (by simp) rfl rfl rfl rfl⟩
  | textless s rest mallocOk hpc =>
    have hkept := h.release (s := s) (.publishing rest) (by rw [hpc]; rfl) rfl (by simp)
    exact ⟨cells, hkept.same rfl rfl rfl rfl rfl (by simp) rfl rfl rfl rfl⟩
  | slept | statsEnded | sampling | wokeToEnd | sampled | reported =>
    exact ⟨cells, h.same rfl rfl rfl rfl rfl h.todo rfl rfl rfl rfl⟩
  | flagged hpc => exact ⟨cells, h.advance .flagged (by simp [hpc, stage]) (by simp [stage]) _⟩
  | woken hpc => exact ⟨cells, (h.advance .woken (by simp [hpc, stage]) (by simp [stage]) _).wake⟩
  | writerJoined hpc => exact ⟨cells, h.advance .writerJoined (by simp [hpc, stage]) (by simp [stage]) _⟩
  | statsJoined hpc => exact ⟨cells, h.advance .statsJoined (by simp [hpc, stage]) (by simp [stage]) _⟩
  | closed hpc hquiet => exact ⟨cells, h.startDrain hpc hquiet⟩
  | drained q node hpc hq hnode => exact ⟨_, h.drain hphases hpc hq hnode⟩
  | freed hpc => exact ⟨cells, h.freed hpc⟩

/-- Every run keeps phases and memory in order. -/
theorem kept_of_run {startMonoNs : ℤ} {actions : List Action}
    (hrun : Run (gatewayStep cfg) anyStep (Gateway.init cfg startMonoNs) actions g) :
    Phases g ∧ ∃ cells, Kept g cells := by
  induction hrun with
  | nil => exact ⟨phases_init cfg startMonoNs, [], kept_init cfg startMonoNs⟩
  | snoc _ _ hstep ih =>
    obtain ⟨hphases, cells, hkept⟩ := ih
    rcases gatewayStep_cases hstep with hmove | hstray
    · exact ⟨hphases.move hmove, hkept.move hphases hmove⟩
    · exact absurd hstray (hkept.not_stray hphases)

/-- Nothing goes on in a gateway that is freed. -/
theorem no_step_of_freed (hphases : Phases g) (hpc : g.stop = .freed) (a : Action) :
    gatewayStep cfg g a = none := by
  have hwriter := hphases.writer (by simp [hpc, stage])
  have hstats := hphases.stats (by simp [hpc, stage])
  have hreceiver := hphases.receiver (by simp [hpc, stage])
  cases a <;> simp [gatewayStep, onMessageStep, writerThreadStep, statsThreadStep, gatewayStopStep,
    hwriter, hstats, hreceiver, hpc]

/-- Whatever the threads do in whatever order: no step touches a node or a
payload that is not allocated, and none is freed twice. Once the gateway is
freed, every payload ever copied was freed exactly once, no node is left, and
no thread takes another step. -/
theorem released_once {startMonoNs : ℤ} {actions : List Action}
    (hrun : Run (gatewayStep cfg) anyStep (Gateway.init cfg startMonoNs) actions g) :
    g.strayed = false ∧ g.blocks.misused = false ∧ (∀ b, g.blocks.freed b ≤ 1) ∧
      (g.stop = .freed → (∀ b < g.blocks.allocated, g.blocks.freed b = 1) ∧
        (∀ n, g.queue.nodes n = none) ∧ ∀ a, gatewayStep cfg g a = none) := by
  obtain ⟨hphases, cells, hkept⟩ := kept_of_run hrun
  refine ⟨hkept.clean, hkept.held.clean, hkept.held.freed_le_one, fun hpc => ?_⟩
  have hcells : cells = [] := hkept.chained.freed hpc
  have hnone : samplesIn g cells = [] := by
    rw [samplesIn, hcells, hphases.writer (by simp [hpc, stage]),
      hphases.receiver (by simp [hpc, stage])]
    rfl
  refine ⟨fun b hb => ?_, fun n => ?_, no_step_of_freed hphases hpc⟩
  · have hheld := hkept.held
    rw [hnone] at hheld
    exact hheld.freed_eq_one hb
  · by_contra hn
    exact absurd (hkept.chained.only n hn) (by simp [hcells])

/-- All threads run and batches have two samples. -/
def allThreads : Settings := ⟨2, true, true, true, true⟩

/-- A message of one byte with the given outcomes of its calls. -/
def oneMessage (st : Option TelemetryTypes.TelemetryStateMsg) (node : Option Addr) : List Action :=
  [.receive ⟨some TelemetryTypes.topicTelemetryState, [7]⟩, .countMessage, .unpack st 0 true] ++
    if st.isSome then [.queuePush node] else []

/-- A message without any submessage. -/
def emptyMsg : TelemetryTypes.TelemetryStateMsg := ⟨none, none, none, none, none, none, 0, none, none⟩

/-- The first sample is stored and published; the second comes when the writer
has ended, so the stop frees it. -/
def storeOneLeaveOne : List Action :=
  [.writerHead, .popBatch] ++ oneMessage (some emptyMsg) (some 16) ++
    [.popBatch, .beginTransaction true 0, .insertState .done, .endTransaction .done true 5,
      .countBatch, .publish true, .publish true, .statsHead] ++
    [.receive ⟨some TelemetryTypes.topicTelemetryState, [7]⟩] ++
    [.stop, .stop, .writerHead, .stop, .statsWake 3, .stop] ++
    [.countMessage, .unpack (some emptyMsg) 0 true, .queuePush (some 32), .stop, .stop, .stop]

/-- The node that is left in the queue is freed by the stop. -/
theorem released_once_storeOneLeaveOne :
    ∃ g, Run (gatewayStep allThreads) anyStep (Gateway.init allThreads 0) storeOneLeaveOne g ∧
      g.stop = .freed ∧ g.blocks.allocated = 2 ∧ g.drained.length = 1 ∧
      (∀ b < g.blocks.allocated, g.blocks.freed b = 1) ∧ ∀ n, g.queue.nodes n = none := by
  have hexec : (exec (gatewayStep allThreads) anyStep (Gateway.init allThreads 0)
      storeOneLeaveOne).map (fun g => (stage g.stop, g.blocks.allocated, g.drained.length)) =
      some (6, 2, 1) := by decide +kernel
  obtain ⟨g, hg, hfacts⟩ := Option.map_eq_some_iff.mp hexec
  simp only [Prod.mk.injEq] at hfacts
  obtain ⟨hstage, hallocated, hdrained⟩ := hfacts
  have hrun := run_of_exec hg
  have hpc : g.stop = .freed := by cases hstop : g.stop <;> simp_all [stage]
  obtain ⟨-, -, -, hfreed⟩ := released_once hrun
  exact ⟨g, hrun, hpc, hallocated, hdrained, (hfreed hpc).1, (hfreed hpc).2.1⟩

end TelemetryPlatform.GatewayMemory
