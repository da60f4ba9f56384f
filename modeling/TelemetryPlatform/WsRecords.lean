import TelemetryPlatform.WsSteps

/-!
# The client records of the server

Record numbers in the client list, in a walk of the broadcast or in the hands
of another thread belong to accepted connections. A record keeps its descriptor
number until it forgets it, and the descriptor table never gives a number to
two connections.
-/

namespace TelemetryPlatform.WsRecords

open CStrings GuardedRuns WsFrames WsServer WsSteps

variable {cfg : WsConfig} {s t : Server} {a : Action}

/-- The records that a broadcast holds while it walks the list. -/
def walked : CasterPc → List ℕ
  | .idle => []
  | .sleeping _ _ => []
  | .passing _ visited rest => visited ++ rest
  | .sending _ visited c rest _ => visited ++ c :: rest

/-- The record that the accept thread works on. -/
def pending : AcceptPc → Option ℕ
  | .loopHead => none
  | .accepting => none
  | .registering i => some i
  | .creating i => some i
  | .dropping i => some i
  | .closing i => some i
  | .removing i => some i
  | .freeing i => some i
  | .finished => none

/-- The records that the stop has detached and not freed yet. -/
def detached : StopPc → List ℕ
  | .running => []
  | .joining => []
  | .freeing rest => rest

/-- What all steps but an accept do to the records and the descriptors:
descriptor numbers are only forgotten, descriptors only closed, flags only
cleared, and records of future connections not touched. -/
structure Descends (accepted : ℕ) (client client' : ℕ → Client) (fds fds' : ℕ → Option ℕ) :
    Prop where
  /-- The number of an accepted descriptor is fixed. -/
  desc : ∀ j, (client' j).desc = (client j).desc
  /-- A descriptor is kept or forgotten. -/
  fd : ∀ j n, (client' j).fd = some n → (client j).fd = some n
  /-- A dead record stays dead. -/
  alive : ∀ j, (client' j).alive = true → (client j).alive = true
  /-- Future records are not touched. -/
  future : ∀ j, accepted ≤ j → client' j = client j
  /-- Descriptors are kept or closed. -/
  table : ∀ n k, fds' n = some k → fds n = some k

/-- Nothing changes. -/
theorem Descends.refl {accepted : ℕ} {client : ℕ → Client} {fds : ℕ → Option ℕ} :
    Descends accepted client client fds fds :=
  ⟨fun _ => rfl, fun _ _ h => h, fun _ h => h, fun _ _ => rfl, fun _ _ h => h⟩

/-- One change after another. -/
theorem Descends.trans {accepted : ℕ} {c₁ c₂ c₃ : ℕ → Client} {f₁ f₂ f₃ : ℕ → Option ℕ}
    (h : Descends accepted c₁ c₂ f₁ f₂) (h' : Descends accepted c₂ c₃ f₂ f₃) :
    Descends accepted c₁ c₃ f₁ f₃ where
  desc j := (h'.desc j).trans (h.desc j)
  fd j n hn := h.fd j n (h'.fd j n hn)
  alive j hj := h.alive j (h'.alive j hj)
  future j hj := (h'.future j hj).trans (h.future j hj)
  table n k hk := h.table n k (h'.table n k hk)

/-- One record of an accepted connection changes. -/
theorem Descends.update {accepted i : ℕ} {client : ℕ → Client} {fds : ℕ → Option ℕ} {c : Client}
    (hi : i < accepted) (hdesc : c.desc = (client i).desc)
    (hfd : ∀ n, c.fd = some n → (client i).fd = some n)
    (halive : c.alive = true → (client i).alive = true) :
    Descends accepted client (Function.update client i c) fds fds := by
  refine ⟨fun j => ?_, fun j n => ?_, fun j => ?_, fun j hj => ?_, fun _ _ h => h⟩
  · by_cases hj : j = i
    · rw [hj, Function.update_self, hdesc]
    · rw [Function.update_of_ne hj]
  · by_cases hj : j = i
    · rw [hj, Function.update_self]
      exact hfd n
    · rw [Function.update_of_ne hj]
      exact id
  · by_cases hj : j = i
    · rw [hj, Function.update_self]
      exact halive
    · rw [Function.update_of_ne hj]
      exact id
  · rw [Function.update_of_ne (by omega)]

/-- A descriptor is closed. -/
theorem Descends.closeFd (s : Server) (accepted : ℕ) (fd : Option ℕ) :
    Descends accepted s.client (s.closeFd fd).client s.fds (s.closeFd fd).fds := by
  cases fd with
  | none => exact .refl
  | some n =>
    refine ⟨fun _ => rfl, fun _ _ h => h, fun _ h => h, fun _ _ => rfl, fun m k hm => ?_⟩
    by_cases hmn : m = n
    · rw [hmn] at hm
      simp [Server.closeFd] at hm
    · simpa [Server.closeFd, Function.update_of_ne hmn] using hm

/-- All listed clients are closed. -/
theorem Descends.closeAll {accepted : ℕ} (listed : List ℕ) (hlisted : ∀ i ∈ listed, i < accepted)
    (s : Server) :
    Descends accepted s.client (wsCloseAllClients s listed).client s.fds
      (wsCloseAllClients s listed).fds := by
  induction listed generalizing s with
  | nil => exact .refl
  | cons i rest ih =>
    have hi : i < accepted := hlisted i List.mem_cons_self
    rw [wsCloseAllClients]
    refine Descends.trans ?_ (ih (fun j hj => hlisted j (List.mem_cons_of_mem _ hj)) _)
    refine (Descends.closeFd s accepted (s.client i).fd).trans ?_
    exact .update hi (by rfl) (fun n hn => nomatch hn) (fun h => nomatch h)

/-- A thread that has cleared the alive flag of its record. -/
def dying : ClientPc → Bool
  | .closing => true
  | .clearing => true
  | .removing => true
  | .freeing => true
  | .finished => true
  | _ => false

/-- What a step of a client thread does to its record and to the list. -/
structure ThreadStep (s t : Server) (i : ℕ) (c : Client) : Prop where
  /-- Its own record is the only one that changes. -/
  client : t.client = Function.update s.client i c
  /-- The number of its descriptor is fixed. -/
  desc : c.desc = (s.client i).desc
  /-- Its descriptor is kept or forgotten. -/
  fd : ∀ n, c.fd = some n → (s.client i).fd = some n
  /-- Its alive flag is kept or cleared. -/
  alive : c.alive = true → (s.client i).alive = true
  /-- The flag is cleared once the thread is dying. -/
  dead : dying c.pc = true → c.alive = false ∨ dying (s.client i).pc = true
  /-- The thread was created and has not returned. -/
  active : (s.client i).pc ≠ .unborn ∧ (s.client i).pc ≠ .finished
  /-- It stays created. -/
  created : c.pc ≠ .unborn
  /-- The record is freed in the last step only. -/
  freed : (c.freed = (s.client i).freed ∧ c.pc ≠ .finished) ∨
    ((s.client i).pc = .freeing ∧ c.freed = (s.client i).freed + 1 ∧ c.pc = .finished)
  /-- The descriptor for a call is read from the record. -/
  callFd : ∀ n, c.pc.fd = some n → (s.client i).fd = some n ∨ (s.client i).pc.fd = some n
  /-- The record may be taken from the list. -/
  clients : t.clients = s.clients ∨
    ((s.client i).pc = .removing ∧ s.muFree = true ∧ t.clients = s.clients.erase i)
  /-- Descriptors are kept or closed. -/
  table : ∀ n k, t.fds n = some k → s.fds n = some k
  /-- The other parties stay where they are. -/
  rest : t.accepted = s.accepted ∧ t.caster = s.caster ∧ t.acceptor = s.acceptor ∧
    t.stopper = s.stopper

/-- A step that only moves the thread. -/
theorem ThreadStep.of_pc {i : ℕ} {pc : ClientPc} {handshaken : Bool}
    (hclient : t.client =
      Function.update s.client i { s.client i with pc := pc, handshaken := handshaken })
    (hclients : t.clients = s.clients) (hfds : t.fds = s.fds)
    (hrest : t.accepted = s.accepted ∧ t.caster = s.caster ∧ t.acceptor = s.acceptor ∧
      t.stopper = s.stopper)
    (hactive : (s.client i).pc ≠ .unborn ∧ (s.client i).pc ≠ .finished)
    (hpc : pc ≠ .unborn ∧ pc ≠ .finished) (hdying : dying pc = true → dying (s.client i).pc = true)
    (hfd : ∀ n, pc.fd = some n → (s.client i).fd = some n ∨ (s.client i).pc.fd = some n) :
    ∃ c, ThreadStep s t i c :=
  ⟨_, hclient, rfl, fun _ h => h, id, fun h => .inr (hdying h), hactive, hpc.1, .inl ⟨rfl, hpc.2⟩,
    hfd, .inl hclients, fun n k h => by rwa [hfds] at h, hrest⟩

/-- An operation keeps its descriptor. -/
theorem advance_fd (op : SendOp) (n : ℕ) : (op.advance n).fd = op.fd := by
  unfold SendOp.advance
  split <;> rfl

/-- A thread with an operation sends on the descriptor of that operation. -/
theorem fd_of_op {pc : ClientPc} {op : SendOp} (h : pc.op = some op) : pc.fd = op.fd := by
  cases pc <;> cases h <;> rfl

/-- A successful send only moves the thread that sends. -/
theorem ThreadStep.of_send {i n : ℕ} {op : SendOp} {pc : ClientPc} {handshaken : Bool}
    (f : Client → Client)
    (hmap : (s.send op n).map (fun s' => s'.setClient i f) = some t)
    (hf : f (s.client i) = { s.client i with pc := pc, handshaken := handshaken })
    (hop : (s.client i).pc.op = some op) (hpc : pc ≠ .unborn ∧ pc ≠ .finished)
    (hdying : dying pc = false) (hnext : pc.fd = none ∨ pc.fd = (op.advance n).fd) :
    ∃ c, ThreadStep s t i c := by
  obtain ⟨s', hsend, hset⟩ := Option.map_eq_some_iff.mp hmap
  obtain ⟨buffer, rest, k, -, -, -, -, hs'⟩ := send_eq_some hsend
  have hclient : t.client =
      Function.update s.client i { s.client i with pc := pc, handshaken := handshaken } := by
    rw [← hset, hs', ← hf]
    rfl
  rw [hs'] at hset
  subst hset
  refine ThreadStep.of_pc hclient rfl rfl ⟨rfl, rfl, rfl, rfl⟩ ?_ hpc ?_ ?_
  · constructor <;> intro h <;> rw [h] at hop <;> cases hop
  · intro h
    rw [hdying] at h
    cases h
  · intro m hm
    rw [fd_of_op hop]
    rcases hnext with hnone | hsame
    · rw [hnone] at hm
      cases hm
    · rw [hsame, advance_fd] at hm
      exact .inr hm

/-- A step that moves a thread without any send. -/
theorem threadStep_goto {i : ℕ} {pc : ClientPc}
    (hactive : (s.client i).pc ≠ .unborn ∧ (s.client i).pc ≠ .finished)
    (hpc : pc ≠ .unborn ∧ pc ≠ .finished) (hdying : dying pc = true → dying (s.client i).pc = true)
    (hfd : pc.fd = none) : ∃ c, ThreadStep s (s.goto i pc) i c :=
  ThreadStep.of_pc rfl rfl rfl ⟨rfl, rfl, rfl, rfl⟩ hactive hpc hdying fun n h => by
    rw [hfd] at h
    cases h

/-- A step that starts a call. -/
theorem threadStep_startSending {i : ℕ} {u : WsUnit} {leave : Bool}
    (hactive : (s.client i).pc ≠ .unborn ∧ (s.client i).pc ≠ .finished) :
    ∃ c, ThreadStep s (s.startSending i u leave) i c :=
  ThreadStep.of_pc rfl rfl rfl ⟨rfl, rfl, rfl, rfl⟩ hactive ⟨nofun, nofun⟩ nofun fun _ h => .inl h

/-- The handling of a received frame moves the thread or starts a call. -/
theorem threadStep_handleFrame {i : ℕ} (hpc : (s.client i).pc = .receiving) (opcode : UInt8)
    (payload : Bytes) : ∃ c, ThreadStep s (handleFrame cfg s i opcode payload) i c := by
  have hactive : (s.client i).pc ≠ .unborn ∧ (s.client i).pc ≠ .finished := by
    rw [hpc]
    exact ⟨nofun, nofun⟩
  unfold handleFrame handleText
  split_ifs
  · exact threadStep_startSending hactive
  · exact threadStep_startSending hactive
  · exact threadStep_goto hactive ⟨nofun, nofun⟩ nofun rfl
  · exact threadStep_goto hactive ⟨nofun, nofun⟩ nofun rfl
  · exact threadStep_goto hactive ⟨nofun, nofun⟩ nofun rfl
  · exact threadStep_startSending hactive
  · exact threadStep_goto hactive ⟨nofun, nofun⟩ nofun rfl

/-- Every step of a client thread is of this kind. -/
theorem clientStep_threadStep {i : ℕ} {input : ClientInput}
    (hstep : clientStep cfg s i input = some t) : ∃ c, ThreadStep s t i c := by
  have hactive : (s.client i).pc ≠ .unborn ∧ (s.client i).pc ≠ .finished := by
    constructor <;> intro h <;> simp [clientStep, h] at hstep
  unfold clientStep at hstep
  split at hstep
  case h_1 =>
    cases hstep
    exact ThreadStep.of_pc rfl rfl rfl ⟨rfl, rfl, rfl, rfl⟩ hactive ⟨nofun, nofun⟩ nofun
      fun _ h => .inl h
  case h_2 =>
    cases hstep
    exact threadStep_goto hactive ⟨nofun, nofun⟩ nofun rfl
  case h_3 fd accept hpc =>
    split_ifs at hstep
    · cases hstep
      refine ThreadStep.of_pc rfl rfl rfl ⟨rfl, rfl, rfl, rfl⟩ hactive ⟨nofun, nofun⟩ nofun ?_
      intro n hn
      rw [hpc]
      exact .inr hn
    · cases hstep
      exact threadStep_goto hactive ⟨nofun, nofun⟩ nofun rfl
  case h_4 op n hpc => -- part of the answer is sent
    by_cases hend : (op.advance n).todo = []
    · simp only [hend, if_true] at hstep
      exact ThreadStep.of_send _ hstep rfl (by rw [hpc]; rfl) ⟨nofun, nofun⟩ rfl (.inl rfl)
    · simp only [hend, if_false] at hstep
      exact ThreadStep.of_send _ hstep rfl (by rw [hpc]; rfl) ⟨nofun, nofun⟩ rfl
        (.inr rfl)
  case h_5 =>
    cases hstep
    exact threadStep_goto hactive ⟨nofun, nofun⟩ nofun rfl
  case h_6 =>
    split_ifs at hstep
    cases hstep
    exact ThreadStep.of_pc rfl rfl rfl ⟨rfl, rfl, rfl, rfl⟩ hactive ⟨nofun, nofun⟩ nofun nofun
  case h_7 =>
    split_ifs at hstep
    · cases hstep
      exact threadStep_startSending hactive
    · cases hstep
      exact threadStep_goto hactive ⟨nofun, nofun⟩ nofun rfl
  case h_8 =>
    split_ifs at hstep
    · cases hstep
      exact threadStep_goto hactive ⟨nofun, nofun⟩ nofun rfl
    · cases hstep
      exact threadStep_goto hactive ⟨nofun, nofun⟩ nofun rfl
  case h_9 =>
    cases hstep
    exact threadStep_goto hactive ⟨nofun, nofun⟩ nofun rfl
  case h_10 opcode payload hpc =>
    cases hstep
    exact threadStep_handleFrame hpc opcode payload
  case h_11 =>
    cases hstep
    exact threadStep_startSending hactive
  case h_12 =>
    cases hstep
    exact threadStep_startSending hactive
  case h_13 op leave n hpc => -- part of a frame is sent
    by_cases hend : (op.advance n).todo = []
    · simp only [hend, if_true] at hstep
      cases leave with
      | true => exact ThreadStep.of_send _ hstep rfl (by rw [hpc]; rfl) ⟨nofun, nofun⟩ rfl (.inl rfl)
      | false => exact ThreadStep.of_send _ hstep rfl (by rw [hpc]; rfl) ⟨nofun, nofun⟩ rfl (.inl rfl)
    · simp only [hend, if_false] at hstep
      exact ThreadStep.of_send _ hstep rfl (by rw [hpc]; rfl) ⟨nofun, nofun⟩ rfl
        (.inr rfl)
  case h_14 op leave hpc =>
    cases hstep
    cases leave with
    | true => exact threadStep_goto hactive ⟨nofun, nofun⟩ nofun rfl
    | false => exact threadStep_goto hactive ⟨nofun, nofun⟩ nofun rfl
  case h_15 => -- the alive flag is cleared
    cases hstep
    exact ⟨_, rfl, rfl, fun _ h => h, nofun, fun _ => .inl rfl, hactive, nofun, .inl ⟨rfl, nofun⟩,
      nofun, .inl rfl, fun _ _ h => h, rfl, rfl, rfl, rfl⟩
  case h_16 hpc => -- the descriptor is closed
    split at hstep
    · rename_i m hfd
      cases hstep
      exact ⟨_, rfl, rfl, fun _ h => h, id, fun _ => .inr (by rw [hpc]; rfl), hactive, nofun,
        .inl ⟨rfl, nofun⟩, nofun, .inl rfl, (Descends.closeFd s s.accepted (some m)).table,
        rfl, rfl, rfl, rfl⟩
    · cases hstep
      exact threadStep_goto hactive ⟨nofun, nofun⟩ (fun _ => by rw [hpc]; rfl) rfl
  case h_17 hpc => -- the descriptor is forgotten
    cases hstep
    exact ⟨_, rfl, rfl, nofun, id, fun _ => .inr (by rw [hpc]; rfl), hactive, nofun,
      .inl ⟨rfl, nofun⟩, nofun, .inl rfl, fun _ _ h => h, rfl, rfl, rfl, rfl⟩
  case h_18 hpc => -- the record is taken from the list
    split_ifs at hstep with hmu
    cases hstep
    exact ⟨_, rfl, rfl, fun _ h => h, id, fun _ => .inr (by rw [hpc]; rfl), hactive, nofun,
      .inl ⟨rfl, nofun⟩, nofun, .inr ⟨hpc, hmu, rfl⟩, fun _ _ h => h, rfl, rfl, rfl, rfl⟩
  case h_19 hpc => -- the record is freed
    cases hstep
    exact ⟨_, rfl, rfl, fun _ h => h, id, fun _ => .inr (by rw [hpc]; rfl), hactive, nofun,
      .inr ⟨hpc, rfl, rfl⟩, nofun, .inl rfl, fun _ _ h => h, rfl, rfl, rfl, rfl⟩
  case h_20 => cases hstep

/-- Which records the parties know, and which descriptors belong to them. -/
structure Known (s : Server) : Prop where
  /-- Future records are blank. -/
  blank : ∀ i, s.accepted ≤ i → s.client i = Client.blank
  /-- Listed records are accepted. -/
  listed : ∀ i ∈ s.clients, i < s.accepted
  /-- Walked records are accepted. -/
  walked : ∀ i ∈ walked s.caster, i < s.accepted
  /-- The record of the accept thread has no thread yet. -/
  pending : ∀ i, pending s.acceptor = some i → i < s.accepted ∧ (s.client i).pc = .unborn
  /-- Detached records are accepted. -/
  detached : ∀ i ∈ detached s.stopper, i < s.accepted
  /-- A record holds the descriptor number of its connection. -/
  fd_eq : ∀ i n, (s.client i).fd = some n → n = (s.client i).desc
  /-- An open descriptor is the number of its connection. -/
  table : ∀ n k, s.fds n = some k → k < s.accepted ∧ n = (s.client k).desc
  /-- A call of a thread gets the number of its connection. -/
  threadFd : ∀ i n, (s.client i).pc.fd = some n → n = (s.client i).desc
  /-- So does a call of the broadcast. -/
  casterFd : ∀ c msg op n, s.caster.op = some (c, msg, op) → op.fd = some n → n = (s.client c).desc

/-- The start state knows nothing. -/
theorem known_init : Known Server.init where
  blank _ _ := rfl
  listed _ h := absurd h List.not_mem_nil
  walked _ h := absurd h List.not_mem_nil
  pending _ h := nomatch h
  detached _ h := absurd h List.not_mem_nil
  fd_eq _ _ h := nomatch h
  table _ _ h := nomatch h
  threadFd _ _ h := nomatch h
  casterFd _ _ _ _ h := nomatch h

/-- An operation of a thread holds the number of its connection. -/
theorem Known.opFd (h : Known s) {i n : ℕ} {op : SendOp} (hop : (s.client i).pc.op = some op)
    (hn : op.fd = some n) : n = (s.client i).desc :=
  h.threadFd i n (by rw [fd_of_op hop, hn])

/-- A created thread belongs to an accepted connection. -/
theorem Known.lt_of_pc (h : Known s) {i : ℕ} (hpc : (s.client i).pc ≠ .unborn) :
    i < s.accepted := by
  by_contra hge
  rw [h.blank i (not_lt.mp hge)] at hpc
  exact hpc rfl

/-- The client of a call of the broadcast is accepted. -/
theorem Known.lt_of_caster (h : Known s) {c : ℕ} {msg : Bytes} {op : SendOp}
    (hop : s.caster.op = some (c, msg, op)) : c < s.accepted := by
  refine h.walked c ?_
  cases hcaster : s.caster with
  | sending msg' visited c' rest op' =>
    rw [hcaster] at hop
    cases hop
    simp [WsRecords.walked]
  | idle => rw [hcaster] at hop; cases hop
  | sleeping _ _ => rw [hcaster] at hop; cases hop
  | passing _ _ _ => rw [hcaster] at hop; cases hop

/-- A step of a client thread descends. -/
theorem ThreadStep.descends {i : ℕ} {c : Client} (hstep : ThreadStep s t i c) (h : Known s) :
    Descends s.accepted s.client t.client s.fds t.fds := by
  have hi := h.lt_of_pc hstep.active.1
  have hclient : Descends s.accepted s.client (Function.update s.client i c) s.fds s.fds :=
    .update hi hstep.desc hstep.fd hstep.alive
  rw [← hstep.client] at hclient
  exact ⟨hclient.desc, hclient.fd, hclient.alive, hclient.future, hstep.table⟩

/-- What a descending step has to show for its own parts. -/
theorem Known.descend (h : Known s)
    (hdescend : Descends s.accepted s.client t.client s.fds t.fds) (haccepted : t.accepted = s.accepted)
    (hlisted : ∀ i ∈ t.clients, i < s.accepted) (hwalked : ∀ i ∈ WsRecords.walked t.caster, i < s.accepted)
    (hpending : ∀ i, WsRecords.pending t.acceptor = some i → i < s.accepted ∧ (t.client i).pc = .unborn)
    (hdetached : ∀ i ∈ WsRecords.detached t.stopper, i < s.accepted)
    (hthread : ∀ i n, (t.client i).pc.fd = some n → n = (s.client i).desc)
    (hcaster : ∀ c msg op n, t.caster.op = some (c, msg, op) → op.fd = some n →
      n = (s.client c).desc) : Known t where
  blank i hi := by
    rw [haccepted] at hi
    rw [hdescend.future i hi]
    exact h.blank i hi
  listed i hi := by
    rw [haccepted]
    exact hlisted i hi
  walked i hi := by
    rw [haccepted]
    exact hwalked i hi
  pending i hi := by
    rw [haccepted]
    exact hpending i hi
  detached i hi := by
    rw [haccepted]
    exact hdetached i hi
  fd_eq i n hn := by
    rw [hdescend.desc]
    exact h.fd_eq i n (hdescend.fd i n hn)
  table n k hk := by
    rw [haccepted, hdescend.desc]
    exact h.table n k (hdescend.table n k hk)
  threadFd i n hn := by
    rw [hdescend.desc]
    exact hthread i n hn
  casterFd c msg op n hop hn := by
    rw [hdescend.desc]
    exact hcaster c msg op n hop hn

/-- A step of a client thread keeps the knowledge. -/
theorem Known.thread (h : Known s) {i : ℕ} {c : Client} (hstep : ThreadStep s t i c) : Known t := by
  have hdescend := hstep.descends h
  obtain ⟨haccepted, hcaster, hacceptor, hstopper⟩ := hstep.rest
  refine h.descend hdescend haccepted ?_ ?_ ?_ ?_ ?_ ?_
  · intro j hj
    rcases hstep.clients with hsame | ⟨-, -, herase⟩
    · exact h.listed j (hsame ▸ hj)
    · rw [herase] at hj
      exact h.listed j (List.mem_of_mem_erase hj)
  · rw [hcaster]
    exact h.walked
  · intro j hj
    rw [hacceptor] at hj
    obtain ⟨hlt, hpc⟩ := h.pending j hj
    have hne : j ≠ i := fun heq => hstep.active.1 (heq ▸ hpc)
    rw [hstep.client, Function.update_of_ne hne]
    exact ⟨hlt, hpc⟩
  · rw [hstopper]
    exact h.detached
  · intro j n hn
    by_cases hj : j = i
    · rw [hj, hstep.client, Function.update_self] at hn
      rw [hj]
      rcases hstep.callFd n hn with hfd | hfd
      · exact h.fd_eq i n hfd
      · exact h.threadFd i n hfd
    · rw [hstep.client, Function.update_of_ne hj] at hn
      exact h.threadFd j n hn
  · rw [hcaster]
    exact h.casterFd

/-- An accepted connection is known. -/
theorem Known.accept (h : Known s) (n : ℕ) :
    Known { s with
      client := Function.update s.client s.accepted ⟨some n, true, 0, .unborn, false, n⟩
      accepted := s.accepted + 1
      fds := Function.update s.fds n (some s.accepted)
      acceptor := .registering s.accepted } where
  blank i hi := by
    dsimp only at hi ⊢
    rw [Function.update_of_ne (by omega)]
    exact h.blank i (by omega)
  listed i hi := Nat.lt_succ_of_lt (h.listed i hi)
  walked i hi := Nat.lt_succ_of_lt (h.walked i hi)
  pending i hi := by
    cases hi
    dsimp only
    rw [Function.update_self]
    exact ⟨Nat.lt_succ_self _, rfl⟩
  detached i hi := Nat.lt_succ_of_lt (h.detached i hi)
  fd_eq i m hm := by
    dsimp only at hm ⊢
    by_cases hi : i = s.accepted
    · rw [hi, Function.update_self] at hm ⊢
      exact (Option.some.inj hm).symm
    · rw [Function.update_of_ne hi] at hm ⊢
      exact h.fd_eq i m hm
  table m k hk := by
    dsimp only at hk ⊢
    by_cases hm : m = n
    · rw [hm, Function.update_self] at hk
      cases hk
      rw [Function.update_self, hm]
      exact ⟨Nat.lt_succ_self _, rfl⟩
    · rw [Function.update_of_ne hm] at hk
      obtain ⟨hlt, hdesc⟩ := h.table m k hk
      rw [Function.update_of_ne (by omega)]
      exact ⟨by omega, hdesc⟩
  threadFd i m hm := by
    dsimp only at hm ⊢
    by_cases hi : i = s.accepted
    · rw [hi, Function.update_self] at hm
      cases hm
    · rw [Function.update_of_ne hi] at hm ⊢
      exact h.threadFd i m hm
  casterFd c msg op m hop hm := by
    dsimp only at hop ⊢
    have hc := h.lt_of_caster hop
    rw [Function.update_of_ne (by omega)]
    exact h.casterFd c msg op m hop hm

/-- Descriptors for calls after a record changes that keeps its place or has no call. -/
theorem fd_of_update {i j n : ℕ} {c : Client} (hc : c.pc = (s.client i).pc ∨ c.pc.fd = none)
    (hn : (Function.update s.client i c j).pc.fd = some n) : (s.client j).pc.fd = some n := by
  by_cases hj : j = i
  · rw [hj, Function.update_self] at hn
    rcases hc with hsame | hnone
    · rw [hj, ← hsame]
      exact hn
    · rw [hnone] at hn
      cases hn
  · rwa [Function.update_of_ne hj] at hn

/-- A record that changes otherwise leaves all threads where they are. -/
theorem pc_of_update {client : ℕ → Client} {i : ℕ} {c : Client} (hc : c.pc = (client i).pc) (j : ℕ) :
    (Function.update client i c j).pc = (client j).pc := by
  by_cases hj : j = i
  · rw [hj, Function.update_self, hc]
  · rw [Function.update_of_ne hj]

/-- A step of the accept thread descends, unless it accepts a connection. -/
theorem acceptorStep_descends (h : Known s) {input : AcceptInput} (hstep : AcceptorStep s input t)
    (hold : ∀ n, input ≠ .accepted n) :
    t.accepted = s.accepted ∧ Descends s.accepted s.client t.client s.fds t.fds := by
  have hown : ∀ i, WsRecords.pending s.acceptor = some i → i < s.accepted :=
    fun i hi => (h.pending i hi).1
  cases hstep with
  | enters => exact ⟨rfl, .refl⟩
  | returns => exact ⟨rfl, .refl⟩
  | retries => exact ⟨rfl, .refl⟩
  | accepts n => exact absurd rfl (hold n)
  | lists i hacceptor hmu => exact ⟨rfl, .refl⟩
  | creates i hacceptor =>
    have hi := hown i (by rw [hacceptor]; rfl)
    exact ⟨rfl, .update hi rfl (fun _ h => h) id⟩
  | fails i hacceptor => exact ⟨rfl, .refl⟩
  | drops i hacceptor =>
    have hi := hown i (by rw [hacceptor]; rfl)
    exact ⟨rfl, .update hi rfl (fun _ h => h) nofun⟩
  | closes i hacceptor => exact ⟨rfl, .closeFd s s.accepted (some (s.client i).desc)⟩
  | removes i hacceptor hmu => exact ⟨rfl, .refl⟩
  | frees i hacceptor =>
    have hi := hown i (by rw [hacceptor]; rfl)
    exact ⟨rfl, .update hi rfl (fun _ h => h) id⟩

/-- A step of the accept thread keeps the knowledge. -/
theorem Known.acceptor (h : Known s) {input : AcceptInput} (hstep : AcceptorStep s input t) :
    Known t := by
  have hdescend := acceptorStep_descends h hstep
  have hown := h.pending
  cases hstep with
  | enters =>
    exact h.descend (hdescend nofun).2 rfl h.listed h.walked nofun h.detached h.threadFd h.casterFd
  | returns =>
    exact h.descend (hdescend nofun).2 rfl h.listed h.walked nofun h.detached h.threadFd h.casterFd
  | retries =>
    exact h.descend (hdescend nofun).2 rfl h.listed h.walked nofun h.detached h.threadFd h.casterFd
  | accepts n => exact h.accept n
  | lists i hacceptor hmu =>
    rw [hacceptor] at hown
    refine h.descend (hdescend nofun).2 rfl (fun j hj => ?_) h.walked hown h.detached h.threadFd
      h.casterFd
    rcases List.mem_cons.mp hj with rfl | hj
    · exact (hown j rfl).1
    · exact h.listed j hj
  | creates i hacceptor =>
    exact h.descend (hdescend nofun).2 rfl h.listed h.walked nofun h.detached
      (fun j n hn => h.threadFd j n (fd_of_update (.inr rfl) hn)) h.casterFd
  | fails i hacceptor =>
    rw [hacceptor] at hown
    exact h.descend (hdescend nofun).2 rfl h.listed h.walked hown h.detached h.threadFd h.casterFd
  | drops i hacceptor =>
    rw [hacceptor] at hown
    refine h.descend (hdescend nofun).2 rfl h.listed h.walked (fun j hj => ?_) h.detached
      (fun j n hn => h.threadFd j n (fd_of_update (.inl (by rfl)) hn)) h.casterFd
    exact ⟨(hown j hj).1, (pc_of_update (by rfl) j).trans (hown j hj).2⟩
  | closes i hacceptor =>
    rw [hacceptor] at hown
    exact h.descend (hdescend nofun).2 rfl h.listed h.walked hown h.detached h.threadFd h.casterFd
  | removes i hacceptor hmu =>
    rw [hacceptor] at hown
    exact h.descend (hdescend nofun).2 rfl (fun j hj => h.listed j (List.mem_of_mem_erase hj))
      h.walked hown h.detached h.threadFd h.casterFd
  | frees i hacceptor =>
    exact h.descend (hdescend nofun).2 rfl h.listed h.walked nofun h.detached
      (fun j n hn => h.threadFd j n (fd_of_update (.inr rfl) hn)) h.casterFd

/-- Closing all clients changes records and descriptors only. -/
theorem wsCloseAllClients_frame (listed : List ℕ) (s : Server) :
    wsCloseAllClients s listed =
      { s with client := (wsCloseAllClients s listed).client
               fds := (wsCloseAllClients s listed).fds } ∧
      ∀ j, ((wsCloseAllClients s listed).client j).pc = (s.client j).pc ∧
        ((wsCloseAllClients s listed).client j).handshaken = (s.client j).handshaken ∧
        ((wsCloseAllClients s listed).client j).freed = (s.client j).freed := by
  induction listed generalizing s with
  | nil => exact ⟨rfl, fun _ => ⟨rfl, rfl, rfl⟩⟩
  | cons i rest ih =>
    rw [wsCloseAllClients]
    obtain ⟨heq, hkeep⟩ := ih ((s.closeFd (s.client i).fd).setClient i fun c =>
      { c with alive := false, fd := none })
    constructor
    · rw [heq, closeFd_eq]
      rfl
    · intro j
      obtain ⟨hpc, hshaken, hfreed⟩ := hkeep j
      rw [hpc, hshaken, hfreed, closeFd_eq]
      by_cases hj : j = i
      · rw [hj, client_setClient_self]
        exact ⟨rfl, rfl, rfl⟩
      · rw [client_setClient_of_ne _ _ hj]
        exact ⟨rfl, rfl, rfl⟩

/-- The start of a broadcast descends. -/
theorem broadcastStep_descends (h : Known s) {msg : Bytes} {dropRoll : ℕ}
    (hstep : BroadcastStep cfg s msg dropRoll t) :
    t.accepted = s.accepted ∧ Descends s.accepted s.client t.client s.fds t.fds := by
  cases hstep with
  | closes hcut =>
    have hdescend := Descends.closeAll s.clients h.listed { s with cutMsgs := s.cutMsgs + 1 }
    rw [(wsCloseAllClients_frame s.clients { s with cutMsgs := s.cutMsgs + 1 }).1]
    exact ⟨rfl, hdescend⟩
  | suppressed hcut => exact ⟨rfl, .refl⟩
  | dropped hcut hdrop => exact ⟨rfl, .refl⟩
  | sleeps wakeAt hcut hdrop => exact ⟨rfl, .refl⟩
  | walks hcut hdrop => exact ⟨rfl, .refl⟩

/-- The start of a broadcast keeps the knowledge. -/
theorem Known.broadcast (h : Known s) {msg : Bytes} {dropRoll : ℕ}
    (hstep : BroadcastStep cfg s msg dropRoll t) : Known t := by
  have hdescend := (broadcastStep_descends h hstep).2
  cases hstep with
  | closes hcut =>
    obtain ⟨heq, hkeep⟩ := wsCloseAllClients_frame s.clients { s with cutMsgs := s.cutMsgs + 1 }
    rw [heq] at hdescend ⊢
    refine h.descend hdescend rfl h.listed h.walked (fun j hj => ?_) h.detached (fun j n hn => ?_)
      h.casterFd
    · obtain ⟨hlt, hpc⟩ := h.pending j hj
      exact ⟨hlt, (hkeep j).1.trans hpc⟩
    · have hpc := (hkeep j).1
      dsimp only at hn hpc
      rw [hpc] at hn
      exact h.threadFd j n hn
  | suppressed hcut =>
    exact h.descend hdescend rfl h.listed h.walked h.pending h.detached h.threadFd h.casterFd
  | dropped hcut hdrop =>
    exact h.descend hdescend rfl h.listed h.walked h.pending h.detached h.threadFd h.casterFd
  | sleeps wakeAt hcut hdrop =>
    exact h.descend hdescend rfl h.listed nofun h.pending h.detached h.threadFd nofun
  | walks hcut hdrop =>
    exact h.descend hdescend rfl h.listed h.listed h.pending h.detached h.threadFd nofun

/-- What the broadcast makes of a record that it releases. -/
theorem release_client (s : Server) (msg : Bytes) (visited rest : List ℕ) (c : ℕ) :
    (s.release msg visited c rest).client =
      Function.update s.client c { s.client c with freed := (s.client c).freed + 1 } := by
  rw [Server.release, Server.setClient, closeFd_eq]

/-- What else changes where the broadcast releases a record. -/
theorem release_eq (s : Server) (msg : Bytes) (visited rest : List ℕ) (c : ℕ) :
    s.release msg visited c rest =
      { s with client := (s.release msg visited c rest).client
               fds := (s.release msg visited c rest).fds
               clients := visited ++ rest
               caster := .passing msg visited rest } := by
  rw [Server.release, closeFd_eq]
  rfl

/-- Releasing a record descends. -/
theorem release_descends {c : ℕ} (hc : c < s.accepted) (msg : Bytes) (visited rest : List ℕ) :
    Descends s.accepted s.client (s.release msg visited c rest).client s.fds
      (s.release msg visited c rest).fds := by
  have hclose := Descends.closeFd s s.accepted (s.client c).fd
  have hclient : (s.closeFd (s.client c).fd).client = s.client := by rw [closeFd_eq]
  rw [hclient] at hclose
  rw [release_client]
  exact hclose.trans (.update hc rfl (fun _ h => h) id)

/-- A record that the broadcast releases stays known. -/
theorem Known.release (h : Known s) {msg : Bytes} {visited rest : List ℕ} {c : ℕ}
    (hmem : ∀ i ∈ visited ++ c :: rest, i < s.accepted) : Known (s.release msg visited c rest) := by
  have hc : c < s.accepted := hmem c (by simp)
  have hkept : ∀ i ∈ visited ++ rest, i < s.accepted := by
    intro i hi
    refine hmem i ?_
    rw [List.mem_append, List.mem_cons]
    rcases List.mem_append.mp hi with hi | hi
    · exact .inl hi
    · exact .inr (.inr hi)
  have hrecord := release_client s msg visited rest c
  rw [release_eq]
  refine h.descend (release_descends hc msg visited rest) rfl hkept hkept (fun j hj => ?_) h.detached
    (fun j n hn => ?_) nofun
  · obtain ⟨hlt, hpc⟩ := h.pending j hj
    refine ⟨hlt, ?_⟩
    dsimp only
    rw [hrecord]
    exact (pc_of_update (by rfl) j).trans hpc
  · dsimp only at hn
    rw [hrecord] at hn
    exact h.threadFd j n (fd_of_update (.inl (by rfl)) hn)

/-- Clearing the alive flag of a record keeps the knowledge. -/
theorem Known.clearAlive (h : Known s) {c : ℕ} (hc : c < s.accepted) :
    Known (s.setClient c fun r => { r with alive := false }) := by
  refine h.descend (.update hc rfl (fun _ h => h) nofun) rfl h.listed h.walked (fun j hj => ?_)
    h.detached (fun j n hn => h.threadFd j n (fd_of_update (.inl (by rfl)) hn)) h.casterFd
  obtain ⟨hlt, hpc⟩ := h.pending j hj
  exact ⟨hlt, (pc_of_update (by rfl) j).trans hpc⟩

/-- A step of the broadcast descends. -/
theorem casterStep_descends (h : Known s) {input : CasterInput} (hstep : CasterStep s input t) :
    t.accepted = s.accepted ∧ Descends s.accepted s.client t.client s.fds t.fds := by
  have hwalked := h.walked
  cases hstep with
  | wakes => exact ⟨rfl, .refl⟩
  | ends => exact ⟨rfl, .refl⟩
  | starts => exact ⟨rfl, .refl⟩
  | releases msg visited c rest hcaster hdead =>
    rw [hcaster] at hwalked
    have hc : c < s.accepted := hwalked c (by simp [WsRecords.walked])
    refine ⟨?_, release_descends hc msg visited rest⟩
    rw [release_eq]
  | completes => exact ⟨rfl, .refl⟩
  | sends => exact ⟨rfl, .refl⟩
  | fails msg visited c rest op hcaster =>
    rw [hcaster] at hwalked
    have hc : c < s.accepted := hwalked c (by simp [WsRecords.walked])
    have hclear : Descends s.accepted s.client (Function.update s.client c
        { s.client c with alive := false }) s.fds s.fds := .update hc rfl (fun _ h => h) nofun
    have hrelease := release_descends (s := s.setClient c fun r => { r with alive := false }) hc msg
      visited rest
    refine ⟨?_, hclear.trans hrelease⟩
    rw [release_eq]
    rfl

/-- A step of the broadcast keeps the knowledge. -/
theorem Known.caster (h : Known s) {input : CasterInput} (hstep : CasterStep s input t) :
    Known t := by
  have hdescend := (casterStep_descends h hstep).2
  have hwalked := h.walked
  have hcasterFd := h.casterFd
  cases hstep with
  | wakes => exact h.descend hdescend rfl h.listed h.listed h.pending h.detached h.threadFd nofun
  | ends => exact h.descend hdescend rfl h.listed nofun h.pending h.detached h.threadFd nofun
  | starts msg visited c rest hcaster halive =>
    rw [hcaster] at hwalked
    refine h.descend hdescend rfl h.listed hwalked h.pending h.detached h.threadFd ?_
    intro c' msg' op n hop hn
    cases hop
    exact h.fd_eq c n hn
  | releases msg visited c rest hcaster hdead =>
    rw [hcaster] at hwalked
    exact h.release hwalked
  | completes msg visited c rest op n k buffer later hcaster =>
    rw [hcaster] at hwalked
    refine h.descend hdescend rfl h.listed (fun i hi => hwalked i ?_) h.pending h.detached h.threadFd
      nofun
    simpa [WsRecords.walked] using hi
  | sends msg visited c rest op n k buffer later hcaster =>
    rw [hcaster] at hwalked hcasterFd
    refine h.descend hdescend rfl h.listed hwalked h.pending h.detached h.threadFd ?_
    intro c' msg' op' m hop hm
    cases hop
    rw [advance_fd] at hm
    exact hcasterFd c msg op m rfl hm
  | fails msg visited c rest op hcaster =>
    rw [hcaster] at hwalked
    have hc : c < s.accepted := hwalked c (by simp [WsRecords.walked])
    exact (h.clearAlive hc).release hwalked

/-- A step of the stop descends. -/
theorem stopStep_descends (h : Known s) (hstep : StopStep s t) :
    t.accepted = s.accepted ∧ Descends s.accepted s.client t.client s.fds t.fds := by
  have hdetached := h.detached
  cases hstep with
  | called => exact ⟨rfl, .refl⟩
  | detaches => exact ⟨rfl, .refl⟩
  | frees c rest hstopper =>
    rw [hstopper] at hdetached
    have hc : c < s.accepted := hdetached c List.mem_cons_self
    have hclose := Descends.closeFd s s.accepted (s.client c).fd
    rw [closeFd_eq] at hclose ⊢
    exact ⟨rfl, hclose.trans (.update hc rfl (fun _ h => h) nofun)⟩

/-- A step of the stop keeps the knowledge. -/
theorem Known.stop (h : Known s) (hstep : StopStep s t) : Known t := by
  have hdescend := (stopStep_descends h hstep).2
  have hdetached := h.detached
  cases hstep with
  | called =>
    exact h.descend hdescend rfl h.listed h.walked h.pending nofun h.threadFd h.casterFd
  | detaches =>
    exact h.descend hdescend rfl nofun h.walked h.pending h.listed h.threadFd h.casterFd
  | frees c rest hstopper =>
    rw [hstopper] at hdetached
    rw [closeFd_eq] at hdescend ⊢
    refine h.descend hdescend rfl h.listed h.walked (fun j hj => ?_)
      (fun j hj => hdetached j (List.mem_cons_of_mem c hj))
      (fun j n hn => h.threadFd j n (fd_of_update (.inl (by rfl)) hn)) h.casterFd
    obtain ⟨hlt, hpc⟩ := h.pending j hj
    exact ⟨hlt, (pc_of_update (by rfl) j).trans hpc⟩

/-- Every step of the server keeps the knowledge. -/
theorem Known.step (h : Known s) (hstep : serverStep cfg s a = some t) : Known t := by
  cases serverStep_cases hstep with
  | clock now hle =>
    exact h.descend .refl rfl h.listed h.walked h.pending h.detached h.threadFd h.casterFd
  | acceptor input _ hacceptor => exact h.acceptor hacceptor
  | client i input _ hclient =>
    obtain ⟨c, hthread⟩ := clientStep_threadStep hclient
    exact h.thread hthread
  | broadcast msg dropRoll jitterRoll _ hidle hbroadcast => exact h.broadcast hbroadcast
  | caster input _ hcaster => exact h.caster hcaster
  | stop _ hstop => exact h.stop hstop

/-- In every reachable state the parties know accepted records only. -/
theorem known_of_run {ok : Server → Action → Prop} {actions : List Action}
    (hrun : Run (serverStep cfg) ok Server.init actions s) : Known s :=
  hrun.invariant known_init fun _ _ _ _ hstep h => h.step hstep

/-- Every step descends, or accepts a connection. -/
theorem serverStep_descends (h : Known s) (hstep : serverStep cfg s a = some t) :
    (t.accepted = s.accepted ∧ Descends s.accepted s.client t.client s.fds t.fds) ∨
      ∃ n, s.fds n = none ∧ t.accepted = s.accepted + 1 ∧
        t.client = Function.update s.client s.accepted ⟨some n, true, 0, .unborn, false, n⟩ ∧
        t.fds = Function.update s.fds n (some s.accepted) ∧ t.acceptor = .registering s.accepted := by
  cases serverStep_cases hstep with
  | clock now hle => exact .inl ⟨rfl, .refl⟩
  | acceptor input _ hacceptor =>
    by_cases hold : ∀ n, input ≠ .accepted n
    · exact .inl (acceptorStep_descends h hacceptor hold)
    · cases hacceptor with
      | accepts n hpc hfree => exact .inr ⟨n, hfree, rfl, rfl, rfl, rfl⟩
      | _ => exact absurd nofun hold
  | client i input _ hclient =>
    obtain ⟨c, hthread⟩ := clientStep_threadStep hclient
    exact .inl ⟨hthread.rest.1, hthread.descends h⟩
  | broadcast msg dropRoll jitterRoll _ hidle hbroadcast =>
    exact .inl (broadcastStep_descends h hbroadcast)
  | caster input _ hcaster => exact .inl (casterStep_descends h hcaster)
  | stop _ hstop => exact .inl (stopStep_descends h hstop)

end TelemetryPlatform.WsRecords
