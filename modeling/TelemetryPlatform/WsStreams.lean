import TelemetryPlatform.WsCalls

/-!
# What the calls have written

As long as a connection is open, what a call has written to it is what its
operation has sent. As long as every send reaches the connection of its own
client, a connection carries calls for its own client only, and a client whose
handshake is complete has its whole answer.
-/

namespace TelemetryPlatform.WsStreams

open CStrings CallStreams GuardedRuns WsFrames WsServer WsRecords WsSends WsCalls

variable {cfg : WsConfig} {s t : Server} {a : Action}

/-- The descriptor of a connection is not closed yet. -/
def FdOpen (s : Server) (k : ℕ) : Prop := s.fds (s.client k).desc = some k

/-- A connection is not opened a second time. -/
theorem fdOpen_of_step (hknown : Known s) (hstep : serverStep cfg s a = some t) {k : ℕ}
    (hk : k < s.accepted) (hopen : FdOpen t k) : FdOpen s k := by
  unfold FdOpen at hopen ⊢
  rcases serverStep_descends hknown hstep with ⟨-, hdescend⟩ | ⟨n, -, -, hclient, hfds, -⟩
  · rw [hdescend.desc] at hopen
    exact hdescend.table _ _ hopen
  · have hold : k ≠ s.accepted := by omega
    rw [hclient, hfds, Function.update_of_ne hold] at hopen
    by_cases hn : (s.client k).desc = n
    · rw [hn, Function.update_self] at hopen
      have hlast : s.accepted = k := Option.some.inj hopen
      omega
    · rwa [Function.update_of_ne hn] at hopen

/-- A send for an open connection reaches that connection. -/
theorem target_of_fdOpen {op : SendOp} {i k : ℕ}
    (hfd : ∀ n, op.fd = some n → n = (s.client i).desc) (hopen : FdOpen s i)
    (htarget : s.target op = some k) : k = i := by
  obtain ⟨n, hn, hk⟩ := Option.bind_eq_some_iff.mp htarget
  rw [hfd n hn, hopen] at hk
  exact (Option.some.inj hk).symm

/-- A send that reaches its own connection finds it open. -/
theorem fdOpen_of_target {op : SendOp} {i : ℕ}
    (hfd : ∀ n, op.fd = some n → n = (s.client i).desc) (htarget : s.target op = some i) :
    FdOpen s i := by
  obtain ⟨n, hn, hi⟩ := Option.bind_eq_some_iff.mp htarget
  rw [hfd n hn] at hi
  exact hi

/-- The writes behind one more write to a connection. -/
theorem mem_stream_write {k j : ℕ} {w w' : Write UInt8}
    (hstream : t.stream = Function.update s.stream k (s.stream k ++ [w])) (hmem : w' ∈ t.stream j) :
    w' ∈ s.stream j ∨ (j = k ∧ w' = w) := by
  rw [hstream] at hmem
  by_cases hj : j = k
  · rw [hj, Function.update_self, List.mem_append, List.mem_singleton] at hmem
    rcases hmem with hold | hnew
    · exact .inl (hj ▸ hold)
    · exact .inr ⟨hj, hnew⟩
  · rw [Function.update_of_ne hj] at hmem
    exact .inl hmem

/-- What other calls wrote, or what was written elsewhere. -/
theorem writtenBy_stream_other {k j r : ℕ} {w : Write UInt8}
    (hstream : t.stream = Function.update s.stream k (s.stream k ++ [w]))
    (hne : j ≠ k ∨ w.call ≠ r) : writtenBy r (t.stream j) = writtenBy r (s.stream j) := by
  rw [hstream]
  by_cases hj : j = k
  · rw [hj, Function.update_self]
    exact writtenBy_snoc_other _ _ (hne.resolve_left fun h => h hj)
  · rw [Function.update_of_ne hj]

/-- What the writing call wrote. -/
theorem writtenBy_stream_self {k r : ℕ} {data : Bytes}
    (hstream : t.stream = Function.update s.stream k (s.stream k ++ [⟨r, data⟩])) :
    writtenBy r (t.stream k) = writtenBy r (s.stream k) ++ data := by
  rw [hstream, Function.update_self]
  exact writtenBy_snoc_self _ _ _

/-- Some bytes of a buffer that is not empty. -/
theorem take_ne_nil {buffer : Bytes} {n : ℕ} (hpos : 1 ≤ n) (hle : n ≤ buffer.length) :
    buffer.take n ≠ [] := by
  intro hnil
  have hlen := congrArg List.length hnil
  rw [List.length_take, List.length_nil] at hlen
  omega

/-- The operations account for what was written to open connections. -/
structure Tracked (s : Server) : Prop where
  /-- Only recorded calls write. -/
  calls : ∀ k, ∀ w ∈ s.stream k, w.call < s.calls.length
  /-- No write is empty. -/
  data : ∀ k, ∀ w ∈ s.stream k, w.data ≠ []
  /-- The operation of a thread knows what its call has written. -/
  thread : ∀ i op, (s.client i).pc.op = some op → FdOpen s i →
    writtenBy op.call (s.stream i) = op.sent
  /-- So does the operation of the broadcast. -/
  caster : ∀ c msg op, s.caster.op = some (c, msg, op) → FdOpen s c →
    writtenBy op.call (s.stream c) = op.sent

/-- At the start nothing is written. -/
theorem tracked_init : Tracked Server.init where
  calls _ _ h := absurd h List.not_mem_nil
  data _ _ h := absurd h List.not_mem_nil
  thread _ _ h := nomatch h
  caster _ _ _ h := nomatch h

/-- A call that is to be recorded has written nothing. -/
theorem Tracked.fresh (h : Tracked s) (k : ℕ) : writtenBy s.calls.length (s.stream k) = [] :=
  writtenBy_eq_nil fun w hw heq => by
    have hlt := h.calls k w hw
    omega

/-- A step that writes keeps the calls and the data of all writes in order. -/
theorem Tracked.writes (h : Tracked s) {k r : ℕ} {data : Bytes}
    (hstream : t.stream = Function.update s.stream k (s.stream k ++ [⟨r, data⟩]))
    (hcalls : t.calls = s.calls) (hr : r < s.calls.length) (hdata : data ≠ []) (j : ℕ) :
    ∀ w ∈ t.stream j, w.call < t.calls.length ∧ w.data ≠ [] := by
  intro w hw
  rw [hcalls]
  rcases mem_stream_write hstream hw with hold | ⟨-, hnew⟩
  · exact ⟨h.calls j w hold, h.data j w hold⟩
  · rw [hnew]
    exact ⟨hr, hdata⟩

/-- The account of a thread whose call goes on. -/
theorem Tracked.threadWrite (h : Tracked s) (hknown : Known s) {i k n : ℕ} {op : SendOp}
    {buffer : Bytes} {rest : List Bytes} (hop : (s.client i).pc.op = some op)
    (htodo : op.todo = buffer :: rest) (htarget : s.target op = some k) (hle : n ≤ buffer.length)
    (hstream : t.stream = Function.update s.stream k (s.stream k ++ [⟨op.call, buffer.take n⟩]))
    (hopen : FdOpen s i) : writtenBy (op.advance n).call (t.stream i) = (op.advance n).sent := by
  obtain ⟨hcall, hsent, -⟩ := advance_cases htodo hle
  have hk : k = i := target_of_fdOpen (fun _ => hknown.opFd hop) hopen htarget
  rw [hk] at hstream
  rw [hcall, hsent, writtenBy_stream_self hstream, h.thread i op hop hopen]

/-- The account of the broadcast whose call goes on. -/
theorem Tracked.casterWrite (h : Tracked s) (hknown : Known s) {c k n : ℕ} {msg : Bytes}
    {op : SendOp} {buffer : Bytes} {rest : List Bytes} (hop : s.caster.op = some (c, msg, op))
    (htodo : op.todo = buffer :: rest) (htarget : s.target op = some k) (hle : n ≤ buffer.length)
    (hstream : t.stream = Function.update s.stream k (s.stream k ++ [⟨op.call, buffer.take n⟩]))
    (hopen : FdOpen s c) : writtenBy (op.advance n).call (t.stream c) = (op.advance n).sent := by
  obtain ⟨hcall, hsent, -⟩ := advance_cases htodo hle
  have hk : k = c := target_of_fdOpen (fun m => hknown.casterFd c msg op m hop) hopen htarget
  rw [hk] at hstream
  rw [hcall, hsent, writtenBy_stream_self hstream, h.caster c msg op hop hopen]

/-- A step that starts a call keeps the writes in order. -/
theorem Tracked.calls_snoc (h : Tracked s) {x : Call} (hcalls : t.calls = s.calls ++ [x])
    (hstream : t.stream = s.stream) : ∀ k, ∀ w ∈ t.stream k, w.call < t.calls.length := by
  intro k w hw
  rw [hstream] at hw
  have hlt := h.calls k w hw
  rw [hcalls, List.length_append]
  omega

/-- Every step keeps the account. -/
theorem Tracked.step (h : Tracked s) (hknown : Known s) (hreg : Registered s)
    (hstep : serverStep cfg s a = some t) : Tracked t := by
  have hback : ∀ k, k < s.accepted → FdOpen t k → FdOpen s k := fun k =>
    fdOpen_of_step hknown hstep
  -- an operation that stays, of a call that does not write in this step
  have hstay : ∀ j op, (s.client j).pc.op = some op → FdOpen t j →
      writtenBy op.call (s.stream j) = op.sent := fun j op hop hopen =>
    h.thread j op hop (hback j (hknown.lt_of_pc (pc_ne_unborn hop)) hopen)
  have hcast : ∀ c msg op, s.caster.op = some (c, msg, op) → FdOpen t c →
      writtenBy op.call (s.stream c) = op.sent := fun c msg op hop hopen =>
    h.caster c msg op hop (hback c (hknown.lt_of_caster hop) hopen)
  cases serverStep_effect hknown hstep with
  | quiet i hcalls hstream hothers hshaken hpc hcaster =>
    refine ⟨?_, ?_, fun j op hop hopen => ?_, fun c msg op hop hopen => ?_⟩
    · rw [hcalls, hstream]
      exact h.calls
    · rw [hstream]
      exact h.data
    · rw [hstream]
      by_cases hj : j = i
      · rw [hj] at hop hopen ⊢
        rcases hpc with hsame | ⟨hnone, -⟩
        · exact hstay i op (hsame ▸ hop) hopen
        · rw [hnone] at hop
          cases hop
      · exact hstay j op ((hothers j hj).1 ▸ hop) hopen
    · rw [hstream]
      rcases hcaster with hsame | hnone
      · exact hcast c msg op (hsame ▸ hop) hopen
      · rw [hnone] at hop
        cases hop
  | threadStart i u hcalls hstream hothers hshaken hstart hkind hcaster =>
    refine ⟨h.calls_snoc hcalls hstream, by rw [hstream]; exact h.data, fun j op hop hopen => ?_,
      fun c msg op hop hopen => ?_⟩
    · rw [hstream]
      by_cases hj : j = i
      · rw [hj, hstart] at hop
        cases hop
        exact h.fresh j
      · exact hstay j op ((hothers j hj).1 ▸ hop) hopen
    · rw [hstream]
      exact hcast c msg op (hcaster ▸ hop) hopen
  | casterStart c msg hcalls hstream hclient hvisit halive hstart =>
    refine ⟨h.calls_snoc hcalls hstream, by rw [hstream]; exact h.data, fun j op hop hopen => ?_,
      fun d msg' op hop hopen => ?_⟩
    · rw [hstream]
      rw [hclient] at hop
      exact hstay j op hop hopen
    · rw [hstart] at hop
      cases hop
      rw [hstream]
      exact h.fresh c
  | threadWrite i n k op buffer rest hwriting hop htodo htarget hpos hle hcalls hstream hothers hpc
      hcaster =>
    have hwrites := h.writes hstream hcalls (hreg.thread i op hop).call_lt (take_ne_nil hpos hle)
    refine ⟨fun j w hw => (hwrites j w hw).1, fun j w hw => (hwrites j w hw).2,
      fun j op' hop' hopen => ?_, fun c msg op' hop' hopen => ?_⟩
    · by_cases hj : j = i
      · rw [hj] at hop' hopen ⊢
        rcases hpc with ⟨-, hnext, -⟩ | ⟨-, hnone, -⟩
        · rw [hnext] at hop'
          cases hop'
          have hopen' := hback i (hknown.lt_of_pc (pc_ne_unborn hop)) hopen
          exact h.threadWrite hknown hop htodo htarget hle hstream hopen'
        · rw [hnone] at hop'
          cases hop'
      · rw [(hothers j hj).1] at hop'
        rw [writtenBy_stream_other hstream (.inr (hreg.thread_ne hop hop' hj))]
        exact hstay j op' hop' hopen
    · rw [hcaster] at hop'
      rw [writtenBy_stream_other hstream (.inr (hreg.caster_ne hop hop'))]
      exact hcast c msg op' hop' hopen
  | casterWrite c n k msg op buffer rest hwriting hop htodo htarget hpos hle hcalls hstream hclient
      hcaster =>
    have hwrites := h.writes hstream hcalls (hreg.caster c msg op hop).call_lt (take_ne_nil hpos hle)
    refine ⟨fun j w hw => (hwrites j w hw).1, fun j w hw => (hwrites j w hw).2,
      fun j op' hop' hopen => ?_, fun d msg' op' hop' hopen => ?_⟩
    · rw [hclient] at hop'
      rw [writtenBy_stream_other hstream (.inr (hreg.caster_ne hop' hop).symm)]
      exact hstay j op' hop' hopen
    · rcases hcaster with ⟨-, hnext⟩ | ⟨-, hnone⟩
      · rw [hnext] at hop'
        cases hop'
        have hopen' := hback c (hknown.lt_of_caster hop) hopen
        exact h.casterWrite hknown hop htodo htarget hle hstream hopen'
      · rw [hnone] at hop'
        cases hop'

/-- In every reachable state the operations account for the streams. -/
theorem tracked_of_run {ok : Server → Action → Prop} {actions : List Action}
    (hrun : Run (serverStep cfg) ok Server.init actions s) : Tracked s := by
  induction hrun with
  | nil => exact tracked_init
  | snoc hrun _ hstep ih => exact ih.step (known_of_run hrun) (registered_of_run hrun) hstep

/-- Whether a send that takes bytes reaches the connection of its own client. -/
def ownConnection (s : Server) (a : Action) : Bool :=
  match writing s a with
  | none => true
  | some (_, c, op) => decide (s.target op = some c)

/-- The condition on a step that it sends to the connection of the client in
question only. -/
def OwnConnection (s : Server) (a : Action) : Prop := ownConnection s a = true

/-- What the condition says about a send. -/
theorem OwnConnection.target (h : OwnConnection s a) {caller : Caller} {c : ℕ} {op : SendOp}
    (hwriting : writing s a = some (caller, c, op)) : s.target op = some c := by
  rw [OwnConnection, ownConnection, hwriting] at h
  exact of_decide_eq_true h

/-- Connections carry calls for their own clients only. -/
structure OwnStreams (s : Server) : Prop where
  /-- Every write belongs to a call for the client. -/
  own : ∀ (k : ℕ), ∀ w ∈ s.stream k,
    ∃ caller u, s.calls[w.call]? = some (Call.mk caller k u)
  /-- A client whose handshake is complete is connected or leaving. -/
  shaken : ∀ i, (s.client i).handshaken = true → 2 ≤ (s.client i).pc.stage
  /-- A connected client has completed its handshake. -/
  connected : ∀ i, (s.client i).pc.stage = 2 → (s.client i).handshaken = true
  /-- A completed handshake is a whole answer on the connection. -/
  answered : ∀ i, (s.client i).handshaken = true → ∃ r accept,
    s.calls[r]? = some (Call.mk .thread i (.response accept)) ∧
      writtenBy r (s.stream i) = (WsUnit.response accept).encode

/-- At the start there are no connections. -/
theorem ownStreams_init : OwnStreams Server.init where
  own _ _ h := absurd h List.not_mem_nil
  shaken _ h := nomatch h
  connected _ h := nomatch h
  answered _ h := nomatch h

/-- Completed handshakes belong to threads that are connected or leaving. -/
theorem OwnStreams.shaken_step (h : OwnStreams s) (heffect : SendEffect s a t) :
    ∀ i, (t.client i).handshaken = true → 2 ≤ (t.client i).pc.stage := by
  intro j hj
  have hle := stage_le_of_effect heffect j
  by_cases hold : (s.client j).handshaken = true
  · have hstage := h.shaken j hold
    omega
  · cases heffect with
    | quiet i hcalls hstream hothers hshaken hpc hcaster =>
      rw [hothers.handshaken_eq hshaken] at hj
      exact absurd hj hold
    | threadStart i u hcalls hstream hothers hshaken hop hkind hcaster =>
      rw [hothers.handshaken_eq hshaken] at hj
      exact absurd hj hold
    | casterStart c msg hcalls hstream hclient hvisit halive hop =>
      rw [hclient] at hj
      exact absurd hj hold
    | threadWrite i n k op buffer rest hwriting hop htodo htarget hpos hle' hcalls hstream hothers hpc
        hcaster =>
      by_cases hji : j = i
      · rw [hji] at hj hold ⊢
        rcases hpc with ⟨-, -, -, hsame⟩ | ⟨-, -, hnew, -⟩
        · rw [hsame] at hj
          exact absurd hj hold
        · exact hnew
      · rw [(hothers j hji).2] at hj
        exact absurd hj hold
    | casterWrite c n k msg op buffer rest hwriting hop htodo htarget hpos hle' hcalls hstream hclient
        hcaster =>
      rw [hclient] at hj
      exact absurd hj hold

/-- A thread gets connected by the completion of its handshake. -/
theorem handshaken_step (h : ∀ i, (s.client i).pc.stage = 2 → (s.client i).handshaken = true)
    (heffect : SendEffect s a t) :
    ∀ i, (t.client i).pc.stage = 2 → (t.client i).handshaken = true := by
  intro j hj
  have hother : ∀ i, OthersStay s t i → j ≠ i → (t.client j).handshaken = true := by
    intro i hothers hji
    obtain ⟨hpc, hshaken⟩ := hothers j hji
    rw [hshaken]
    exact h j (hpc ▸ hj)
  cases heffect with
  | quiet i hcalls hstream hothers hshaken hpc hcaster =>
    by_cases hji : j = i
    · rw [hji] at hj ⊢
      rw [hshaken]
      rcases hpc with hsame | ⟨-, -, -, hold⟩
      · exact h i (hsame ▸ hj)
      · exact h i (hold hj)
    · exact hother i hothers hji
  | threadStart i u hcalls hstream hothers hshaken hop hkind hcaster =>
    by_cases hji : j = i
    · rw [hji] at hj ⊢
      rw [hshaken]
      rcases hkind with ⟨-, -, hone⟩ | ⟨-, htwo, -⟩
      · omega
      · exact h i htwo
    · exact hother i hothers hji
  | casterStart c msg hcalls hstream hclient hvisit halive hop =>
    rw [hclient] at hj ⊢
    exact h j hj
  | threadWrite i n k op buffer rest hwriting hop htodo htarget hpos hle hcalls hstream hothers hpc
      hcaster =>
    by_cases hji : j = i
    · rw [hji] at hj ⊢
      rcases hpc with ⟨-, -, hstage, hsame⟩ | ⟨-, -, -, hnew⟩
      · rw [hsame]
        exact h i (hstage ▸ hj)
      · rw [hnew]
        rcases stage_of_op hop with hone | htwo
        · simp [hone]
        · simp [h i htwo]
    · exact hother i hothers hji
  | casterWrite c n k msg op buffer rest hwriting hop htodo htarget hpos hle hcalls hstream hclient
      hcaster =>
    rw [hclient] at hj ⊢
    exact h j hj

/-- In every run connected clients have completed their handshake. -/
theorem handshaken_of_run {ok : Server → Action → Prop} {actions : List Action}
    (hrun : Run (serverStep cfg) ok Server.init actions s) :
    ∀ i, (s.client i).pc.stage = 2 → (s.client i).handshaken = true := by
  induction hrun with
  | nil => exact fun i h => nomatch h
  | snoc hrun _ hstep ih => exact handshaken_step ih (serverStep_effect (known_of_run hrun) hstep)

/-- A write of a call for the client of the connection. -/
theorem OwnStreams.own_write (h : OwnStreams s) {c : ℕ} {caller : Caller} {w : Write UInt8} {u : WsUnit}
    (hstream : t.stream = Function.update s.stream c (s.stream c ++ [w]))
    (hcalls : t.calls = s.calls) (hcall : s.calls[w.call]? = some ⟨caller, c, u⟩) (k : ℕ) :
    ∀ w' ∈ t.stream k, ∃ caller u, t.calls[w'.call]? = some (Call.mk caller k u) := by
  intro w' hw
  rw [hcalls]
  rcases mem_stream_write hstream hw with hold | ⟨hk, hnew⟩
  · exact h.own k w' hold
  · rw [hk, hnew]
    exact ⟨caller, u, hcall⟩

/-- An answer on a connection stays when another call writes. -/
theorem answer_stays {i k r r' : ℕ} {accept : CString} {data : Bytes}
    (hstream : t.stream = Function.update s.stream k (s.stream k ++ [⟨r', data⟩]))
    (hcalls : t.calls = s.calls) (hne : r' ≠ r)
    (hr : s.calls[r]? = some (Call.mk .thread i (.response accept)))
    (hwritten : writtenBy r (s.stream i) = (WsUnit.response accept).encode) :
    ∃ r accept, t.calls[r]? = some (Call.mk .thread i (.response accept)) ∧
      writtenBy r (t.stream i) = (WsUnit.response accept).encode := by
  refine ⟨r, accept, by rw [hcalls]; exact hr, ?_⟩
  rw [writtenBy_stream_other hstream (.inr hne)]
  exact hwritten

/-- A call that is no frame is an answer. -/
theorem eq_response {u : WsUnit} (h : ¬ u.IsFrame) : ∃ accept, u = .response accept := by
  cases u with
  | response accept => exact ⟨accept, rfl⟩
  | text msg => exact absurd trivial h
  | control opcode payload => exact absurd trivial h

/-- A send of a client thread to its own connection. -/
theorem OwnStreams.threadWrite (h : OwnStreams s) (htracked : Tracked s) (hknown : Known s)
    (hreg : Registered s) {i n : ℕ} {op : SendOp} {buffer : Bytes} {rest : List Bytes}
    (hop : (s.client i).pc.op = some op) (htodo : op.todo = buffer :: rest)
    (htarget : s.target op = some i) (hle : n ≤ buffer.length) (hcalls : t.calls = s.calls)
    (hstream : t.stream =
      Function.update s.stream i (s.stream i ++ [⟨op.call, buffer.take n⟩]))
    (hothers : OthersStay s t i)
    (hpc : ((op.advance n).todo ≠ [] ∧ (t.client i).pc.op = some (op.advance n) ∧
        (t.client i).pc.stage = (s.client i).pc.stage ∧
        (t.client i).handshaken = (s.client i).handshaken) ∨
      ((op.advance n).todo = [] ∧ (t.client i).pc.op = none ∧ 2 ≤ (t.client i).pc.stage ∧
        (t.client i).handshaken = ((s.client i).handshaken || decide ((s.client i).pc.stage = 1))))
    (j : ℕ) (hj : (t.client j).handshaken = true) :
    ∃ r accept, t.calls[r]? = some (Call.mk .thread j (.response accept)) ∧
      writtenBy r (t.stream j) = (WsUnit.response accept).encode := by
  obtain ⟨u, hu, hkind, -⟩ := hreg.thread i op hop
  by_cases hshaken : (s.client j).handshaken = true
  · -- an answer that is complete is not what is being sent
    obtain ⟨r, accept, hr, hwritten⟩ := h.answered j hshaken
    refine answer_stays hstream hcalls (fun heq => ?_) hr hwritten
    rw [← heq, hu] at hr
    cases hr
    have hstage := h.shaken i hshaken
    have htwo : (s.client i).pc.stage = 2 := by
      rcases stage_of_op hop with hone | htwo
      · omega
      · exact htwo
    exact (hkind.mpr htwo).elim
  · have hji : j = i := by
      by_contra hne
      rw [(hothers j hne).2] at hj
      exact hshaken hj
    rw [hji] at hj hshaken ⊢
    rcases hpc with ⟨-, -, -, hsame⟩ | ⟨hend, -, -, hnew⟩
    · rw [hsame] at hj
      exact absurd hj hshaken
    · -- the answer is complete with this send
      have hone : (s.client i).pc.stage = 1 := by
        rw [hnew, Bool.or_eq_true] at hj
        exact of_decide_eq_true (hj.resolve_left hshaken)
      obtain ⟨u', hu', hkind', hwhole⟩ := (hreg.thread i op hop).finished htodo hle hend
      obtain ⟨accept, rfl⟩ := eq_response fun hframe => by
        have htwo := hkind'.mp hframe
        omega
      refine ⟨op.call, accept, by rw [hcalls]; exact hu', ?_⟩
      have hopen := fdOpen_of_target (fun _ => hknown.opFd hop) htarget
      rw [writtenBy_stream_self hstream, htracked.thread i op hop hopen, hwhole]

/-- Every write of a step belongs to a call for the client. -/
theorem OwnStreams.own_step (h : OwnStreams s) (hreg : Registered s) (hown : OwnConnection s a)
    (heffect : SendEffect s a t) : ∀ (k : ℕ), ∀ w ∈ t.stream k,
      ∃ caller u, t.calls[w.call]? = some (Call.mk caller k u) := by
  cases heffect with
  | quiet i hcalls hstream hothers hshaken hpc hcaster =>
    rw [hcalls, hstream]
    exact h.own
  | threadStart i u hcalls hstream hothers hshaken hop hkind hcaster =>
    intro k w hw
    rw [hstream] at hw
    obtain ⟨caller, u', hold⟩ := h.own k w hw
    rw [hcalls]
    exact ⟨caller, u', getElem?_snoc _ hold⟩
  | casterStart c msg hcalls hstream hclient hvisit halive hop =>
    intro k w hw
    rw [hstream] at hw
    obtain ⟨caller, u', hold⟩ := h.own k w hw
    rw [hcalls]
    exact ⟨caller, u', getElem?_snoc _ hold⟩
  | threadWrite i n k op buffer rest hwriting hop htodo htarget hpos hle hcalls hstream hothers hpc
      hcaster =>
    obtain ⟨u, hu, -⟩ := hreg.thread i op hop
    rw [hown.target hwriting] at htarget
    cases htarget
    exact h.own_write hstream hcalls hu
  | casterWrite c n k msg op buffer rest hwriting hop htodo htarget hpos hle hcalls hstream hclient
      hcaster =>
    obtain ⟨u, hu, -⟩ := hreg.caster c msg op hop
    rw [hown.target hwriting] at htarget
    cases htarget
    exact h.own_write hstream hcalls hu

/-- A completed handshake is a whole answer also after the step. -/
theorem OwnStreams.answered_step (h : OwnStreams s) (htracked : Tracked s) (hknown : Known s)
    (hreg : Registered s) (hown : OwnConnection s a) (heffect : SendEffect s a t) {j : ℕ}
    (hj : (t.client j).handshaken = true) :
    ∃ r accept, t.calls[r]? = some (Call.mk .thread j (.response accept)) ∧
      writtenBy r (t.stream j) = (WsUnit.response accept).encode := by
  cases heffect with
  | quiet i hcalls hstream hothers hshaken hpc hcaster =>
    rw [hothers.handshaken_eq hshaken] at hj
    rw [hcalls, hstream]
    exact h.answered j hj
  | threadStart i u hcalls hstream hothers hshaken hop hkind hcaster =>
    rw [hothers.handshaken_eq hshaken] at hj
    obtain ⟨r, accept, hr, hwritten⟩ := h.answered j hj
    rw [hcalls, hstream]
    exact ⟨r, accept, getElem?_snoc _ hr, hwritten⟩
  | casterStart c msg hcalls hstream hclient hvisit halive hop =>
    rw [hclient] at hj
    obtain ⟨r, accept, hr, hwritten⟩ := h.answered j hj
    rw [hcalls, hstream]
    exact ⟨r, accept, getElem?_snoc _ hr, hwritten⟩
  | threadWrite i n k op buffer rest hwriting hop htodo htarget hpos hle hcalls hstream hothers hpc
      hcaster =>
    rw [hown.target hwriting] at htarget
    cases htarget
    exact h.threadWrite htracked hknown hreg hop htodo (hown.target hwriting) hle hcalls hstream
      hothers hpc j hj
  | casterWrite c n k msg op buffer rest hwriting hop htodo htarget hpos hle hcalls hstream hclient
      hcaster =>
    rw [hclient] at hj
    obtain ⟨r, accept, hr, hwritten⟩ := h.answered j hj
    obtain ⟨u, hu, -⟩ := hreg.caster c msg op hop
    refine answer_stays hstream hcalls (fun heq => ?_) hr hwritten
    rw [← heq, hu] at hr
    cases hr

/-- Every step that sends to its own connection keeps the streams of their
own clients. -/
theorem OwnStreams.step (h : OwnStreams s) (htracked : Tracked s) (hknown : Known s)
    (hreg : Registered s) (hown : OwnConnection s a) (hstep : serverStep cfg s a = some t) :
    OwnStreams t := by
  have heffect := serverStep_effect hknown hstep
  exact ⟨h.own_step hreg hown heffect, h.shaken_step heffect, handshaken_step h.connected heffect,
    fun _ hj => h.answered_step htracked hknown hreg hown heffect hj⟩

/-- In every run that sends to the connections of the own clients only, the
streams are those of their own clients. -/
theorem ownStreams_of_run {ok : Server → Action → Prop} {actions : List Action}
    (hweak : ∀ s a, ok s a → OwnConnection s a)
    (hrun : Run (serverStep cfg) ok Server.init actions s) : OwnStreams s := by
  induction hrun with
  | nil => exact ownStreams_init
  | snoc hrun hok hstep ih =>
    exact ih.step (tracked_of_run hrun) (known_of_run hrun) (registered_of_run hrun) (hweak _ _ hok)
      hstep

end TelemetryPlatform.WsStreams
