import TelemetryPlatform.WsSends

/-!
# Calls of the server and what they have written

Every operation belongs to one recorded call and is somewhere in the buffers of
that call. A thread makes one answer at most. As long as each send reaches the
connection of its own client, what a call has written to that connection is
what its operation has sent, and a connected client has its whole answer.
-/

namespace TelemetryPlatform.WsCalls

open CStrings CallStreams GuardedRuns WsFrames WsServer WsRecords WsSends

variable {cfg : WsConfig} {s t : Server} {a : Action}

/-- The operation of a call is somewhere in the buffers of its call. -/
def OpOf (calls : List Call) (caller : Caller) (i : ℕ) (op : SendOp) (P : WsUnit → Prop) : Prop :=
  ∃ u, calls[op.call]? = some ⟨caller, i, u⟩ ∧ P u ∧ op.sent ++ op.todo.flatten = u.encode ∧
    op.todo ≠ [] ∧ ∀ b ∈ op.todo, b ≠ []

/-- A recorded call stays recorded. -/
theorem getElem?_snoc {calls : List Call} {r : ℕ} {call : Call} (x : Call)
    (h : calls[r]? = some call) : (calls ++ [x])[r]? = some call := by
  rw [List.getElem?_append_left (List.getElem?_eq_some_iff.mp h).1, h]

/-- A recorded call is an old one or the one just made. -/
theorem getElem?_snoc_cases {calls : List Call} {r : ℕ} {call x : Call}
    (h : (calls ++ [x])[r]? = some call) : calls[r]? = some call ∨ (r = calls.length ∧ call = x) := by
  rcases Nat.lt_trichotomy r calls.length with hlt | heq | hgt
  · rw [List.getElem?_append_left hlt] at h
    exact .inl h
  · rw [heq, List.getElem?_concat_length] at h
    exact .inr ⟨heq, (Option.some.inj h).symm⟩
  · rw [List.getElem?_eq_none (by rw [List.length_append, List.length_singleton]; omega)] at h
    cases h

/-- An operation stays that of its call. -/
theorem OpOf.snoc {calls : List Call} {caller : Caller} {i : ℕ} {op : SendOp} {P : WsUnit → Prop}
    (h : OpOf calls caller i op P) (x : Call) : OpOf (calls ++ [x]) caller i op P := by
  obtain ⟨u, hcall, hrest⟩ := h
  exact ⟨u, getElem?_snoc x hcall, hrest⟩

/-- A new operation stands at the start of its call. -/
theorem opOf_startOp (s : Server) (caller : Caller) (i : ℕ) (fd : Option ℕ) (u : WsUnit)
    {P : WsUnit → Prop} (hu : P u) :
    OpOf (s.calls ++ [⟨caller, i, u⟩]) caller i (s.startOp fd u) P := by
  refine ⟨u, List.getElem?_concat_length, hu, rfl, u.buffers_ne_nil.1, u.buffers_ne_nil.2⟩

/-- What a successful send makes of the operation. -/
theorem advance_cases {op : SendOp} {buffer : Bytes} {rest : List Bytes} {n : ℕ}
    (htodo : op.todo = buffer :: rest) (hle : n ≤ buffer.length) :
    (op.advance n).call = op.call ∧ (op.advance n).sent = op.sent ++ buffer.take n ∧
      (op.advance n).sent ++ (op.advance n).todo.flatten = op.sent ++ op.todo.flatten := by
  have hadvance : op.advance n = { op with
      sent := op.sent ++ buffer.take n
      todo := if n < buffer.length then buffer.drop n :: rest else rest } := by
    rw [SendOp.advance, htodo]
  rw [hadvance, htodo]
  refine ⟨rfl, rfl, ?_⟩
  dsimp only
  split_ifs with hlt
  · rw [List.flatten_cons, List.flatten_cons, List.append_assoc, ← List.append_assoc (buffer.take n),
      List.take_append_drop]
  · have hall : n = buffer.length := by omega
    rw [hall, List.take_length, List.flatten_cons, List.append_assoc]

/-- The call of an operation is recorded. -/
theorem OpOf.call_lt {calls : List Call} {caller : Caller} {i : ℕ} {op : SendOp} {P : WsUnit → Prop}
    (h : OpOf calls caller i op P) : op.call < calls.length := by
  obtain ⟨u, hu, -⟩ := h
  exact (List.getElem?_eq_some_iff.mp hu).1

/-- An operation with something left to send stays that of its call. -/
theorem OpOf.advance {calls : List Call} {caller : Caller} {i n : ℕ} {op : SendOp}
    {P : WsUnit → Prop} {buffer : Bytes} {rest : List Bytes} (h : OpOf calls caller i op P)
    (htodo : op.todo = buffer :: rest) (hle : n ≤ buffer.length)
    (hleft : (op.advance n).todo ≠ []) : OpOf calls caller i (op.advance n) P := by
  obtain ⟨u, hcall, hu, htext, -, hparts⟩ := h
  obtain ⟨hsame, -, hkeep⟩ := advance_cases htodo hle
  refine ⟨u, by rw [hsame]; exact hcall, hu, hkeep.trans htext, hleft, fun b hb => ?_⟩
  rw [SendOp.advance, htodo] at hb
  dsimp only at hb
  split_ifs at hb with hlt
  · rcases List.mem_cons.mp hb with rfl | hb
    · exact fun hnil => absurd (List.drop_eq_nil_iff.mp hnil) (by omega)
    · exact hparts b (by rw [htodo]; exact List.mem_cons_of_mem _ hb)
  · exact hparts b (by rw [htodo]; exact List.mem_cons_of_mem _ hb)

/-- What an operation has sent is a proper part of its call, also after the
next part of the current buffer. -/
theorem OpOf.sent_front {calls : List Call} {caller : Caller} {i n : ℕ} {op : SendOp}
    {P : WsUnit → Prop} {buffer : Bytes} {rest : List Bytes} (h : OpOf calls caller i op P)
    (htodo : op.todo = buffer :: rest) {u : WsUnit} (hcall : calls[op.call]? = some ⟨caller, i, u⟩) :
    op.sent ≠ u.encode ∧ op.sent ++ buffer.take n <+: u.encode := by
  obtain ⟨u', hcall', -, htext, -, hparts⟩ := h
  have hu : u' = u := by
    rw [hcall'] at hcall
    cases hcall
    rfl
  rw [← hu, ← htext, htodo, List.flatten_cons]
  constructor
  · intro heq
    have hlen := congrArg List.length heq
    rw [List.length_append, List.length_append] at hlen
    have hbuffer : buffer ≠ [] := hparts buffer (by rw [htodo]; exact List.mem_cons_self)
    exact hbuffer (List.length_eq_zero_iff.mp (by omega))
  · rw [List.prefix_append_right_inj]
    exact (List.take_prefix n buffer).trans (List.prefix_append _ _)

/-- A finished operation has sent its call. -/
theorem OpOf.finished {calls : List Call} {caller : Caller} {i n : ℕ} {op : SendOp}
    {P : WsUnit → Prop} {buffer : Bytes} {rest : List Bytes} (h : OpOf calls caller i op P)
    (htodo : op.todo = buffer :: rest) (hle : n ≤ buffer.length)
    (hend : (op.advance n).todo = []) :
    ∃ u, calls[op.call]? = some ⟨caller, i, u⟩ ∧ P u ∧ op.sent ++ buffer.take n = u.encode := by
  obtain ⟨u, hcall, hu, htext, -, -⟩ := h
  obtain ⟨-, hsent, hkeep⟩ := advance_cases htodo hle
  refine ⟨u, hcall, hu, ?_⟩
  rw [hend, List.flatten_nil, List.append_nil, hsent] at hkeep
  exact hkeep.trans htext

/-- A thread with an operation is answering or connected. -/
theorem stage_of_op {pc : ClientPc} {op : SendOp} (h : pc.op = some op) :
    pc.stage = 1 ∨ pc.stage = 2 := by
  cases pc with
  | responding _ => exact .inl rfl
  | sending _ _ => exact .inr rfl
  | unborn => cases h
  | starting => cases h
  | handshaking _ => cases h
  | anchoring => cases h
  | greeting => cases h
  | loopHead => cases h
  | receiving => cases h
  | querying _ => cases h
  | leaving => cases h
  | closing => cases h
  | clearing => cases h
  | removing => cases h
  | freeing => cases h
  | finished => cases h

/-- A thread with an operation is created. -/
theorem pc_ne_unborn {pc : ClientPc} {op : SendOp} (h : pc.op = some op) : pc ≠ .unborn := by
  rintro rfl
  cases h

/-- No thread goes back. -/
theorem stage_le_of_effect (heffect : SendEffect s a t) (j : ℕ) :
    (s.client j).pc.stage ≤ (t.client j).pc.stage := by
  have hother : ∀ i, OthersStay s t i → j ≠ i → (s.client j).pc.stage ≤ (t.client j).pc.stage := by
    intro i hothers hj
    rw [(hothers j hj).1]
  cases heffect with
  | quiet i hcalls hstream hothers hshaken hpc hcaster =>
    by_cases hj : j = i
    · rw [hj]
      rcases hpc with hsame | ⟨-, hle, -⟩
      · rw [hsame]
      · exact hle
    · exact hother i hothers hj
  | threadStart i u hcalls hstream hothers hshaken hop hkind hcaster =>
    by_cases hj : j = i
    · rw [hj]
      rcases hkind with ⟨-, hold, hnew⟩ | ⟨-, hold, hnew⟩ <;> omega
    · exact hother i hothers hj
  | casterStart c msg hcalls hstream hclient hvisit halive hop => rw [hclient]
  | threadWrite i n k op buffer rest hwriting hop htodo htarget hpos hle hcalls hstream hothers hpc
      hcaster =>
    by_cases hj : j = i
    · rw [hj]
      have hold := stage_of_op hop
      rcases hpc with ⟨-, -, hsame, -⟩ | ⟨-, -, hnew, -⟩ <;> omega
    · exact hother i hothers hj
  | casterWrite c n k msg op buffer rest hwriting hop htodo htarget hpos hle hcalls hstream hclient
      hcaster => rw [hclient]

/-- Operations and recorded calls fit together. -/
structure Registered (s : Server) : Prop where
  /-- A thread sends its answer first and frames once it is connected. -/
  thread : ∀ (i : ℕ) (op : SendOp), (s.client i).pc.op = some op →
    OpOf s.calls .thread i op fun u => u.IsFrame ↔ (s.client i).pc.stage = 2
  /-- A broadcast sends its message as a text frame. -/
  caster : ∀ (c : ℕ) (msg : Bytes) (op : SendOp), s.caster.op = some (c, msg, op) →
    OpOf s.calls .broadcast c op (· = .text msg)
  /-- A thread that has made an answer is past the start. -/
  answered : ∀ (i r : ℕ) (u : WsUnit), s.calls[r]? = some (Call.mk .thread i u) → ¬ u.IsFrame →
    1 ≤ (s.client i).pc.stage
  /-- A thread makes one answer at most. -/
  single : ∀ (i r r' : ℕ) (u u' : WsUnit), s.calls[r]? = some (Call.mk .thread i u) →
    s.calls[r']? = some (Call.mk .thread i u') → ¬ u.IsFrame → ¬ u'.IsFrame → r = r'
  /-- A broadcast makes frames only. -/
  frames : ∀ (c r : ℕ) (u : WsUnit), s.calls[r]? = some (Call.mk .broadcast c u) → u.IsFrame

/-- At the start nothing is called. -/
theorem registered_init : Registered Server.init where
  thread _ _ h := nomatch h
  caster _ _ _ h := nomatch h
  answered _ _ _ h := nomatch h
  single _ _ _ _ _ h := nomatch h
  frames _ _ _ h := nomatch h

/-- Operations of two threads belong to two calls. -/
theorem Registered.thread_ne (h : Registered s) {i j : ℕ} {op op' : SendOp}
    (hop : (s.client i).pc.op = some op) (hop' : (s.client j).pc.op = some op') (hne : j ≠ i) :
    op.call ≠ op'.call := by
  obtain ⟨u, hu, -⟩ := h.thread i op hop
  obtain ⟨u', hu', -⟩ := h.thread j op' hop'
  intro heq
  rw [heq, hu'] at hu
  cases hu
  exact hne rfl

/-- So do an operation of a thread and one of the broadcast. -/
theorem Registered.caster_ne (h : Registered s) {i c : ℕ} {msg : Bytes} {op op' : SendOp}
    (hop : (s.client i).pc.op = some op) (hop' : s.caster.op = some (c, msg, op')) :
    op.call ≠ op'.call := by
  obtain ⟨u, hu, -⟩ := h.thread i op hop
  obtain ⟨u', hu', -⟩ := h.caster c msg op' hop'
  intro heq
  rw [heq, hu'] at hu
  cases hu

/-- A step without a new call has to show where the operations stand. -/
theorem Registered.of_calls (h : Registered s) (heffect : SendEffect s a t)
    (hcalls : t.calls = s.calls)
    (hthread : ∀ i op, (t.client i).pc.op = some op →
      OpOf s.calls .thread i op fun u => u.IsFrame ↔ (t.client i).pc.stage = 2)
    (hcaster : ∀ c msg op, t.caster.op = some (c, msg, op) →
      OpOf s.calls .broadcast c op (· = .text msg)) : Registered t where
  thread i op hop := by
    rw [hcalls]
    exact hthread i op hop
  caster c msg op hop := by
    rw [hcalls]
    exact hcaster c msg op hop
  answered i r u hr hu := by
    rw [hcalls] at hr
    have hold := h.answered i r u hr hu
    have hle := stage_le_of_effect heffect i
    omega
  single i r r' u u' hr hr' := by
    rw [hcalls] at hr hr'
    exact h.single i r r' u u' hr hr'
  frames c r u hr := by
    rw [hcalls] at hr
    exact h.frames c r u hr

/-- A thread that stays where it is keeps its operation. -/
theorem Registered.thread_of_pc (h : Registered s) {i : ℕ} (hpc : (t.client i).pc = (s.client i).pc)
    {op : SendOp} (hop : (t.client i).pc.op = some op) :
    OpOf s.calls .thread i op fun u => u.IsFrame ↔ (t.client i).pc.stage = 2 := by
  rw [hpc] at hop ⊢
  exact h.thread i op hop

/-- A new call of a client thread. -/
theorem Registered.threadStart (h : Registered s) (heffect : SendEffect s a t) {i : ℕ}
    {fd : Option ℕ} {u : WsUnit} (hcalls : t.calls = s.calls ++ [⟨.thread, i, u⟩]) (hothers : OthersStay s t i)
    (hop : (t.client i).pc.op = some (s.startOp fd u))
    (hkind : (¬ u.IsFrame ∧ (s.client i).pc.stage = 0 ∧ (t.client i).pc.stage = 1) ∨
      (u.IsFrame ∧ (s.client i).pc.stage = 2 ∧ (t.client i).pc.stage = 2))
    (hcaster : t.caster = s.caster) : Registered t := by
  -- an answer is made at the start only, where no answer was made before
  have hfirst : ∀ (j r : ℕ) (u' : WsUnit), s.calls[r]? = some (Call.mk .thread j u') → ¬ u'.IsFrame → j = i →
      u.IsFrame := by
    intro j r u' hr hu' hj
    have hstage := h.answered j r u' hr hu'
    rw [hj] at hstage
    rcases hkind with ⟨-, hzero, -⟩ | ⟨hu, -, -⟩
    · omega
    · exact hu
  refine ⟨fun j op hj => ?_, fun c msg op hc => ?_, fun j r u' hr hu' => ?_,
    fun j r r' u₁ u₂ hr hr' hu₁ hu₂ => ?_, fun c r u' hr => ?_⟩
  · rw [hcalls]
    by_cases hji : j = i
    · rw [hji] at hj ⊢
      rw [hop] at hj
      cases hj
      refine opOf_startOp s .thread i fd u ?_
      rcases hkind with ⟨hu, -, hnew⟩ | ⟨hu, -, hnew⟩
      · exact ⟨fun hframe => absurd hframe hu, fun htwo => by omega⟩
      · exact ⟨fun _ => hnew, fun _ => hu⟩
    · exact (h.thread_of_pc (hothers j hji).1 hj).snoc _
  · rw [hcaster] at hc
    rw [hcalls]
    exact (h.caster c msg op hc).snoc _
  · rw [hcalls] at hr
    have hle := stage_le_of_effect heffect j
    rcases getElem?_snoc_cases hr with hold | ⟨-, hnew⟩
    · have hstage := h.answered j r u' hold hu'
      omega
    · cases hnew
      rcases hkind with ⟨-, -, hone⟩ | ⟨hu, -, -⟩
      · omega
      · exact absurd hu hu'
  · rw [hcalls] at hr hr'
    rcases getElem?_snoc_cases hr with hold | ⟨hlast, hnew⟩
    · rcases getElem?_snoc_cases hr' with hold' | ⟨-, hnew'⟩
      · exact h.single j r r' u₁ u₂ hold hold' hu₁ hu₂
      · cases hnew'
        exact absurd (hfirst _ r u₁ hold hu₁ rfl) hu₂
    · cases hnew
      rcases getElem?_snoc_cases hr' with hold' | ⟨hlast', -⟩
      · exact absurd (hfirst _ r' u₂ hold' hu₂ rfl) hu₁
      · rw [hlast, hlast']
  · rw [hcalls] at hr
    rcases getElem?_snoc_cases hr with hold | ⟨-, hnew⟩
    · exact h.frames c r u' hold
    · cases hnew

/-- A new call of the broadcast. -/
theorem Registered.casterStart (h : Registered s) {c : ℕ} {msg : Bytes}
    (hcalls : t.calls = s.calls ++ [⟨.broadcast, c, .text msg⟩]) (hclient : t.client = s.client)
    (hop : t.caster.op = some (c, msg, s.startOp (s.client c).fd (.text msg))) : Registered t := by
  have hthread : ∀ (j r : ℕ) (u' : WsUnit), t.calls[r]? = some (Call.mk .thread j u') →
      s.calls[r]? = some (Call.mk .thread j u') := by
    intro j r u' hr
    rw [hcalls] at hr
    rcases getElem?_snoc_cases hr with hold | ⟨-, hnew⟩
    · exact hold
    · cases hnew
  refine ⟨fun j op hj => ?_, fun d msg' op hd => ?_, fun j r u' hr hu' => ?_,
    fun j r r' u₁ u₂ hr hr' => ?_, fun d r u' hr => ?_⟩
  · rw [hclient] at hj
    rw [hcalls, hclient]
    exact (h.thread j op hj).snoc _
  · rw [hop] at hd
    cases hd
    rw [hcalls]
    exact opOf_startOp s .broadcast c _ (.text msg) rfl
  · rw [hclient]
    exact h.answered j r u' (hthread j r u' hr) hu'
  · exact h.single j r r' u₁ u₂ (hthread j r u₁ hr) (hthread j r' u₂ hr')
  · rw [hcalls] at hr
    rcases getElem?_snoc_cases hr with hold | ⟨-, hnew⟩
    · exact h.frames d r u' hold
    · cases hnew
      trivial

/-- Every step keeps operations and recorded calls together. -/
theorem Registered.step (h : Registered s) (heffect : SendEffect s a t) : Registered t := by
  have hkeep := heffect
  cases heffect with
  | quiet i hcalls hstream hothers hshaken hpc hcaster =>
    refine h.of_calls hkeep hcalls (fun j op hj => ?_) (fun c msg op hc => ?_)
    · by_cases hji : j = i
      · rw [hji] at hj ⊢
        rcases hpc with hsame | ⟨hnone, -⟩
        · exact h.thread_of_pc hsame hj
        · rw [hnone] at hj
          cases hj
      · exact h.thread_of_pc (hothers j hji).1 hj
    · rcases hcaster with hsame | hnone
      · exact h.caster c msg op (hsame ▸ hc)
      · rw [hnone] at hc
        cases hc
  | threadStart i u hcalls hstream hothers hshaken hop hkind hcaster =>
    exact h.threadStart hkeep hcalls hothers hop hkind hcaster
  | casterStart c msg hcalls hstream hclient hvisit halive hop =>
    exact h.casterStart hcalls hclient hop
  | threadWrite i n k op buffer rest hwriting hop htodo htarget hpos hle hcalls hstream hothers hpc
      hcaster =>
    refine h.of_calls hkeep hcalls (fun j op' hj => ?_) (fun c msg op' hc => ?_)
    · by_cases hji : j = i
      · rw [hji] at hj ⊢
        rcases hpc with ⟨hleft, hnext, hstage, -⟩ | ⟨-, hnone, -, -⟩
        · rw [hnext] at hj
          cases hj
          rw [hstage]
          exact (h.thread i op hop).advance htodo hle hleft
        · rw [hnone] at hj
          cases hj
      · exact h.thread_of_pc (hothers j hji).1 hj
    · exact h.caster c msg op' (hcaster ▸ hc)
  | casterWrite c n k msg op buffer rest hwriting hop htodo htarget hpos hle hcalls hstream hclient
      hcaster =>
    refine h.of_calls hkeep hcalls (fun j op' hj => ?_) (fun d msg' op' hd => ?_)
    · rw [hclient] at hj ⊢
      exact h.thread j op' hj
    · rcases hcaster with ⟨hleft, hnext⟩ | ⟨-, hnone⟩
      · rw [hnext] at hd
        cases hd
        exact (h.caster c msg op hop).advance htodo hle hleft
      · rw [hnone] at hd
        cases hd

/-- In every reachable state operations and recorded calls fit together. -/
theorem registered_of_run {ok : Server → Action → Prop} {actions : List Action}
    (hrun : Run (serverStep cfg) ok Server.init actions s) : Registered s := by
  induction hrun with
  | nil => exact registered_init
  | snoc hrun _ hstep ih => exact ih.step (serverStep_effect (known_of_run hrun) hstep)

end TelemetryPlatform.WsCalls
