import TelemetryPlatform.HandshakeOrder

/-!
# Frames on one connection

A client thread and the broadcast send on the same connection without a common
lock, each by a loop of partial sends, and a client thread goes on after a
failed send. As long as a call sends its first bytes only while no other call
on the connection is in the middle of its message or was given up there, the
connection carries whole messages, with at most one unfinished message at the
end.
-/

namespace TelemetryPlatform.FrameOrder

open CStrings CallStreams GuardedRuns WsFrames WsServer WsRecords WsSends WsCalls WsStreams
open RecordRelease HandshakeOrder

variable {cfg : WsConfig} {s t : Server} {a : Action}

/-- The text of a recorded call. -/
def callText (s : Server) (r : ℕ) : Bytes :=
  match s.calls[r]? with
  | some call => call.unit.encode
  | none => []

/-- What a caller is sending for a client. -/
def sendingFor (s : Server) (caller : Caller) (c : ℕ) : Option SendOp :=
  match caller with
  | .thread => (s.client c).pc.op
  | .broadcast =>
    match s.caster.op with
    | none => none
    | some (c', _, op) => if c' = c then some op else none

/-- Whether a call has written a part of its message to a connection and is no
longer being sent. -/
def givenUp (s : Server) (c : ℕ) : Bool :=
  (s.stream c).any fun w =>
    (sendingFor s .thread c).all (fun op => op.call ≠ w.call) &&
      (sendingFor s .broadcast c).all (fun op => op.call ≠ w.call) &&
      writtenBy w.call (s.stream c) ≠ callText s w.call

/-- A send reaches the connection of its own client, and where it takes the
first bytes of a message, the other caller has sent nothing of its message to
this client and no call was given up on the connection. -/
def sendsInTurn (s : Server) (a : Action) : Bool :=
  match writing s a with
  | none => true
  | some (caller, c, op) =>
    let other := match caller with
      | .thread => Caller.broadcast
      | .broadcast => Caller.thread
    decide (s.target op = some c) &&
      (!op.sent.isEmpty ||
        ((sendingFor s other c).all (fun op' => op'.sent.isEmpty) && !givenUp s c))

/-- The condition on a step that no message starts inside another one. -/
def SendsInTurn (s : Server) (a : Action) : Prop := sendsInTurn s a = true

instance (s : Server) (a : Action) : Decidable (SendsInTurn s a) :=
  inferInstanceAs (Decidable (sendsInTurn s a = true))

/-- The condition includes that sends reach their own connections. -/
theorem SendsInTurn.own (h : SendsInTurn s a) : OwnConnection s a := by
  unfold OwnConnection ownConnection
  cases hwriting : writing s a with
  | none => rfl
  | some entry =>
    obtain ⟨caller, c, op⟩ := entry
    unfold SendsInTurn sendsInTurn at h
    rw [hwriting] at h
    exact (Bool.and_eq_true_iff.mp h).1

/-- What the condition says about the first bytes of a call. -/
theorem SendsInTurn.first (h : SendsInTurn s a) {caller : Caller} {c : ℕ} {op : SendOp}
    (hwriting : writing s a = some (caller, c, op)) (hsent : op.sent = []) :
    givenUp s c = false ∧
      ∀ caller' op', caller' ≠ caller → sendingFor s caller' c = some op' → op'.sent = [] := by
  unfold SendsInTurn sendsInTurn at h
  rw [hwriting] at h
  obtain ⟨-, hturn⟩ := Bool.and_eq_true_iff.mp h
  rw [hsent] at hturn
  simp only [List.isEmpty_nil, Bool.not_true, Bool.false_or, Bool.and_eq_true] at hturn
  obtain ⟨hother, hleft⟩ := hturn
  refine ⟨by simpa using hleft, fun caller' op' hne hop => ?_⟩
  cases caller with
  | thread =>
    cases caller' with
    | thread => exact absurd rfl hne
    | broadcast => simpa [hop] using hother
  | broadcast =>
    cases caller' with
    | thread => simpa [hop] using hother
    | broadcast => exact absurd rfl hne

/-- What a caller is sending is its call and accounts for what it has written. -/
theorem sendingFor_spec (htracked : Tracked s) {caller : Caller} {c : ℕ} {op : SendOp}
    (hop : sendingFor s caller c = some op) (hopen : FdOpen s c) :
    writtenBy op.call (s.stream c) = op.sent := by
  cases caller with
  | thread => exact htracked.thread c op hop hopen
  | broadcast =>
    unfold sendingFor at hop
    dsimp only at hop
    split at hop
    · cases hop
    · rename_i c' msg op' hcaster
      split_ifs at hop with hc
      cases hop
      rw [hc] at hcaster
      exact htracked.caster c msg op hcaster hopen

/-- When a call sends its first bytes, all other messages on the connection
are whole. -/
theorem others_whole (htracked : Tracked s) (hturn : SendsInTurn s a) {caller : Caller} {c : ℕ}
    {op : SendOp} (hwriting : writing s a = some (caller, c, op))
    (hsending : sendingFor s caller c = some op) (hopen : FdOpen s c) (hsent : op.sent = []) :
    ∀ w ∈ s.stream c, w.call ≠ op.call → writtenBy w.call (s.stream c) = callText s w.call := by
  obtain ⟨hleft, hother⟩ := hturn.first hwriting hsent
  intro w hw hne
  have hwrote := writtenBy_ne_nil hw (htracked.data c w hw)
  -- a call that is being sent has bytes on the connection, so it would not wait
  have hidle : ∀ caller' op', sendingFor s caller' c = some op' → op'.call ≠ w.call := by
    intro caller' op' hop' heq
    by_cases hcaller : caller' = caller
    · rw [hcaller, hsending] at hop'
      cases hop'
      exact hne heq.symm
    · have hnothing := sendingFor_spec htracked hop' hopen
      rw [hother caller' op' hcaller hop', heq] at hnothing
      exact hwrote hnothing
  have hidle' : ∀ caller', (sendingFor s caller' c).all (fun op => decide (op.call ≠ w.call)) = true := by
    intro caller'
    cases hop : sendingFor s caller' c with
    | none => rfl
    | some op' => exact decide_eq_true (hidle caller' op' hop)
  by_contra hpart
  have hany : givenUp s c = true := by
    refine List.any_eq_true.mpr ⟨w, hw, ?_⟩
    rw [hidle' .thread, hidle' .broadcast]
    simpa using hpart
  rw [hleft] at hany
  cases hany

/-- Behind the last byte of the answer to the handshake, before which all
messages are whole, come whole frames and at most one unfinished frame. -/
def FramesWhole (s : Server) (k : ℕ) : Prop :=
  ∃ pre w post, s.stream k = pre ++ w :: post ∧
    (∃ accept, s.calls[w.call]? = some (Call.mk .thread k (.response accept))) ∧
    (∀ w' ∈ pre ++ [w], writtenBy w'.call (pre ++ [w]) = callText s w'.call) ∧
    (∀ w' ∈ post, (∃ caller u, s.calls[w'.call]? = some (Call.mk caller k u) ∧ u.IsFrame) ∧
      ∀ w₀ ∈ pre ++ [w], w₀.call ≠ w'.call) ∧
    Untorn (callText s) post

/-- A recorded call keeps its text. -/
theorem callText_eq {r : ℕ} {call : Call} (h : s.calls[r]? = some call) :
    callText s r = call.unit.encode := by
  rw [callText, h]

/-- Texts of recorded calls stay when calls are added. -/
theorem callText_keep (hcalls : ∀ (r : ℕ) (call : Call), s.calls[r]? = some call → t.calls[r]? = some call)
    {r : ℕ} (hr : r < s.calls.length) : callText t r = callText s r := by
  have hcall := List.getElem?_eq_getElem hr
  rw [callText_eq hcall, callText_eq (hcalls r _ hcall)]

/-- Nothing is written to the connection. -/
theorem FramesWhole.keep {k : ℕ} (h : FramesWhole s k) (htracked : Tracked s)
    (hstream : t.stream k = s.stream k)
    (hcalls : ∀ (r : ℕ) (call : Call), s.calls[r]? = some call → t.calls[r]? = some call) :
    FramesWhole t k := by
  obtain ⟨pre, w, post, hsplit, ⟨accept, hw⟩, hwhole, hpost, huntorn⟩ := h
  have hmem : ∀ w' ∈ pre ++ w :: post, callText t w'.call = callText s w'.call := by
    intro w' hw'
    exact callText_keep hcalls (htracked.calls k w' (by rw [hsplit]; exact hw'))
  refine ⟨pre, w, post, hstream.trans hsplit, ⟨accept, hcalls _ _ hw⟩, fun w' hw' => ?_,
    fun w' hw' => ?_, huntorn.congr fun w' hw' => hmem w' ?_⟩
  · rw [hmem w' ?_]
    · exact hwhole w' hw'
    · rw [List.append_cons]
      exact List.mem_append_left _ hw'
  · obtain ⟨⟨caller, u, hcall, hframe⟩, hapart⟩ := hpost w' hw'
    exact ⟨⟨caller, u, hcalls _ _ hcall, hframe⟩, hapart⟩
  · exact List.mem_append_right _ (List.mem_cons_of_mem _ hw')

/-- What the calls behind the answer have written. -/
theorem writtenBy_behind {pre post stream : Stream UInt8} {w : Write UInt8} {r : ℕ}
    (hsplit : stream = pre ++ w :: post) (hapart : ∀ w₀ ∈ pre ++ [w], w₀.call ≠ r) :
    writtenBy r stream = writtenBy r post := by
  rw [hsplit, List.append_cons, writtenBy_append, writtenBy_eq_nil hapart, List.nil_append]

/-- What the calls before the end of the answer have written. -/
theorem writtenBy_before {pre post stream : Stream UInt8} {w w₀ : Write UInt8}
    (hsplit : stream = pre ++ w :: post) (hw₀ : w₀ ∈ pre ++ [w])
    (hapart : ∀ w' ∈ post, ∀ w₀ ∈ pre ++ [w], w₀.call ≠ w'.call) :
    writtenBy w₀.call stream = writtenBy w₀.call (pre ++ [w]) := by
  have hnone : writtenBy w₀.call post = [] :=
    writtenBy_eq_nil fun w' hw' heq => hapart w' hw' w₀ hw₀ heq.symm
  rw [hsplit, List.append_cons, writtenBy_append, hnone, List.append_nil]

/-- A part of a frame is written behind the answer. -/
theorem FramesWhole.write {k r : ℕ} {caller : Caller} {u : WsUnit} {data : Bytes}
    (h : FramesWhole s k) (hstream : t.stream k = s.stream k ++ [⟨r, data⟩]) (hcalls : t.calls = s.calls)
    (hcall : s.calls[r]? = some (Call.mk caller k u)) (hframe : u.IsFrame) (hdata : data ≠ [])
    (hproper : writtenBy r (s.stream k) ≠ callText s r)
    (hpart : writtenBy r (s.stream k) ++ data <+: callText s r)
    (hothers : ∀ w ∈ s.stream k, w.call ≠ r → writtenBy w.call (s.stream k) = callText s w.call) :
    FramesWhole t k := by
  obtain ⟨pre, w, post, hsplit, ⟨accept, hw⟩, hwhole, hpost, huntorn⟩ := h
  have htext : callText t = callText s := by
    funext r'
    rw [callText, callText, hcalls]
  -- the messages before the end of the answer are whole, so this one is not among them
  have hapart : ∀ w₀ ∈ pre ++ [w], w₀.call ≠ r := by
    rintro w₀ hw₀ rfl
    refine hproper ?_
    rw [writtenBy_before hsplit hw₀ fun w' hw' => (hpost w' hw').2]
    exact hwhole w₀ hw₀
  refine ⟨pre, w, post ++ [⟨r, data⟩], ?_, ⟨accept, by rw [hcalls]; exact hw⟩, ?_, fun w' hw' => ?_, ?_⟩
  · rw [hstream, hsplit, List.append_assoc, List.cons_append]
  · rw [htext]
    exact hwhole
  · rw [hcalls]
    rcases List.mem_append.mp hw' with hold | hnew
    · exact hpost w' hold
    · rw [List.mem_singleton.mp hnew]
      exact ⟨⟨caller, u, hcall, hframe⟩, hapart⟩
  · rw [htext]
    refine huntorn.write hdata ?_ fun w' hw' hne => ?_
    · rw [← writtenBy_behind hsplit hapart]
      exact hpart
    · rw [← writtenBy_behind hsplit (hpost w' hw').2]
      refine hothers w' ?_ hne
      rw [hsplit]
      exact List.mem_append_right _ (List.mem_cons_of_mem _ hw')

/-- An unfinished message stands at the end of the connection. -/
theorem FramesWhole.unfinished_suffix {k r : ℕ} (h : FramesWhole s k)
    (hproper : writtenBy r (s.stream k) ≠ callText s r) :
    writtenBy r (s.stream k) <:+ contents (s.stream k) := by
  obtain ⟨pre, w, post, hsplit, -, hwhole, hpost, huntorn⟩ := h
  have hapart : ∀ w₀ ∈ pre ++ [w], w₀.call ≠ r := by
    rintro w₀ hw₀ rfl
    refine hproper ?_
    rw [writtenBy_before hsplit hw₀ fun w' hw' => (hpost w' hw').2]
    exact hwhole w₀ hw₀
  have hbehind := writtenBy_behind hsplit hapart
  rw [hbehind] at hproper ⊢
  have hcontents : contents (s.stream k) = contents (pre ++ [w]) ++ contents post := by
    rw [hsplit, List.append_cons]
    simp [contents]
  rw [hcontents]
  exact (huntorn.unfinished_suffix hproper).trans (List.suffix_append _ _)

/-- All connections are untorn, and behind the handshake they carry frames. -/
structure InTurn (s : Server) : Prop where
  /-- Whole messages and at most one unfinished message. -/
  untorn : ∀ k, Untorn (callText s) (s.stream k)
  /-- Frames behind the answer. -/
  frames : ∀ k, (s.client k).handshaken = true → FramesWhole s k

/-- When a call sends, all other messages on the connection are whole. -/
theorem InTurn.others (h : InTurn s) (htracked : Tracked s) (hturn : SendsInTurn s a) {caller : Caller}
    {c : ℕ} {op : SendOp} {u : WsUnit} (hwriting : writing s a = some (caller, c, op))
    (hsending : sendingFor s caller c = some op) (hopen : FdOpen s c)
    (hcall : s.calls[op.call]? = some (Call.mk caller c u)) (hproper : op.sent ≠ u.encode) :
    ∀ w ∈ s.stream c, w.call ≠ op.call → writtenBy w.call (s.stream c) = callText s w.call := by
  by_cases hsent : op.sent = []
  · exact others_whole htracked hturn hwriting hsending hopen hsent
  · have hwritten := sendingFor_spec htracked hsending hopen
    refine (h.untorn c).others_finished ?_ ?_
    · rw [hwritten]
      exact hsent
    · rw [hwritten, callText_eq hcall]
      exact hproper

/-- A part of a message that is in turn leaves the connection untorn. -/
theorem InTurn.untorn_write (h : InTurn s) (htracked : Tracked s) {caller : Caller} {c : ℕ}
    {op : SendOp} {u : WsUnit} {data : Bytes}
    (hsending : sendingFor s caller c = some op) (hopen : FdOpen s c)
    (hcall : s.calls[op.call]? = some (Call.mk caller c u)) (hdata : data ≠ [])
    (hpart : op.sent ++ data <+: u.encode)
    (hothers : ∀ w ∈ s.stream c, w.call ≠ op.call →
      writtenBy w.call (s.stream c) = callText s w.call)
    (hstream : t.stream = Function.update s.stream c (s.stream c ++ [⟨op.call, data⟩]))
    (hcalls : t.calls = s.calls) (k : ℕ) : Untorn (callText t) (t.stream k) := by
  have htext : callText t = callText s := by
    funext r
    rw [callText, callText, hcalls]
  rw [htext, hstream]
  by_cases hk : k = c
  · rw [hk, Function.update_self]
    refine (h.untorn c).write hdata ?_ hothers
    rw [sendingFor_spec htracked hsending hopen, callText_eq hcall]
    exact hpart
  · rw [Function.update_of_ne hk]
    exact h.untorn k

/-- A step that writes nothing keeps the order. -/
theorem InTurn.keep (h : InTurn s) (htracked : Tracked s) (hstream : t.stream = s.stream)
    (hcalls : ∀ (r : ℕ) (call : Call), s.calls[r]? = some call → t.calls[r]? = some call)
    (hshaken : ∀ k, (t.client k).handshaken = true → (s.client k).handshaken = true) : InTurn t where
  untorn k := by
    rw [hstream]
    exact (h.untorn k).congr fun w hw => callText_keep hcalls (htracked.calls k w hw)
  frames k hk := (h.frames k (hshaken k hk)).keep htracked (by rw [hstream]) hcalls

/-- The last part of the answer is written in turn: all messages are whole. -/
theorem framesWhole_of_answer {k r : ℕ} {accept : CString} {data : Bytes}
    (hstream : t.stream k = s.stream k ++ [⟨r, data⟩]) (hcalls : t.calls = s.calls)
    (hcall : s.calls[r]? = some (Call.mk .thread k (.response accept)))
    (hend : writtenBy r (s.stream k) ++ data = (WsUnit.response accept).encode)
    (hothers : ∀ w ∈ s.stream k, w.call ≠ r → writtenBy w.call (s.stream k) = callText s w.call) :
    FramesWhole t k := by
  have htext : callText t = callText s := by
    funext r'
    rw [callText, callText, hcalls]
  refine ⟨s.stream k, ⟨r, data⟩, [], hstream, ⟨accept, by rw [hcalls]; exact hcall⟩, fun w hw => ?_,
    nofun, untorn_nil _⟩
  rw [htext]
  by_cases hr : w.call = r
  · rw [hr, writtenBy_snoc_self, hend, callText_eq hcall]
  · rw [writtenBy_snoc_other _ _ (Ne.symm hr)]
    refine hothers w ?_ hr
    rcases List.mem_append.mp hw with hold | hnew
    · exact hold
    · rw [List.mem_singleton.mp hnew] at hr
      exact absurd rfl hr

/-- A send of a client thread in turn keeps the order. -/
theorem InTurn.threadWrite (h : InTurn s) (hown : OwnStreams s) (htracked : Tracked s)
    (hknown : Known s) (hreg : Registered s) (hturn : SendsInTurn s a) {i n : ℕ} {op : SendOp}
    {buffer : Bytes} {rest : List Bytes} (hwriting : writing s a = some (.thread, i, op))
    (hop : (s.client i).pc.op = some op) (htodo : op.todo = buffer :: rest) (hpos : 1 ≤ n)
    (hle : n ≤ buffer.length) (hcalls : t.calls = s.calls)
    (hstream : t.stream = Function.update s.stream i (s.stream i ++ [⟨op.call, buffer.take n⟩]))
    (hothers : OthersStay s t i)
    (hpc : ((op.advance n).todo ≠ [] ∧ (t.client i).pc.op = some (op.advance n) ∧
        (t.client i).pc.stage = (s.client i).pc.stage ∧
        (t.client i).handshaken = (s.client i).handshaken) ∨
      ((op.advance n).todo = [] ∧ (t.client i).pc.op = none ∧ 2 ≤ (t.client i).pc.stage ∧
        (t.client i).handshaken = ((s.client i).handshaken || decide ((s.client i).pc.stage = 1)))) :
    InTurn t := by
  obtain ⟨u, hu, hkind, -⟩ := hreg.thread i op hop
  have hopen := fdOpen_of_target (fun _ => hknown.opFd hop) (hturn.own.target hwriting)
  obtain ⟨hproper, hpart⟩ := (hreg.thread i op hop).sent_front (n := n) htodo hu
  have hdata := take_ne_nil hpos hle
  have hwhole := h.others htracked hturn hwriting hop hopen hu hproper
  have hwritten := htracked.thread i op hop hopen
  have hhere : t.stream i = s.stream i ++ [⟨op.call, buffer.take n⟩] := by
    rw [hstream, Function.update_self]
  have hsending : sendingFor s .thread i = some op := hop
  refine ⟨h.untorn_write htracked hsending hopen hu hdata hpart hwhole hstream hcalls,
    fun k hk => ?_⟩
  by_cases hki : k = i
  · rw [hki] at hk ⊢
    by_cases hold : (s.client i).handshaken = true
    · have hstage := hown.shaken i hold
      have htwo : (s.client i).pc.stage = 2 := by
        rcases stage_of_op hop with hone | htwo
        · omega
        · exact htwo
      refine (h.frames i hold).write hhere hcalls hu (hkind.mpr htwo) hdata ?_ ?_ hwhole
      · rw [hwritten, callText_eq hu]
        exact hproper
      · rw [hwritten, callText_eq hu]
        exact hpart
    · rcases hpc with ⟨-, -, -, hsame⟩ | ⟨hend, -, -, hnew⟩
      · rw [hsame] at hk
        exact absurd hk hold
      · -- the answer is complete with this send
        have hone : (s.client i).pc.stage = 1 := by
          rw [hnew, Bool.or_eq_true] at hk
          exact of_decide_eq_true (hk.resolve_left hold)
        obtain ⟨u', hu', hkind', hall⟩ := (hreg.thread i op hop).finished htodo hle hend
        obtain ⟨accept, rfl⟩ := eq_response fun hframe => by
          have htwo := hkind'.mp hframe
          omega
        refine framesWhole_of_answer hhere hcalls hu' ?_ hwhole
        rw [hwritten]
        exact hall
  · rw [(hothers k hki).2] at hk
    refine (h.frames k hk).keep htracked ?_ fun r call hr => by rwa [hcalls]
    rw [hstream, Function.update_of_ne hki]

/-- A send of the broadcast in turn keeps the order. -/
theorem InTurn.casterWrite (h : InTurn s) (htracked : Tracked s) (hknown : Known s)
    (hreg : Registered s) (hturn : SendsInTurn s a) {c n : ℕ} {msg : Bytes} {op : SendOp}
    {buffer : Bytes} {rest : List Bytes} (hwriting : writing s a = some (.broadcast, c, op))
    (hop : s.caster.op = some (c, msg, op)) (htodo : op.todo = buffer :: rest) (hpos : 1 ≤ n)
    (hle : n ≤ buffer.length) (hcalls : t.calls = s.calls)
    (hstream : t.stream = Function.update s.stream c (s.stream c ++ [⟨op.call, buffer.take n⟩]))
    (hclient : t.client = s.client) : InTurn t := by
  obtain ⟨u, hu, hmsg, -⟩ := hreg.caster c msg op hop
  have hframe : u.IsFrame := by
    rw [hmsg]
    trivial
  have hopen := fdOpen_of_target (fun m => hknown.casterFd c msg op m hop) (hturn.own.target hwriting)
  obtain ⟨hproper, hpart⟩ := (hreg.caster c msg op hop).sent_front (n := n) htodo hu
  have hdata := take_ne_nil hpos hle
  have hsending : sendingFor s .broadcast c = some op := by
    rw [sendingFor, hop]
    exact if_pos rfl
  have hwhole := h.others htracked hturn hwriting hsending hopen hu hproper
  have hwritten := htracked.caster c msg op hop hopen
  refine ⟨h.untorn_write htracked hsending hopen hu hdata hpart hwhole hstream hcalls,
    fun k hk => ?_⟩
  rw [hclient] at hk
  by_cases hkc : k = c
  · rw [hkc] at hk ⊢
    refine (h.frames c hk).write (by rw [hstream, Function.update_self]) hcalls hu hframe hdata ?_ ?_
      hwhole
    · rw [hwritten, callText_eq hu]
      exact hproper
    · rw [hwritten, callText_eq hu]
      exact hpart
  · refine (h.frames k hk).keep htracked ?_ fun r call hr => by rwa [hcalls]
    rw [hstream, Function.update_of_ne hkc]

/-- Every step in turn keeps the order. -/
theorem InTurn.step (h : InTurn s) (hown : OwnStreams s) (htracked : Tracked s) (hknown : Known s)
    (hreg : Registered s) (hturn : SendsInTurn s a) (hstep : serverStep cfg s a = some t) :
    InTurn t := by
  cases serverStep_effect hknown hstep with
  | quiet i hcalls hstream hothers hshaken hpc hcaster =>
    refine h.keep htracked hstream (fun r call hr => by rwa [hcalls]) fun k hk => ?_
    by_cases hki : k = i
    · rw [hki, hshaken] at hk
      rwa [hki]
    · rwa [(hothers k hki).2] at hk
  | threadStart i u hcalls hstream hothers hshaken hop hkind hcaster =>
    refine h.keep htracked hstream (fun r call hr => by rw [hcalls]; exact getElem?_snoc _ hr)
      fun k hk => ?_
    by_cases hki : k = i
    · rw [hki, hshaken] at hk
      rwa [hki]
    · rwa [(hothers k hki).2] at hk
  | casterStart c msg hcalls hstream hclient hvisit halive hop =>
    refine h.keep htracked hstream (fun r call hr => by rw [hcalls]; exact getElem?_snoc _ hr)
      fun k hk => ?_
    rwa [hclient] at hk
  | threadWrite i n k op buffer rest hwriting hop htodo htarget hpos hle hcalls hstream hothers hpc
      hcaster =>
    rw [hturn.own.target hwriting] at htarget
    cases htarget
    exact h.threadWrite hown htracked hknown hreg hturn hwriting hop htodo hpos hle hcalls hstream
      hothers hpc
  | casterWrite c n k msg op buffer rest hwriting hop htodo htarget hpos hle hcalls hstream hclient
      hcaster =>
    rw [hturn.own.target hwriting] at htarget
    cases htarget
    exact h.casterWrite htracked hknown hreg hturn hwriting hop htodo hpos hle hcalls hstream hclient

/-- In every run in which no message starts inside another one, each connection
carries whole messages of its own client and at most one unfinished one behind
them, and behind the answer to its handshake these are frames. -/
theorem frames_untorn {actions : List Action}
    (hrun : Run (serverStep cfg) SendsInTurn Server.init actions s) (k : ℕ) :
    Untorn (callText s) (s.stream k) ∧
      (∀ w ∈ s.stream k, ∃ caller u, s.calls[w.call]? = some (Call.mk caller k u)) ∧
      ((s.client k).handshaken = true → FramesWhole s k) := by
  have hinTurn : InTurn s := by
    induction hrun with
    | nil => exact ⟨fun _ => untorn_nil _, fun _ h => nomatch h⟩
    | snoc hrun hok hstep ih =>
      exact ih.step (ownStreams_of_run (fun _ _ h => h.own) hrun) (tracked_of_run hrun)
        (known_of_run hrun) (registered_of_run hrun) hok hstep
  have hown := ownStreams_of_run (fun _ _ h => h.own) hrun
  exact ⟨hinTurn.untorn k, hown.own k, hinTurn.frames k⟩

/-- The client thread starts its status message and sends its header. -/
def startGreeting : List Action := [.client 0 .proceed, .client 0 (.wrote 2)]

/-- The client thread sends the rest of its status message. -/
def finishGreeting : List Action := [.client 0 (.wrote 20), .client 0 (.wrote 35)]

/-- A broadcast waits for the status message. -/
theorem frames_untorn_greeting :
    ∃ s, Run (serverStep plainConfig) SendsInTurn Server.init
        (acceptOne ++ shakeHands ++ startGreeting ++ finishGreeting ++ castOne) s ∧
      (s.stream 0).map Write.call = [0, 0, 1, 1, 1, 2, 2] ∧ FramesWhole s 0 := by
  have hexec : (exec (serverStep plainConfig) SendsInTurn Server.init
      (acceptOne ++ shakeHands ++ startGreeting ++ finishGreeting ++ castOne)).map
        (fun s => ((s.stream 0).map Write.call, (s.client 0).handshaken)) =
      some ([0, 0, 1, 1, 1, 2, 2], true) := by decide +kernel
  obtain ⟨s, hs, hfacts⟩ := Option.map_eq_some_iff.mp hexec
  obtain ⟨hcalls, hshaken⟩ := Prod.mk.inj hfacts
  have hrun := run_of_exec hs
  exact ⟨s, hrun, hcalls, (frames_untorn hrun 0).2.2 hshaken⟩

/-- A broadcast sends its frame between the header and the payload of the status
message. -/
theorem frame_inside_greeting :
    ∃ s, Run (serverStep plainConfig) anyStep Server.init
        (acceptOne ++ shakeHands ++ startGreeting ++ castOne) s ∧
      (s.client 0).handshaken = true ∧ ¬ FramesWhole s 0 := by
  have hexec : (exec (serverStep plainConfig) anyStep Server.init
      (acceptOne ++ shakeHands ++ startGreeting ++ castOne)).map
        (fun s => ((s.client 0).handshaken, decide (writtenBy 1 (s.stream 0) = callText s 1),
          (writtenBy 1 (s.stream 0)).isSuffixOf (contents (s.stream 0)))) =
      some (true, false, false) := by decide +kernel
  obtain ⟨s, hs, hfacts⟩ := Option.map_eq_some_iff.mp hexec
  simp only [Prod.mk.injEq] at hfacts
  obtain ⟨hshaken, hproper, hsuffix⟩ := hfacts
  refine ⟨s, run_of_exec hs, hshaken, fun hwhole => ?_⟩
  have hend := hwhole.unfinished_suffix (of_decide_eq_false hproper)
  rw [← List.isSuffixOf_iff_suffix, hsuffix] at hend
  cases hend

end TelemetryPlatform.FrameOrder
