import TelemetryPlatform.WsRecords

/-!
# What a step of the server sends

Every step falls into one of five kinds: it sends nothing, it starts a call of
a client thread or of the broadcast, or it is one successful send of such a
call. A client thread answers the handshake before anything else it sends.
-/

namespace TelemetryPlatform.WsSends

open CStrings CallStreams GuardedRuns WsFrames WsServer WsSteps WsRecords

/-- All threads but one stay where they are. -/
def OthersStay (s t : Server) (i : ℕ) : Prop :=
  ∀ j, j ≠ i → (t.client j).pc = (s.client j).pc ∧
    (t.client j).handshaken = (s.client j).handshaken

/-- What a step does to the calls, the streams and the operations. -/
inductive SendEffect (s : Server) (a : Action) (t : Server) : Prop
  /-- Nothing is sent; one thread moves on, the broadcast may end an operation. -/
  | quiet (i : ℕ) (hcalls : t.calls = s.calls) (hstream : t.stream = s.stream)
      (hothers : OthersStay s t i)
      (hshaken : (t.client i).handshaken = (s.client i).handshaken)
      (hpc : (t.client i).pc = (s.client i).pc ∨
        ((t.client i).pc.op = none ∧ (s.client i).pc.stage ≤ (t.client i).pc.stage ∧
          (t.client i).pc.stage ≠ 1 ∧ ((t.client i).pc.stage = 2 → (s.client i).pc.stage = 2)))
      (hcaster : t.caster.op = s.caster.op ∨ t.caster.op = none)
  /-- A client thread starts a call: the answer first, frames once connected. -/
  | threadStart {fd : Option ℕ} (i : ℕ) (u : WsUnit) (hcalls : t.calls = s.calls ++ [⟨.thread, i, u⟩])
      (hstream : t.stream = s.stream) (hothers : OthersStay s t i)
      (hshaken : (t.client i).handshaken = (s.client i).handshaken)
      (hop : (t.client i).pc.op = some (s.startOp fd u))
      (hkind : (¬ u.IsFrame ∧ (s.client i).pc.stage = 0 ∧ (t.client i).pc.stage = 1) ∨
        (u.IsFrame ∧ (s.client i).pc.stage = 2 ∧ (t.client i).pc.stage = 2))
      (hcaster : t.caster = s.caster)
  /-- The broadcast starts a call for a client that is alive. -/
  | casterStart (c : ℕ) (msg : Bytes) (hcalls : t.calls = s.calls ++ [⟨.broadcast, c, .text msg⟩])
      (hstream : t.stream = s.stream) (hclient : t.client = s.client)
      (hvisit : visiting s a = some c) (halive : (s.client c).alive = true)
      (hop : t.caster.op = some (c, msg, s.startOp (s.client c).fd (.text msg)))
  /-- A client thread sends some bytes. -/
  | threadWrite (i n k : ℕ) (op : SendOp) (buffer : Bytes) (rest : List Bytes)
      (hwriting : writing s a = some (.thread, i, op)) (hop : (s.client i).pc.op = some op)
      (htodo : op.todo = buffer :: rest) (htarget : s.target op = some k)
      (hpos : 1 ≤ n) (hle : n ≤ buffer.length) (hcalls : t.calls = s.calls)
      (hstream : t.stream =
        Function.update s.stream k (s.stream k ++ [⟨op.call, buffer.take n⟩]))
      (hothers : OthersStay s t i)
      (hpc : ((op.advance n).todo ≠ [] ∧ (t.client i).pc.op = some (op.advance n) ∧
          (t.client i).pc.stage = (s.client i).pc.stage ∧
          (t.client i).handshaken = (s.client i).handshaken) ∨
        ((op.advance n).todo = [] ∧ (t.client i).pc.op = none ∧ 2 ≤ (t.client i).pc.stage ∧
          (t.client i).handshaken =
            ((s.client i).handshaken || decide ((s.client i).pc.stage = 1))))
      (hcaster : t.caster = s.caster)
  /-- The broadcast sends some bytes. -/
  | casterWrite (c n k : ℕ) (msg : Bytes) (op : SendOp) (buffer : Bytes) (rest : List Bytes)
      (hwriting : writing s a = some (.broadcast, c, op)) (hop : s.caster.op = some (c, msg, op))
      (htodo : op.todo = buffer :: rest) (htarget : s.target op = some k)
      (hpos : 1 ≤ n) (hle : n ≤ buffer.length) (hcalls : t.calls = s.calls)
      (hstream : t.stream =
        Function.update s.stream k (s.stream k ++ [⟨op.call, buffer.take n⟩]))
      (hclient : t.client = s.client)
      (hcaster : ((op.advance n).todo ≠ [] ∧ t.caster.op = some (c, msg, op.advance n)) ∨
        ((op.advance n).todo = [] ∧ t.caster.op = none))

variable {cfg : WsConfig} {s t : Server} {a : Action}

/-- Changing one record leaves the other threads where they are. -/
theorem othersStay_update {i : ℕ} {c : Client} (hclient : t.client = Function.update s.client i c) :
    OthersStay s t i := by
  intro j hj
  rw [hclient, Function.update_of_ne hj]
  exact ⟨rfl, rfl⟩

/-- Where one thread completes no handshake, nobody does. -/
theorem OthersStay.handshaken_eq {i : ℕ} (hothers : OthersStay s t i)
    (hshaken : (t.client i).handshaken = (s.client i).handshaken) (j : ℕ) :
    (t.client j).handshaken = (s.client j).handshaken := by
  by_cases hj : j = i
  · rw [hj, hshaken]
  · exact (hothers j hj).2

/-- No thread is further than leaving. -/
theorem stage_le_three (pc : ClientPc) : pc.stage ≤ 3 := by
  cases pc <;> simp [ClientPc.stage]

/-- A step by which one thread leaves, or goes on leaving, and sends nothing. -/
theorem SendEffect.of_leaving {i : ℕ} {c : Client}
    (hclient : t.client = Function.update s.client i c)
    (hshaken : c.handshaken = (s.client i).handshaken)
    (hcalls : t.calls = s.calls) (hstream : t.stream = s.stream) (hcaster : t.caster = s.caster)
    (hop : c.pc.op = none) (hstage : c.pc.stage = 3) : SendEffect s a t := by
  have hle := stage_le_three (s.client i).pc
  refine .quiet i hcalls hstream (othersStay_update hclient) ?_ (.inr ?_) (.inl (by rw [hcaster]))
  · rw [hclient, Function.update_self, hshaken]
  · rw [hclient, Function.update_self]
    exact ⟨hop, by omega, by omega, by omega⟩

/-- A step by which a connected thread moves on and sends nothing. -/
theorem SendEffect.of_connected {i : ℕ} {c : Client}
    (hclient : t.client = Function.update s.client i c)
    (hshaken : c.handshaken = (s.client i).handshaken)
    (hcalls : t.calls = s.calls) (hstream : t.stream = s.stream) (hcaster : t.caster = s.caster)
    (hop : c.pc.op = none) (hstage : c.pc.stage = 2) (hold : (s.client i).pc.stage = 2) :
    SendEffect s a t := by
  refine .quiet i hcalls hstream (othersStay_update hclient) ?_ (.inr ?_) (.inl (by rw [hcaster]))
  · rw [hclient, Function.update_self, hshaken]
  · rw [hclient, Function.update_self]
    exact ⟨hop, by omega, by omega, by omega⟩

/-- A step that moves no thread and sends nothing. -/
theorem SendEffect.of_pc_eq
    (hclient : ∀ j, (t.client j).pc = (s.client j).pc ∧
      (t.client j).handshaken = (s.client j).handshaken)
    (hcalls : t.calls = s.calls) (hstream : t.stream = s.stream)
    (hcaster : t.caster.op = s.caster.op ∨ t.caster.op = none) : SendEffect s a t :=
  .quiet 0 hcalls hstream (fun j _ => hclient j) (hclient 0).2 (.inl (hclient 0).1) hcaster

/-- A step of a client thread that starts a call. -/
theorem SendEffect.of_threadStart {i : ℕ} {fd : Option ℕ} {u : WsUnit} {c : Client}
    (hclient : t.client = Function.update s.client i c)
    (hshaken : c.handshaken = (s.client i).handshaken)
    (hcalls : t.calls = s.calls ++ [⟨.thread, i, u⟩]) (hstream : t.stream = s.stream)
    (hcaster : t.caster = s.caster) (hop : c.pc.op = some (s.startOp fd u))
    (hkind : (¬ u.IsFrame ∧ (s.client i).pc.stage = 0 ∧ c.pc.stage = 1) ∨
      (u.IsFrame ∧ (s.client i).pc.stage = 2 ∧ c.pc.stage = 2)) : SendEffect s a t := by
  have hstart : (t.client i).pc.op = some (s.startOp fd u) := by
    rw [hclient, Function.update_self, hop]
  refine .threadStart i u hcalls hstream (othersStay_update hclient) ?_ hstart ?_ hcaster
  · rw [hclient, Function.update_self, hshaken]
  · rw [hclient, Function.update_self]
    exact hkind

/-- The call that startSending makes. -/
theorem startSending_effect {i : ℕ} {u : WsUnit} {leave : Bool} (hu : u.IsFrame)
    (hstage : (s.client i).pc.stage = 2) : SendEffect s a (s.startSending i u leave) :=
  .of_threadStart rfl rfl rfl rfl rfl rfl (.inr ⟨hu, hstage, rfl⟩)

/-- The effect of a received frame. -/
theorem handleFrame_effect {i : ℕ} (hstage : (s.client i).pc.stage = 2) (opcode : UInt8)
    (payload : Bytes) : SendEffect s a (handleFrame cfg s i opcode payload) := by
  have hback : ∀ pc : ClientPc, pc.op = none → pc.stage = 2 → SendEffect s a (s.goto i pc) := by
    intro pc hop hpc
    exact .of_connected rfl rfl rfl rfl rfl hop hpc hstage
  unfold handleFrame handleText
  split_ifs
  · exact startSending_effect trivial hstage
  · exact startSending_effect trivial hstage
  · exact hback .loopHead rfl rfl
  · exact hback .loopHead rfl rfl
  · exact hback (.querying _) rfl rfl
  · exact startSending_effect trivial hstage
  · exact hback .loopHead rfl rfl

/-- The effect of a send of a client thread: the call goes on or is finished. -/
theorem clientSend_effect {i n : ℕ} {op : SendOp} (f : Client → Client)
    (hop : (s.client i).pc.op = some op)
    (hmap : (s.send op n).map (fun s' => s'.setClient i f) = some t)
    (hpc : ((op.advance n).todo ≠ [] ∧ (f (s.client i)).pc.op = some (op.advance n) ∧
          (f (s.client i)).pc.stage = (s.client i).pc.stage ∧
          (f (s.client i)).handshaken = (s.client i).handshaken) ∨
        ((op.advance n).todo = [] ∧ (f (s.client i)).pc.op = none ∧
          2 ≤ (f (s.client i)).pc.stage ∧
          (f (s.client i)).handshaken =
            ((s.client i).handshaken || decide ((s.client i).pc.stage = 1)))) :
    SendEffect s (.client i (.wrote n)) t := by
  obtain ⟨s', hsend, hset⟩ := Option.map_eq_some_iff.mp hmap
  obtain ⟨buffer, rest, k, htodo, htarget, hpos, hle, hs'⟩ := send_eq_some hsend
  have hclient : t.client = Function.update s.client i (f (s.client i)) := by
    rw [← hset, hs']
    rfl
  refine .threadWrite i n k op buffer rest ?_ hop htodo htarget hpos hle ?_ ?_
    (othersStay_update hclient) ?_ ?_
  · simp [writing, hop]
  · rw [← hset, hs']
    rfl
  · rw [← hset, hs']
    rfl
  · rw [hclient, Function.update_self]
    exact hpc
  · rw [← hset, hs']
    rfl

/-- The effect of a step of a client thread. -/
theorem clientStep_effect {i : ℕ} {input : ClientInput} (hstep : clientStep cfg s i input = some t) :
    SendEffect s (.client i input) t := by
  unfold clientStep at hstep
  split at hstep
  case h_1 hpc => -- the descriptor is read
    cases hstep
    refine .quiet i rfl rfl (othersStay_update rfl) ?_ (.inr ?_) (.inl rfl)
    · rw [client_goto_self]
    · rw [client_goto_self, hpc]
      exact ⟨rfl, le_rfl, Nat.zero_ne_one, fun h => absurd h (by simp [ClientPc.stage])⟩
  case h_2 => -- the request is not valid
    cases hstep
    exact .of_leaving rfl rfl rfl rfl rfl rfl rfl
  case h_3 fd accept hpc => -- the answer
    split_ifs at hstep
    · cases hstep
      exact .of_threadStart rfl rfl rfl rfl rfl rfl (.inl ⟨id, by rw [hpc]; rfl, rfl⟩)
    · cases hstep
      exact .of_leaving rfl rfl rfl rfl rfl rfl rfl
  case h_4 op n hpc =>
    by_cases hend : (op.advance n).todo = []
    · simp only [hend, if_true] at hstep
      refine clientSend_effect _ (by rw [hpc]; rfl) hstep (.inr ⟨hend, rfl, Nat.le_refl 2, ?_⟩)
      rw [hpc]
      simp [ClientPc.stage]
    · simp only [hend, if_false] at hstep
      exact clientSend_effect _ (by rw [hpc]; rfl) hstep (.inl ⟨hend, rfl, by rw [hpc]; rfl, rfl⟩)
  case h_5 =>
    cases hstep
    exact .of_leaving rfl rfl rfl rfl rfl rfl rfl
  case h_6 hpc => -- the anchor
    split_ifs at hstep
    cases hstep
    exact .of_connected rfl rfl rfl rfl rfl rfl rfl (by rw [hpc]; rfl)
  case h_7 hpc => -- the status message
    split_ifs at hstep
    · cases hstep
      exact startSending_effect trivial (by rw [hpc]; rfl)
    · cases hstep
      exact .of_connected rfl rfl rfl rfl rfl rfl rfl (by rw [hpc]; rfl)
  case h_8 hpc => -- the head of the frame loop
    split_ifs at hstep
    · cases hstep
      exact .of_connected rfl rfl rfl rfl rfl rfl rfl (by rw [hpc]; rfl)
    · cases hstep
      exact .of_leaving rfl rfl rfl rfl rfl rfl rfl
  case h_9 =>
    cases hstep
    exact .of_leaving rfl rfl rfl rfl rfl rfl rfl
  case h_10 opcode payload hpc =>
    cases hstep
    exact handleFrame_effect (by rw [hpc]; rfl) opcode payload
  case h_11 last json hpc =>
    cases hstep
    exact startSending_effect trivial (by rw [hpc]; rfl)
  case h_12 last code hpc =>
    cases hstep
    exact startSending_effect trivial (by rw [hpc]; rfl)
  case h_13 op leave n hpc =>
    by_cases hend : (op.advance n).todo = []
    · simp only [hend, if_true] at hstep
      refine clientSend_effect _ (by rw [hpc]; rfl) hstep (.inr ⟨hend, ?_, ?_, ?_⟩)
      · cases leave <;> rfl
      · cases leave <;> simp [ClientPc.stage]
      · rw [hpc]
        simp [ClientPc.stage]
    · simp only [hend, if_false] at hstep
      exact clientSend_effect _ (by rw [hpc]; rfl) hstep (.inl ⟨hend, rfl, by rw [hpc]; rfl, rfl⟩)
  case h_14 op leave hpc =>
    cases hstep
    cases leave with
    | true => exact .of_leaving rfl rfl rfl rfl rfl rfl rfl
    | false => exact .of_connected rfl rfl rfl rfl rfl rfl rfl (by rw [hpc]; rfl)
  case h_15 =>
    cases hstep
    exact .of_leaving rfl rfl rfl rfl rfl rfl rfl
  case h_16 => -- the descriptor is closed
    split at hstep
    · cases hstep
      exact .of_leaving rfl rfl rfl rfl rfl rfl rfl
    · cases hstep
      exact .of_leaving rfl rfl rfl rfl rfl rfl rfl
  case h_17 =>
    cases hstep
    exact .of_leaving rfl rfl rfl rfl rfl rfl rfl
  case h_18 =>
    split_ifs at hstep
    cases hstep
    exact .of_leaving rfl rfl rfl rfl rfl rfl rfl
  case h_19 =>
    cases hstep
    exact .of_leaving rfl rfl rfl rfl rfl rfl rfl
  case h_20 => cases hstep

/-- The effect of a step of the accept thread. -/
theorem acceptorStep_effect {input : AcceptInput} (hknown : Known s)
    (hstep : AcceptorStep s input t) : SendEffect s (.acceptor input) t := by
  have hsame : ∀ j, (s.client j).pc = (s.client j).pc ∧
      (s.client j).handshaken = (s.client j).handshaken := fun _ => ⟨rfl, rfl⟩
  cases hstep with
  | enters => exact .of_pc_eq hsame rfl rfl (.inl rfl)
  | returns => exact .of_pc_eq hsame rfl rfl (.inl rfl)
  | retries => exact .of_pc_eq hsame rfl rfl (.inl rfl)
  | accepts n => -- the new record was blank and its thread is not created
    refine .of_pc_eq (fun j => ?_) rfl rfl (.inl rfl)
    dsimp only
    by_cases hj : j = s.accepted
    · rw [hj, Function.update_self, hknown.blank s.accepted le_rfl]
      exact ⟨rfl, rfl⟩
    · rw [Function.update_of_ne hj]
      exact ⟨rfl, rfl⟩
  | lists => exact .of_pc_eq hsame rfl rfl (.inl rfl)
  | creates i hacceptor =>
    have hpc := (hknown.pending i (by rw [hacceptor]; rfl)).2
    refine .quiet i rfl rfl (othersStay_update rfl) ?_ (.inr ?_) (.inl rfl)
    · rw [client_goto_self]
    · rw [client_goto_self, hpc]
      exact ⟨rfl, le_rfl, Nat.zero_ne_one, fun h => absurd h (by simp [ClientPc.stage])⟩
  | fails => exact .of_pc_eq hsame rfl rfl (.inl rfl)
  | drops i =>
    refine .quiet i rfl rfl (othersStay_update rfl) ?_ (.inl ?_) (.inl rfl)
    · rw [client_setClient_self]
    · rw [client_setClient_self]
  | closes => exact .of_pc_eq hsame rfl rfl (.inl rfl)
  | removes => exact .of_pc_eq hsame rfl rfl (.inl rfl)
  | frees => exact .of_leaving rfl rfl rfl rfl rfl rfl rfl

/-- The effect of the start of a broadcast. -/
theorem broadcast_effect {msg : Bytes} {dropRoll : ℕ} (hstep : BroadcastStep cfg s msg dropRoll t) :
    SendEffect s a t := by
  have hsame : ∀ j, (s.client j).pc = (s.client j).pc ∧
      (s.client j).handshaken = (s.client j).handshaken := fun _ => ⟨rfl, rfl⟩
  cases hstep with
  | closes =>
    obtain ⟨heq, hkeep⟩ := wsCloseAllClients_frame s.clients { s with cutMsgs := s.cutMsgs + 1 }
    rw [heq]
    exact .of_pc_eq (fun j => ⟨(hkeep j).1, (hkeep j).2.1⟩) rfl rfl (.inl rfl)
  | suppressed => exact .of_pc_eq hsame rfl rfl (.inl rfl)
  | dropped => exact .of_pc_eq hsame rfl rfl (.inl rfl)
  | sleeps => exact .of_pc_eq hsame rfl rfl (.inr rfl)
  | walks => exact .of_pc_eq hsame rfl rfl (.inr rfl)

/-- Releasing a record sends nothing. -/
theorem release_effect {s₀ : Server} {msg : Bytes} {visited rest : List ℕ} {c : ℕ}
    (hpc : ∀ j, (s₀.client j).pc = (s.client j).pc ∧
      (s₀.client j).handshaken = (s.client j).handshaken)
    (hcalls : s₀.calls = s.calls) (hstream : s₀.stream = s.stream) :
    SendEffect s a (s₀.release msg visited c rest) := by
  refine .of_pc_eq (fun j => ?_) ?_ ?_ (.inr rfl)
  · rw [release_client]
    by_cases hj : j = c
    · rw [hj, Function.update_self]
      exact hpc c
    · rw [Function.update_of_ne hj]
      exact hpc j
  · rw [← hcalls, release_eq]
  · rw [← hstream, release_eq]

/-- The effect of a step of the broadcast. -/
theorem casterStep_effect {input : CasterInput} (hstep : CasterStep s input t) :
    SendEffect s (.caster input) t := by
  have hsame : ∀ j, (s.client j).pc = (s.client j).pc ∧
      (s.client j).handshaken = (s.client j).handshaken := fun _ => ⟨rfl, rfl⟩
  cases hstep with
  | wakes => exact .of_pc_eq hsame rfl rfl (.inr rfl)
  | ends => exact .of_pc_eq hsame rfl rfl (.inr rfl)
  | starts msg visited c rest hcaster halive =>
    exact .casterStart c msg rfl rfl rfl (by simp [visiting, hcaster]) halive rfl
  | releases => exact release_effect hsame rfl rfl
  | completes msg visited c rest op n k buffer later hcaster htodo htarget hpos hle hend =>
    have hop : s.caster.op = some (c, msg, op) := by rw [hcaster]; rfl
    have hwriting : writing s (.caster (.wrote n)) = some (.broadcast, c, op) := by
      simp [writing, hop]
    exact .casterWrite c n k msg op buffer later hwriting hop htodo htarget hpos hle rfl rfl rfl
      (.inr ⟨hend, rfl⟩)
  | sends msg visited c rest op n k buffer later hcaster htodo htarget hpos hle hend =>
    have hop : s.caster.op = some (c, msg, op) := by rw [hcaster]; rfl
    have hwriting : writing s (.caster (.wrote n)) = some (.broadcast, c, op) := by
      simp [writing, hop]
    exact .casterWrite c n k msg op buffer later hwriting hop htodo htarget hpos hle rfl rfl rfl
      (.inl ⟨hend, rfl⟩)
  | fails msg visited c rest op hcaster =>
    refine release_effect (fun j => ?_) rfl rfl
    by_cases hj : j = c
    · rw [hj, client_setClient_self]
      exact ⟨rfl, rfl⟩
    · rw [client_setClient_of_ne s _ hj]
      exact ⟨rfl, rfl⟩

/-- The effect of a step of the stop. -/
theorem stop_effect (hstep : StopStep s t) : SendEffect s a t := by
  have hsame : ∀ j, (s.client j).pc = (s.client j).pc ∧
      (s.client j).handshaken = (s.client j).handshaken := fun _ => ⟨rfl, rfl⟩
  cases hstep with
  | called => exact .of_pc_eq hsame rfl rfl (.inl rfl)
  | detaches => exact .of_pc_eq hsame rfl rfl (.inl rfl)
  | frees c rest =>
    rw [closeFd_eq]
    refine .of_pc_eq (fun j => ?_) rfl rfl (.inl rfl)
    dsimp only
    by_cases hj : j = c
    · rw [hj, client_setClient_self]
      exact ⟨rfl, rfl⟩
    · rw [client_setClient_of_ne _ _ hj]
      exact ⟨rfl, rfl⟩

/-- Every step of the server sends in one of the five ways. -/
theorem serverStep_effect (hknown : Known s) (hstep : serverStep cfg s a = some t) :
    SendEffect s a t := by
  cases serverStep_cases hstep with
  | clock now hle => exact .of_pc_eq (fun _ => ⟨rfl, rfl⟩) rfl rfl (.inl rfl)
  | acceptor input _ hacceptor => exact acceptorStep_effect hknown hacceptor
  | client i input _ hclient => exact clientStep_effect hclient
  | broadcast msg dropRoll jitterRoll _ hidle hbroadcast => exact broadcast_effect hbroadcast
  | caster input _ hcaster => exact casterStep_effect hcaster
  | stop _ hstop => exact stop_effect hstop

end TelemetryPlatform.WsSends
