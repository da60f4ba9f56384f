import TelemetryPlatform.HandshakeOrder

/-!
# What a client is told for what it asks

A client thread sends the answer to the handshake, the status message and then
one message at most for each frame that it receives: a pong for a ping, a close
frame for a close frame, a reply or an error for a history request. Over every
run of the server the calls of one thread are the replies to the frames of its
client, in the order of the frames, whatever the other parties do.
-/

namespace TelemetryPlatform.ClientDialogue

open CStrings FormattedText GuardedRuns WsFrames WsServer WsSteps WsRecords WsSends WsCalls
  HandshakeOrder RecordRelease

/-- What a received frame asks for. -/
inductive Reaction where
  /-- Nothing. -/
  | ignore
  /-- A message. -/
  | reply (u : WsUnit)
  /-- A query of the database for the last samples. -/
  | query (last : ℤ)
  /-- The end of the connection. -/
  | close

/-- What a frame asks a server with or without a database for. -/
def reaction (hasDb : Bool) (f : UInt8 × Bytes) : Reaction :=
  if f.1 = 0x8 then .close
  else if f.1 = 0x9 then .reply (.control 0xA f.2)
  else if f.1 = 0x1 ∧ isHistoryRequest (payloadText f.2) = true then
    if hasDb = true then .query (jsonFindInt (payloadText f.2) (lit "\"last\"") 300)
    else .reply (.text dbNotAvailable)
  else .ignore

/-- The message for the outcome of a query. -/
def replyTo : Except ℤ Bytes → WsUnit
  | .ok json => .text json
  | .error _ => .text historyQueryFailed

/-- The messages for a list of frames, given the outcomes of their queries. -/
def repliesTo (hasDb : Bool) : List (UInt8 × Bytes) → List (Except ℤ Bytes) → List WsUnit
  | [], _ => []
  | f :: frames, answers =>
    match reaction hasDb f with
    | .ignore => repliesTo hasDb frames answers
    | .reply u => u :: repliesTo hasDb frames answers
    | .close => .control 0x8 [] :: repliesTo hasDb frames answers
    | .query _ =>
      match answers with
      | [] => []
      | answer :: rest => replyTo answer :: repliesTo hasDb frames rest

/-- The queries that a list of frames asks for, as their limits. -/
def limits (hasDb : Bool) (frames : List (UInt8 × Bytes)) : List ℤ :=
  frames.filterMap fun f =>
    match reaction hasDb f with
    | .query last => some last
    | _ => none

/-- The messages for more frames, once the queries of the first ones are answered. -/
theorem repliesTo_append {hasDb : Bool} {frames : List (UInt8 × Bytes)}
    {answers : List (Except ℤ Bytes)} (hlen : (limits hasDb frames).length = answers.length)
    (later : List (UInt8 × Bytes)) (more : List (Except ℤ Bytes)) :
    repliesTo hasDb (frames ++ later) (answers ++ more) =
      repliesTo hasDb frames answers ++ repliesTo hasDb later more := by
  induction frames generalizing answers with
  | nil =>
    rw [List.eq_nil_of_length_eq_zero hlen.symm]
    rfl
  | cons f frames ih =>
    cases hf : reaction hasDb f with
    | ignore =>
      simp only [limits, List.filterMap_cons, hf] at hlen
      simp only [List.cons_append, repliesTo, hf]
      exact ih hlen
    | reply u =>
      simp only [limits, List.filterMap_cons, hf] at hlen
      simp only [List.cons_append, repliesTo, hf]
      rw [ih hlen]
    | close =>
      simp only [limits, List.filterMap_cons, hf] at hlen
      simp only [List.cons_append, repliesTo, hf]
      rw [ih hlen]
    | query last =>
      simp only [limits, List.filterMap_cons, hf] at hlen
      cases answers with
      | nil => cases hlen
      | cons answer rest =>
        simp only [List.cons_append, repliesTo, hf]
        rw [ih (Nat.succ.inj hlen)]

/-- The messages for one more frame that asks for no query. -/
theorem repliesTo_snoc {hasDb : Bool} {frames : List (UInt8 × Bytes)}
    {answers : List (Except ℤ Bytes)} (hlen : (limits hasDb frames).length = answers.length)
    (f : UInt8 × Bytes) :
    repliesTo hasDb (frames ++ [f]) answers =
      repliesTo hasDb frames answers ++ repliesTo hasDb [f] [] := by
  have happend := repliesTo_append hlen [f] []
  rwa [List.append_nil] at happend

/-- The limits of one more frame. -/
theorem limits_snoc (hasDb : Bool) (frames : List (UInt8 × Bytes)) (f : UInt8 × Bytes) :
    limits hasDb (frames ++ [f]) = limits hasDb frames ++ limits hasDb [f] :=
  List.filterMap_append

/-- The steps of a client thread: where it goes and what it calls. -/
inductive Move (cfg : WsConfig) : ClientPc → ClientInput → ClientPc → List WsUnit → Prop
  /-- The descriptor is read. -/
  | starts (fd : Option ℕ) : Move cfg .starting .proceed (.handshaking fd) []
  /-- There is no valid request, or its answer is too long. -/
  | refuses (fd : Option ℕ) (accept : Option CString) :
      Move cfg (.handshaking fd) (.request accept) .leaving []
  /-- The answer to the request. -/
  | accepts (fd : Option ℕ) (accept : CString) (op : SendOp) :
      Move cfg (.handshaking fd) (.request (some accept)) (.responding op) [.response accept]
  /-- A part of the answer is sent. -/
  | responds (op op' : SendOp) (n : ℕ) : Move cfg (.responding op) (.wrote n) (.responding op') []
  /-- The whole answer is sent. -/
  | shakes (op : SendOp) (n : ℕ) : Move cfg (.responding op) (.wrote n) .anchoring []
  /-- The answer cannot be sent. -/
  | breaks (op : SendOp) : Move cfg (.responding op) .sendFailed .leaving []
  /-- The anchor is set. -/
  | anchors : Move cfg .anchoring .proceed .greeting []
  /-- The status message. -/
  | greets (op : SendOp) :
      Move cfg .greeting .proceed (.sending op false)
        [.text (statusText cfg.expTag.toCString).bytes]
  /-- The frame loop goes on. -/
  | receives : Move cfg .loopHead .proceed .receiving []
  /-- The frame loop ends. -/
  | ends : Move cfg .loopHead .proceed .leaving []
  /-- No frame is received. -/
  | loses : Move cfg .receiving (.frame none) .leaving []
  /-- A frame that asks for nothing. -/
  | ignores (f : UInt8 × Bytes) (hask : reaction cfg.hasDb f = .ignore) :
      Move cfg .receiving (.frame (some f)) .loopHead []
  /-- A frame that asks for a message. -/
  | replies (f : UInt8 × Bytes) (u : WsUnit) (op : SendOp)
      (hask : reaction cfg.hasDb f = .reply u) :
      Move cfg .receiving (.frame (some f)) (.sending op false) [u]
  /-- A frame that ends the connection. -/
  | closes (f : UInt8 × Bytes) (op : SendOp) (hask : reaction cfg.hasDb f = .close) :
      Move cfg .receiving (.frame (some f)) (.sending op true) [.control 0x8 []]
  /-- A frame that asks for a query. -/
  | queries (f : UInt8 × Bytes) (last : ℤ) (hask : reaction cfg.hasDb f = .query last) :
      Move cfg .receiving (.frame (some f)) (.querying last) []
  /-- The outcome of the query. -/
  | answers (last : ℤ) (answer : Except ℤ Bytes) (op : SendOp) :
      Move cfg (.querying last) (.answered answer) (.sending op false) [replyTo answer]
  /-- A part of a message is sent. -/
  | sends (op op' : SendOp) (leave : Bool) (n : ℕ) :
      Move cfg (.sending op leave) (.wrote n) (.sending op' leave) []
  /-- A message is sent, or sending it failed. -/
  | finishes (op : SendOp) (leave : Bool) (input : ClientInput)
      (hinput : input = .sendFailed ∨ ∃ n, input = .wrote n) :
      Move cfg (.sending op leave) input (if leave = true then .leaving else .loopHead) []
  /-- The thread goes on leaving. -/
  | leaves (pc pc' : ClientPc) (hold : pc.stage = 3) (hnew : pc'.stage = 3) :
      Move cfg pc .proceed pc' []

variable {cfg : WsConfig} {s t : Server} {a : Action} {i : ℕ}

/-- The tag fits the buffer of the status message. -/
theorem statusText_length (tag : CharBuf 64) : (statusText tag.toCString).bytes.length < 256 := by
  have hfits := tag.fits
  have htext : (statusText tag.toCString).bytes =
      lit "\x7b\"type\":\"status\",\"status\":\"online\",\"exp_tag\":\"" ++
        (tag.bytes ++ (lit "\"\x7d" ++ [])) := rfl
  have hlen : (lit "\x7b\"type\":\"status\",\"status\":\"online\",\"exp_tag\":\"").length < 50 ∧
      (lit "\"\x7d").length = 2 := by decide
  rw [htext, List.length_append, List.length_append, List.length_append, List.length_nil]
  omega

/-- A new call of a client thread and where the thread goes. -/
theorem startSending_move (s : Server) (i : ℕ) (u : WsUnit) (leave : Bool) :
    ((s.startSending i u leave).client i).pc = .sending (s.startOp (s.client i).fd u) leave ∧
      (s.startSending i u leave).calls = s.calls ++ [⟨.thread, i, u⟩] := by
  refine ⟨?_, rfl⟩
  rw [Server.startSending, client_goto_self]

/-- The step for a received frame. -/
theorem handleFrame_move (s : Server) (i : ℕ) (f : UInt8 × Bytes) :
    ∃ new, Move cfg .receiving (.frame (some f)) ((handleFrame cfg s i f.1 f.2).client i).pc new ∧
      (handleFrame cfg s i f.1 f.2).calls = s.calls ++ new.map (Call.mk .thread i) := by
  have hback : reaction cfg.hasDb f = .ignore →
      ∃ new, Move cfg .receiving (.frame (some f)) ((s.goto i .loopHead).client i).pc new ∧
        (s.goto i .loopHead).calls = s.calls ++ new.map (Call.mk .thread i) := by
    intro hask
    refine ⟨[], ?_, (List.append_nil _).symm⟩
    rw [client_goto_self]
    exact .ignores f hask
  have hreply : ∀ u, reaction cfg.hasDb f = .reply u →
      ∃ new, Move cfg .receiving (.frame (some f)) ((s.startSending i u false).client i).pc new ∧
        (s.startSending i u false).calls = s.calls ++ new.map (Call.mk .thread i) := by
    intro u hask
    obtain ⟨hpc, hcalls⟩ := startSending_move s i u false
    rw [hpc]
    exact ⟨[u], .replies f u _ hask, hcalls⟩
  unfold handleFrame handleText
  by_cases hclose : f.1 = 0x8
  · rw [if_pos hclose]
    obtain ⟨hpc, hcalls⟩ := startSending_move s i (.control 0x8 []) true
    rw [hpc]
    exact ⟨_, .closes f _ (by rw [reaction, if_pos hclose]), hcalls⟩
  rw [if_neg hclose]
  by_cases hping : f.1 = 0x9
  · rw [if_pos hping]
    exact hreply _ (by rw [reaction, if_neg hclose, if_pos hping])
  rw [if_neg hping]
  by_cases hpong : f.1 = 0xA
  · rw [if_pos hpong]
    refine hback ?_
    rw [reaction, if_neg hclose, if_neg hping, if_neg]
    rintro ⟨htext, -⟩
    rw [hpong] at htext
    exact absurd htext (by decide)
  rw [if_neg hpong]
  by_cases htext : f.1 = 0x1
  · rw [if_neg (not_not.mpr htext)]
    by_cases hhistory : isHistoryRequest (payloadText f.2) = true
    · rw [if_pos hhistory]
      have hboth : f.1 = 0x1 ∧ isHistoryRequest (payloadText f.2) = true := ⟨htext, hhistory⟩
      by_cases hdb : cfg.hasDb = true
      · rw [if_pos hdb]
        refine ⟨[], ?_, (List.append_nil _).symm⟩
        rw [client_goto_self]
        exact .queries f _ (by rw [reaction, if_neg hclose, if_neg hping, if_pos hboth, if_pos hdb])
      · rw [if_neg hdb]
        exact hreply _ (by rw [reaction, if_neg hclose, if_neg hping, if_pos hboth, if_neg hdb])
    · rw [if_neg hhistory]
      exact hback (by rw [reaction, if_neg hclose, if_neg hping, if_neg fun h => hhistory h.2])
  · rw [if_pos htext]
    exact hback (by rw [reaction, if_neg hclose, if_neg hping, if_neg fun h => htext h.1])

/-- A step of a client thread that makes no call. -/
theorem move_quiet {input : ClientInput} {pc : ClientPc} {c : Client}
    (hclient : t.client = Function.update s.client i c) (hpc : c.pc = pc)
    (hcalls : t.calls = s.calls) (hmove : Move cfg (s.client i).pc input pc []) :
    ∃ new, Move cfg (s.client i).pc input (t.client i).pc new ∧
      t.calls = s.calls ++ new.map (Call.mk .thread i) := by
  refine ⟨[], ?_, by rw [hcalls, List.map_nil, List.append_nil]⟩
  rw [hclient, Function.update_self, hpc]
  exact hmove

/-- A send makes no call. -/
theorem move_send {input : ClientInput} {op : SendOp} {n : ℕ} {f : Client → Client}
    (hmap : (s.send op n).map (fun s' => s'.setClient i f) = some t)
    (hmove : Move cfg (s.client i).pc input (f (s.client i)).pc []) :
    ∃ new, Move cfg (s.client i).pc input (t.client i).pc new ∧
      t.calls = s.calls ++ new.map (Call.mk .thread i) := by
  obtain ⟨s', hsend, hset⟩ := Option.map_eq_some_iff.mp hmap
  obtain ⟨buffer, rest, k, -, -, -, -, hs'⟩ := send_eq_some hsend
  have hclient : t.client = Function.update s.client i (f (s.client i)) := by
    rw [← hset, hs']
    rfl
  have hcalls : t.calls = s.calls := by
    rw [← hset, hs']
    rfl
  exact move_quiet hclient rfl hcalls hmove

/-- Every step of a client thread is in the list. -/
theorem clientStep_move {input : ClientInput} (hstep : clientStep cfg s i input = some t) :
    ∃ new, Move cfg (s.client i).pc input (t.client i).pc new ∧
      t.calls = s.calls ++ new.map (Call.mk .thread i) := by
  unfold clientStep at hstep
  split at hstep
  case h_1 hpc =>
    cases hstep
    exact move_quiet rfl rfl rfl (by rw [hpc]; exact .starts _)
  case h_2 hpc =>
    cases hstep
    exact move_quiet rfl rfl rfl (by rw [hpc]; exact .refuses _ _)
  case h_3 fd accept hpc =>
    split_ifs at hstep
    · cases hstep
      refine ⟨[.response accept], ?_, rfl⟩
      rw [client_goto_self, hpc]
      exact .accepts _ _ _
    · cases hstep
      exact move_quiet rfl rfl rfl (by rw [hpc]; exact .refuses _ _)
  case h_4 op n hpc =>
    by_cases hend : (op.advance n).todo = []
    · simp only [hend, if_true] at hstep
      exact move_send hstep (by rw [hpc]; exact .shakes op n)
    · simp only [hend, if_false] at hstep
      exact move_send hstep (by rw [hpc]; exact .responds op _ n)
  case h_5 op hpc =>
    cases hstep
    exact move_quiet rfl rfl rfl (by rw [hpc]; exact .breaks op)
  case h_6 hpc =>
    split_ifs at hstep
    cases hstep
    exact move_quiet rfl rfl rfl (by rw [hpc]; exact .anchors)
  case h_7 hpc =>
    rw [if_pos (statusText_length cfg.expTag)] at hstep
    cases hstep
    obtain ⟨hnew, hcalls⟩ := startSending_move s i
      (.text (statusText cfg.expTag.toCString).bytes) false
    rw [hnew, hpc]
    exact ⟨_, .greets _, hcalls⟩
  case h_8 hpc =>
    split_ifs at hstep
    · cases hstep
      exact move_quiet rfl rfl rfl (by rw [hpc]; exact .receives)
    · cases hstep
      exact move_quiet rfl rfl rfl (by rw [hpc]; exact .ends)
  case h_9 hpc =>
    cases hstep
    exact move_quiet rfl rfl rfl (by rw [hpc]; exact .loses)
  case h_10 opcode payload hpc =>
    cases hstep
    rw [hpc]
    exact handleFrame_move s i (opcode, payload)
  case h_11 last json hpc =>
    cases hstep
    obtain ⟨hnew, hcalls⟩ := startSending_move s i (.text json) false
    rw [hnew, hpc]
    exact ⟨_, .answers last (.ok json) _, hcalls⟩
  case h_12 last code hpc =>
    cases hstep
    obtain ⟨hnew, hcalls⟩ := startSending_move s i (.text historyQueryFailed) false
    rw [hnew, hpc]
    exact ⟨_, .answers last (.error code) _, hcalls⟩
  case h_13 op leave n hpc =>
    by_cases hend : (op.advance n).todo = []
    · simp only [hend, if_true] at hstep
      exact move_send hstep (by rw [hpc]; exact .finishes op leave _ (.inr ⟨n, rfl⟩))
    · simp only [hend, if_false] at hstep
      exact move_send hstep (by rw [hpc]; exact .sends op _ leave n)
  case h_14 op leave hpc =>
    cases hstep
    exact move_quiet rfl rfl rfl (by rw [hpc]; exact .finishes op leave _ (.inl rfl))
  case h_15 hpc =>
    cases hstep
    exact move_quiet rfl rfl rfl (by rw [hpc]; exact .leaves _ .closing rfl rfl)
  case h_16 hpc =>
    split at hstep
    · cases hstep
      exact move_quiet rfl rfl rfl (by rw [hpc]; exact .leaves _ .clearing rfl rfl)
    · cases hstep
      exact move_quiet rfl rfl rfl (by rw [hpc]; exact .leaves _ .removing rfl rfl)
  case h_17 hpc =>
    cases hstep
    exact move_quiet rfl rfl rfl (by rw [hpc]; exact .leaves _ .removing rfl rfl)
  case h_18 hpc =>
    split_ifs at hstep
    cases hstep
    exact move_quiet rfl rfl rfl (by rw [hpc]; exact .leaves _ .freeing rfl rfl)
  case h_19 hpc =>
    cases hstep
    exact move_quiet rfl rfl rfl (by rw [hpc]; exact .leaves _ .finished rfl rfl)
  case h_20 => cases hstep

/-- The messages that one caller has made for one client. -/
def unitsOf (caller : Caller) (i : ℕ) (calls : List Call) : List WsUnit :=
  calls.filterMap fun c => if c.caller = caller ∧ c.client = i then some c.unit else none

/-- The frame that an input brings. -/
def framesIn : ClientInput → List (UInt8 × Bytes)
  | .frame f => f.toList
  | _ => []

/-- The outcome of a query that an input brings. -/
def answersIn : ClientInput → List (Except ℤ Bytes)
  | .answered answer => [answer]
  | _ => []

/-- The inputs of one client thread. -/
def inputsOf (i : ℕ) (actions : List Action) : List ClientInput :=
  actions.filterMap fun
    | .client j input => if j = i then some input else none
    | _ => none

/-- The frames that one client thread has received. -/
def framesOf (i : ℕ) (actions : List Action) : List (UInt8 × Bytes) :=
  (inputsOf i actions).flatMap framesIn

/-- The outcomes of the queries that one client thread has made. -/
def answersOf (i : ℕ) (actions : List Action) : List (Except ℤ Bytes) :=
  (inputsOf i actions).flatMap answersIn

/-- A frame brings itself and no outcome. -/
@[simp] theorem framesIn_frame (f : UInt8 × Bytes) :
    framesIn (.frame (some f)) = [f] ∧ answersIn (.frame (some f)) = [] := ⟨rfl, rfl⟩

/-- An outcome brings itself and no frame. -/
@[simp] theorem framesIn_answered (answer : Except ℤ Bytes) :
    framesIn (.answered answer) = [] ∧ answersIn (.answered answer) = [answer] := ⟨rfl, rfl⟩

/-- The messages of a client after more calls of its thread. -/
theorem unitsOf_own (i : ℕ) (calls : List Call) (new : List WsUnit) :
    unitsOf .thread i (calls ++ new.map (Call.mk .thread i)) = unitsOf .thread i calls ++ new := by
  rw [unitsOf, List.filterMap_append, List.filterMap_map]
  congr 1
  induction new with
  | nil => rfl
  | cons u new ih =>
    rw [List.filterMap_cons, Function.comp_apply, if_pos ⟨rfl, rfl⟩, ih]

/-- A call of another caller or for another client is no message of these two. -/
theorem unitsOf_snoc_other {caller : Caller} {i : ℕ} {c : Call}
    (hother : ¬ (c.caller = caller ∧ c.client = i)) (calls : List Call) :
    unitsOf caller i (calls ++ [c]) = unitsOf caller i calls := by
  rw [unitsOf, List.filterMap_append, List.filterMap_cons, if_neg hother, List.filterMap_nil,
    List.append_nil]
  rfl

/-- Calls of another thread leave the messages alone. -/
theorem unitsOf_thread_other {caller : Caller} {i j : ℕ} (hother : ¬ (.thread = caller ∧ j = i))
    (calls : List Call) (new : List WsUnit) :
    unitsOf caller i (calls ++ new.map (Call.mk .thread j)) = unitsOf caller i calls := by
  rw [unitsOf, List.filterMap_append, List.filterMap_map]
  have hnone : new.filterMap ((fun c : Call =>
      if c.caller = caller ∧ c.client = i then some c.unit else none) ∘ Call.mk .thread j) = [] :=
    List.filterMap_eq_nil_iff.mpr fun u _ => if_neg hother
  rw [hnone, List.append_nil]
  rfl

/-- Answer and status message are made, and a reply to each of the frames. -/
def Settled (cfg : WsConfig) (units : List WsUnit) (frames : List (UInt8 × Bytes))
    (answers : List (Except ℤ Bytes)) : Prop :=
  (∃ accept, units = .response accept :: .text (statusText cfg.expTag.toCString).bytes ::
    repliesTo cfg.hasDb frames answers) ∧
    (limits cfg.hasDb frames).length = answers.length

/-- No frame asks for the end of the connection. -/
def StaysOpen (hasDb : Bool) (frames : List (UInt8 × Bytes)) : Prop :=
  ∀ f ∈ frames, reaction hasDb f ≠ .close

/-- No frame but the last one does. -/
def EndsOnce (hasDb : Bool) (frames : List (UInt8 × Bytes)) : Prop :=
  StaysOpen hasDb frames.dropLast

/-- Only the answer to the handshake is made. -/
def Answered (units : List WsUnit) (frames : List (UInt8 × Bytes))
    (answers : List (Except ℤ Bytes)) : Prop :=
  (∃ accept, units = [.response accept]) ∧ frames = [] ∧ answers = []

/-- What a thread has made of what it received, by where it is. -/
def Talk (cfg : WsConfig) (units : List WsUnit) (frames : List (UInt8 × Bytes))
    (answers : List (Except ℤ Bytes)) : ClientPc → Prop
  | .unborn | .starting | .handshaking _ => units = [] ∧ frames = [] ∧ answers = []
  | .responding _ | .anchoring | .greeting => Answered units frames answers
  | .loopHead | .receiving | .sending _ false =>
    Settled cfg units frames answers ∧ StaysOpen cfg.hasDb frames
  | .querying last => ∃ front f, frames = front ++ [f] ∧ reaction cfg.hasDb f = .query last ∧
      Settled cfg units front answers ∧ StaysOpen cfg.hasDb front
  | .sending _ true => Settled cfg units frames answers ∧ EndsOnce cfg.hasDb frames
  | .leaving | .closing | .clearing | .removing | .freeing | .finished =>
    (units = [] ∧ frames = [] ∧ answers = []) ∨ Answered units frames answers ∨
      (Settled cfg units frames answers ∧ EndsOnce cfg.hasDb frames)

/-- A connection that stays open ends once at most. -/
theorem StaysOpen.endsOnce {hasDb : Bool} {frames : List (UInt8 × Bytes)}
    (h : StaysOpen hasDb frames) : EndsOnce hasDb frames :=
  fun f hf => h f (List.mem_of_mem_dropLast hf)

/-- One more frame that does not end the connection. -/
theorem StaysOpen.snoc {hasDb : Bool} {frames : List (UInt8 × Bytes)} (h : StaysOpen hasDb frames)
    {f : UInt8 × Bytes} (hf : reaction hasDb f ≠ .close) : StaysOpen hasDb (frames ++ [f]) := by
  intro g hg
  rcases List.mem_append.mp hg with hold | hnew
  · exact h g hold
  · rw [List.mem_singleton.mp hnew]
    exact hf

/-- One more frame that asks for no query is settled by its messages. -/
theorem Settled.snoc {units : List WsUnit} {frames : List (UInt8 × Bytes)}
    {answers : List (Except ℤ Bytes)} (h : Settled cfg units frames answers) {f : UInt8 × Bytes}
    {new : List WsUnit} (hnew : repliesTo cfg.hasDb [f] [] = new)
    (hlimits : limits cfg.hasDb [f] = []) :
    Settled cfg (units ++ new) (frames ++ [f]) answers := by
  obtain ⟨⟨accept, hunits⟩, hlen⟩ := h
  refine ⟨⟨accept, ?_⟩, ?_⟩
  · rw [hunits, repliesTo_snoc hlen, hnew]
    rfl
  · rw [limits_snoc, hlimits, List.append_nil, hlen]

/-- The outcome of a query settles its frame. -/
theorem Settled.answer {units : List WsUnit} {frames : List (UInt8 × Bytes)}
    {answers : List (Except ℤ Bytes)} (h : Settled cfg units frames answers) {f : UInt8 × Bytes}
    {last : ℤ} (hask : reaction cfg.hasDb f = .query last) (answer : Except ℤ Bytes) :
    Settled cfg (units ++ [replyTo answer]) (frames ++ [f]) (answers ++ [answer]) := by
  obtain ⟨⟨accept, hunits⟩, hlen⟩ := h
  refine ⟨⟨accept, ?_⟩, ?_⟩
  · rw [hunits, repliesTo_append hlen]
    simp only [repliesTo, hask, List.cons_append]
  · rw [limits_snoc, List.length_append, List.length_append, hlen]
    simp only [limits, List.filterMap_cons, hask, List.filterMap_nil, List.length_singleton]

/-- A thread that leaves keeps what it has made. -/
theorem Talk.leaves {units : List WsUnit} {frames : List (UInt8 × Bytes)}
    {answers : List (Except ℤ Bytes)} {pc : ClientPc} (hstage : pc.stage = 3) :
    Talk cfg units frames answers pc ↔
      (units = [] ∧ frames = [] ∧ answers = []) ∨ Answered units frames answers ∨
        (Settled cfg units frames answers ∧ EndsOnce cfg.hasDb frames) := by
  cases pc with
  | leaving => exact Iff.rfl
  | closing => exact Iff.rfl
  | clearing => exact Iff.rfl
  | removing => exact Iff.rfl
  | freeing => exact Iff.rfl
  | finished => exact Iff.rfl
  | _ => cases hstage

/-- A step of the thread settles what it receives. -/
theorem Talk.move {units new : List WsUnit} {frames : List (UInt8 × Bytes)}
    {answers : List (Except ℤ Bytes)} {pc pc' : ClientPc} {input : ClientInput}
    (h : Talk cfg units frames answers pc) (hmove : Move cfg pc input pc' new) :
    Talk cfg (units ++ new) (frames ++ framesIn input)
      (answers ++ answersIn input) pc' := by
  cases hmove with
  | starts fd => simpa [Talk, framesIn, answersIn] using h
  | refuses fd accept =>
    refine .inl ?_
    simpa [Talk, framesIn, answersIn] using h
  | accepts fd accept op =>
    obtain ⟨hunits, hframes, hanswers⟩ := h
    rw [hunits, hframes, hanswers]
    exact ⟨⟨accept, rfl⟩, rfl, rfl⟩
  | responds op op' n => simpa [Talk, framesIn, answersIn] using h
  | shakes op n => simpa [Talk, framesIn, answersIn] using h
  | breaks op =>
    refine .inr (.inl ?_)
    simpa [Talk, framesIn, answersIn] using h
  | anchors => simpa [Talk, framesIn, answersIn] using h
  | greets op =>
    obtain ⟨⟨accept, hunits⟩, hframes, hanswers⟩ := h
    rw [hunits, hframes, hanswers]
    exact ⟨⟨⟨accept, rfl⟩, rfl⟩, fun f hf => absurd hf List.not_mem_nil⟩
  | receives => simpa [Talk, framesIn, answersIn] using h
  | ends =>
    refine .inr (.inr ?_)
    obtain ⟨hsettled, hopen⟩ := h
    simpa [framesIn, answersIn] using ⟨hsettled, hopen.endsOnce⟩
  | loses =>
    refine .inr (.inr ?_)
    obtain ⟨hsettled, hopen⟩ := h
    simpa [framesIn, answersIn] using ⟨hsettled, hopen.endsOnce⟩
  | ignores f hask =>
    obtain ⟨hsettled, hopen⟩ := h
    rw [(framesIn_frame f).1, (framesIn_frame f).2, List.append_nil answers]
    refine ⟨hsettled.snoc ?_ ?_, hopen.snoc (by rw [hask]; exact nofun)⟩
    · simp only [repliesTo, hask]
    · simp only [limits, List.filterMap_cons, hask, List.filterMap_nil]
  | replies f u op hask =>
    obtain ⟨hsettled, hopen⟩ := h
    rw [(framesIn_frame f).1, (framesIn_frame f).2, List.append_nil answers]
    refine ⟨hsettled.snoc ?_ ?_, hopen.snoc (by rw [hask]; exact nofun)⟩
    · simp only [repliesTo, hask]
    · simp only [limits, List.filterMap_cons, hask, List.filterMap_nil]
  | closes f op hask =>
    obtain ⟨hsettled, hopen⟩ := h
    rw [(framesIn_frame f).1, (framesIn_frame f).2, List.append_nil answers]
    refine ⟨hsettled.snoc ?_ ?_, ?_⟩
    · simp only [repliesTo, hask]
    · simp only [limits, List.filterMap_cons, hask, List.filterMap_nil]
    · rw [EndsOnce, List.dropLast_concat]
      exact hopen
  | queries f last hask =>
    obtain ⟨hsettled, hopen⟩ := h
    rw [(framesIn_frame f).1, (framesIn_frame f).2, List.append_nil, List.append_nil]
    exact ⟨frames, f, rfl, hask, hsettled, hopen⟩
  | answers last answer op =>
    obtain ⟨front, f, hframes, hask, hsettled, hopen⟩ := h
    rw [(framesIn_answered answer).1, (framesIn_answered answer).2, List.append_nil, hframes]
    exact ⟨hsettled.answer hask answer, hopen.snoc (by rw [hask]; exact nofun)⟩
  | sends op op' leave n =>
    cases leave with
    | false => simpa [Talk, framesIn, answersIn] using h
    | true => simpa [Talk, framesIn, answersIn] using h
  | finishes op leave input hinput =>
    have hnone : framesIn input = [] ∧ answersIn input = [] := by
      rcases hinput with rfl | ⟨n, rfl⟩ <;> exact ⟨rfl, rfl⟩
    rw [hnone.1, hnone.2, List.append_nil, List.append_nil, List.append_nil]
    cases leave with
    | false => exact h
    | true => exact .inr (.inr h)
  | leaves pc pc' hold hnew =>
    simp only [framesIn, answersIn, List.append_nil]
    exact (Talk.leaves hnew).mpr ((Talk.leaves hold).mp h)

/-- Where a thread may be after a step of another party: where it was, or it is
created or its creation failed. -/
def StaysOrCreated (pc pc' : ClientPc) : Prop :=
  pc' = pc ∨ (pc = .unborn ∧ (pc' = .starting ∨ pc' = .finished))

/-- A record that no thread runs in, or whose thread is not the one asked for. -/
theorem staysOrCreated_update {client : ℕ → Client} {j : ℕ} {c : Client}
    (hc : StaysOrCreated (client j).pc c.pc) (i : ℕ) :
    StaysOrCreated (client i).pc (Function.update client j c i).pc := by
  by_cases hij : i = j
  · rw [hij, Function.update_self]
    exact hc
  · rw [Function.update_of_ne hij]
    exact .inl rfl

/-- The accept thread makes no call and creates threads only. -/
theorem acceptorStep_elsewhere (hknown : Known s) {input : AcceptInput}
    (hstep : AcceptorStep s input t) (i : ℕ) :
    t.calls = s.calls ∧ StaysOrCreated (s.client i).pc (t.client i).pc := by
  cases hstep with
  | enters => exact ⟨rfl, .inl rfl⟩
  | returns => exact ⟨rfl, .inl rfl⟩
  | retries => exact ⟨rfl, .inl rfl⟩
  | accepts n => -- the record was blank
    refine ⟨rfl, staysOrCreated_update (.inl ?_) i⟩
    rw [hknown.blank s.accepted le_rfl]
    rfl
  | lists => exact ⟨rfl, .inl rfl⟩
  | creates j hacceptor =>
    have hpc := (hknown.pending j (by rw [hacceptor]; rfl)).2
    exact ⟨rfl, staysOrCreated_update (.inr ⟨hpc, .inl rfl⟩) i⟩
  | fails => exact ⟨rfl, .inl rfl⟩
  | drops j => exact ⟨rfl, staysOrCreated_update (.inl (by rfl)) i⟩
  | closes => exact ⟨rfl, .inl rfl⟩
  | removes => exact ⟨rfl, .inl rfl⟩
  | frees j hacceptor =>
    have hpc := (hknown.pending j (by rw [hacceptor]; rfl)).2
    exact ⟨rfl, staysOrCreated_update (.inr ⟨hpc, .inr rfl⟩) i⟩

/-- Releasing a record makes no call and moves no thread. -/
theorem release_elsewhere (s : Server) (msg : Bytes) (visited rest : List ℕ) (c i : ℕ) :
    (s.release msg visited c rest).calls = s.calls ∧
      ((s.release msg visited c rest).client i).pc = (s.client i).pc := by
  constructor
  · rw [release_eq]
  · rw [release_client]
    exact pc_of_update (by rfl) i

/-- A step of another party makes no call of a thread and moves it at most at
its creation. -/
theorem serverStep_elsewhere (hknown : Known s) (hstep : serverStep cfg s a = some t)
    (hother : ∀ input, a ≠ .client i input) :
    unitsOf .thread i t.calls = unitsOf .thread i s.calls ∧
      StaysOrCreated (s.client i).pc (t.client i).pc := by
  cases serverStep_cases hstep with
  | clock now hle => exact ⟨rfl, .inl rfl⟩
  | acceptor input _ hacceptor =>
    obtain ⟨hcalls, hpc⟩ := acceptorStep_elsewhere hknown hacceptor i
    exact ⟨by rw [hcalls], hpc⟩
  | client j input _ hclient =>
    have hne : j ≠ i := fun h => hother input (by rw [h])
    obtain ⟨new, -, hcalls⟩ := clientStep_move hclient
    obtain ⟨c, hthread⟩ := clientStep_threadStep hclient
    refine ⟨by rw [hcalls, unitsOf_thread_other fun h => hne h.2], .inl ?_⟩
    rw [hthread.client, Function.update_of_ne hne.symm]
  | broadcast msg dropRoll jitterRoll _ hidle hbroadcast =>
    cases hbroadcast with
    | closes =>
      obtain ⟨heq, hkeep⟩ := wsCloseAllClients_frame s.clients { s with cutMsgs := s.cutMsgs + 1 }
      rw [heq]
      exact ⟨rfl, .inl (hkeep i).1⟩
    | suppressed => exact ⟨rfl, .inl rfl⟩
    | dropped => exact ⟨rfl, .inl rfl⟩
    | sleeps => exact ⟨rfl, .inl rfl⟩
    | walks => exact ⟨rfl, .inl rfl⟩
  | caster input _ hcaster =>
    cases hcaster with
    | wakes => exact ⟨rfl, .inl rfl⟩
    | ends => exact ⟨rfl, .inl rfl⟩
    | starts => exact ⟨unitsOf_snoc_other (fun h => by cases h.1) _, .inl rfl⟩
    | releases msg visited c rest =>
      obtain ⟨hcalls, hpc⟩ := release_elsewhere s msg visited rest c i
      exact ⟨by rw [hcalls], .inl hpc⟩
    | completes => exact ⟨rfl, .inl rfl⟩
    | sends => exact ⟨rfl, .inl rfl⟩
    | fails msg visited c rest =>
      obtain ⟨hcalls, hpc⟩ := release_elsewhere
        (s.setClient c fun r => { r with alive := false }) msg visited rest c i
      refine ⟨by rw [hcalls]; rfl, .inl (hpc.trans ?_)⟩
      exact pc_of_update (by rfl) i
  | stop _ hstop =>
    cases hstop with
    | called => exact ⟨rfl, .inl rfl⟩
    | detaches => exact ⟨rfl, .inl rfl⟩
    | frees c rest =>
      rw [closeFd_eq]
      exact ⟨rfl, .inl (pc_of_update (by rfl) i)⟩

/-- What a thread has made, in a few cases. -/
theorem Talk.cases {units : List WsUnit} {frames : List (UInt8 × Bytes)}
    {answers : List (Except ℤ Bytes)} {pc : ClientPc} (h : Talk cfg units frames answers pc) :
    (units = [] ∧ frames = [] ∧ answers = []) ∨ Answered units frames answers ∨
      (Settled cfg units frames answers ∧ EndsOnce cfg.hasDb frames) ∨
      ∃ last front f, pc = .querying last ∧ frames = front ++ [f] ∧
        reaction cfg.hasDb f = .query last ∧ Settled cfg units front answers ∧
          StaysOpen cfg.hasDb front := by
  have hleaving : pc.stage = 3 → _ := fun hstage =>
    ((Talk.leaves hstage).mp h).imp_right (Or.imp_right (Or.inl (b := ∃ last front f,
      pc = .querying last ∧ frames = front ++ [f] ∧ reaction cfg.hasDb f = .query last ∧
        Settled cfg units front answers ∧ StaysOpen cfg.hasDb front)))
  cases pc with
  | unborn => exact .inl h
  | starting => exact .inl h
  | handshaking fd => exact .inl h
  | responding op => exact .inr (.inl h)
  | anchoring => exact .inr (.inl h)
  | greeting => exact .inr (.inl h)
  | loopHead => exact .inr (.inr (.inl ⟨h.1, h.2.endsOnce⟩))
  | receiving => exact .inr (.inr (.inl ⟨h.1, h.2.endsOnce⟩))
  | querying last =>
    obtain ⟨front, f, hrest⟩ := h
    exact .inr (.inr (.inr ⟨last, front, f, rfl, hrest⟩))
  | sending op leave =>
    cases leave with
    | false => exact .inr (.inr (.inl ⟨h.1, h.2.endsOnce⟩))
    | true => exact .inr (.inr (.inl h))
  | leaving => exact hleaving rfl
  | closing => exact hleaving rfl
  | clearing => exact hleaving rfl
  | removing => exact hleaving rfl
  | freeing => exact hleaving rfl
  | finished => exact hleaving rfl

/-- A step of another party brings the thread nothing. -/
theorem inputsOf_snoc_other {actions : List Action} (hother : ∀ input, a ≠ .client i input) :
    inputsOf i (actions ++ [a]) = inputsOf i actions := by
  rw [inputsOf, List.filterMap_append, inputsOf]
  cases a with
  | client j input =>
    have hne : j ≠ i := fun h => hother input (by rw [h])
    simp [hne]
  | _ => simp

/-- A step of the thread brings it the input. -/
theorem inputsOf_snoc_own (i : ℕ) (actions : List Action) (input : ClientInput) :
    inputsOf i (actions ++ [.client i input]) = inputsOf i actions ++ [input] := by
  rw [inputsOf, List.filterMap_append, inputsOf]
  simp

/-- Every step of the server keeps what a thread has made of what it received. -/
theorem Talk.step {actions : List Action}
    (h : Talk cfg (unitsOf .thread i s.calls) (framesOf i actions) (answersOf i actions)
      (s.client i).pc)
    (hknown : Known s) (hstep : serverStep cfg s a = some t) :
    Talk cfg (unitsOf .thread i t.calls) (framesOf i (actions ++ [a])) (answersOf i (actions ++ [a]))
      (t.client i).pc := by
  by_cases hown : ∃ input, a = .client i input
  · obtain ⟨input, rfl⟩ := hown
    obtain ⟨new, hmove, hcalls⟩ := clientStep_move hstep
    have hnext := h.move hmove
    rw [hcalls, unitsOf_own, framesOf, answersOf, inputsOf_snoc_own, List.flatMap_append,
      List.flatMap_append, List.flatMap_singleton, List.flatMap_singleton]
    exact hnext
  · have hother : ∀ input, a ≠ .client i input := fun input heq => hown ⟨input, heq⟩
    obtain ⟨hunits, hpc⟩ := serverStep_elsewhere hknown hstep hother
    rw [hunits, framesOf, answersOf, inputsOf_snoc_other hother]
    rcases hpc with hsame | ⟨hold, hnew⟩
    · rw [hsame]
      exact h
    · rw [hold] at h
      rcases hnew with hnew | hnew
      · rw [hnew]
        exact h
      · rw [hnew]
        exact .inl h

/-- So it is in every reachable state. -/
theorem talk_of_run {ok : Server → Action → Prop} {actions : List Action}
    (hrun : Run (serverStep cfg) ok Server.init actions s) (i : ℕ) :
    Talk cfg (unitsOf .thread i s.calls) (framesOf i actions) (answersOf i actions)
      (s.client i).pc := by
  induction hrun with
  | nil => exact ⟨rfl, rfl, rfl⟩
  | snoc hrun _ hstep ih => exact ih.step (known_of_run hrun) hstep

/-- The messages of a thread behind its answer are among the status message and
the replies. -/
theorem Talk.told {units : List WsUnit} {frames : List (UInt8 × Bytes)}
    {answers : List (Except ℤ Bytes)} {pc : ClientPc} (h : Talk cfg units frames answers pc) :
    units = [] ∨ ∃ accept told, units = .response accept :: told ∧
      told.Sublist (.text (statusText cfg.expTag.toCString).bytes ::
        repliesTo cfg.hasDb frames answers) := by
  rcases h.cases with ⟨hunits, -⟩ | ⟨⟨accept, hunits⟩, -⟩ | ⟨⟨⟨accept, hunits⟩, -⟩, -⟩ | hquery
  · exact .inl hunits
  · exact .inr ⟨accept, [], hunits, List.nil_sublist _⟩
  · exact .inr ⟨accept, _, hunits, List.Sublist.refl _⟩
  · obtain ⟨last, front, f, -, hframes, hask, ⟨⟨accept, hunits⟩, hlen⟩, -⟩ := hquery
    refine .inr ⟨accept, _, hunits, ?_⟩
    rw [hframes, repliesTo_snoc hlen]
    exact (List.sublist_append_left _ _).cons_cons _

/-- In every run each client thread has made nothing yet, or the answer to the
handshake and has received nothing, or the answer, the status message and the
messages for the frames that it received, in their order. No frame follows one
that ends the connection, and a query without an outcome is the last one asked
for and the one that the thread waits for. -/
theorem replies_in_order {ok : Server → Action → Prop} {actions : List Action}
    (hrun : Run (serverStep cfg) ok Server.init actions s) (i : ℕ) :
    (unitsOf .thread i s.calls = [] ∧ framesOf i actions = [] ∧ answersOf i actions = []) ∨
      (∃ accept, unitsOf .thread i s.calls = [.response accept] ∧ framesOf i actions = [] ∧
        answersOf i actions = []) ∨
      ((∃ accept, unitsOf .thread i s.calls =
          .response accept :: .text (statusText cfg.expTag.toCString).bytes ::
            repliesTo cfg.hasDb (framesOf i actions) (answersOf i actions)) ∧
        EndsOnce cfg.hasDb (framesOf i actions) ∧
        ((limits cfg.hasDb (framesOf i actions)).length = (answersOf i actions).length ∨
          ∃ earlier last, limits cfg.hasDb (framesOf i actions) = earlier ++ [last] ∧
            earlier.length = (answersOf i actions).length ∧ (s.client i).pc = .querying last)) := by
  rcases (talk_of_run hrun i).cases with hnothing | hanswered | ⟨⟨hunits, hlen⟩, hends⟩ | hquery
  · exact .inl hnothing
  · obtain ⟨⟨accept, hunits⟩, hframes, hanswers⟩ := hanswered
    exact .inr (.inl ⟨accept, hunits, hframes, hanswers⟩)
  · exact .inr (.inr ⟨hunits, hends, .inl hlen⟩)
  · obtain ⟨last, front, f, hpc, hframes, hask, ⟨⟨accept, hunits⟩, hlen⟩, hopen⟩ := hquery
    rw [hframes]
    refine .inr (.inr ⟨⟨accept, ?_⟩, ?_, .inr ⟨limits cfg.hasDb front, last, ?_, hlen, hpc⟩⟩)
    · rw [hunits, repliesTo_snoc hlen]
      simp only [repliesTo, hask, List.append_nil]
    · rw [EndsOnce, List.dropLast_concat]
      exact hopen
    · rw [limits_snoc]
      simp only [limits, List.filterMap_cons, hask, List.filterMap_nil]

/-- A client pings, asks for the history and closes; a broadcast stands between. -/
def pingAndAsk : List Action :=
  [.client 0 .proceed, .client 0 (.wrote 2), .client 0 (.wrote 55), .client 0 .proceed,
    .client 0 (.frame (some (9, lit "p"))), .client 0 (.wrote 2), .client 0 (.wrote 1)] ++
  castOne ++
  [.client 0 .proceed, .client 0 (.frame (some (1, lit "\x7b\"type\":\"history\",\"last\":7\x7d"))),
    .client 0 (.answered (.ok (lit "[]"))), .client 0 (.wrote 2), .client 0 (.wrote 2),
    .client 0 .proceed, .client 0 (.frame (some (8, [])))]

/-- A ping, a history request and a close. -/
theorem replies_in_order_pingAndAsk :
    ∃ s, Run (serverStep plainConfig) anyStep Server.init
        (acceptOne ++ shakeHands ++ pingAndAsk) s ∧
      limits true (framesOf 0 (acceptOne ++ shakeHands ++ pingAndAsk)) = [7] ∧
      ∃ accept, unitsOf .thread 0 s.calls = .response accept ::
        .text (statusText plainConfig.expTag.toCString).bytes ::
          repliesTo true (framesOf 0 (acceptOne ++ shakeHands ++ pingAndAsk)) [.ok (lit "[]")] := by
  have hexec : ∃ s, exec (serverStep plainConfig) anyStep Server.init
      (acceptOne ++ shakeHands ++ pingAndAsk) = some s := by
    rw [← Option.isSome_iff_exists]
    decide +kernel
  obtain ⟨s, hs⟩ := hexec
  have hrun := run_of_exec hs
  have hframes : framesOf 0 (acceptOne ++ shakeHands ++ pingAndAsk) ≠ [] := List.cons_ne_nil _ _
  refine ⟨s, hrun, by decide +kernel, ?_⟩
  rcases replies_in_order hrun 0 with ⟨-, hnone, -⟩ | ⟨-, -, hnone, -⟩ | ⟨hunits, -⟩
  · exact absurd hnone hframes
  · exact absurd hnone hframes
  · exact hunits

end TelemetryPlatform.ClientDialogue
