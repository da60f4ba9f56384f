import TelemetryPlatform.BroadcastReach
import TelemetryPlatform.ClientDialogue
import TelemetryPlatform.FrameOrder
import TelemetryPlatform.PeerFrames
import TelemetryPlatform.StreamTurns

/-!
# What a client sees of the live stream

In a run in which no broadcast overtakes a handshake and no message starts
inside another one, a client reads behind the answer to its handshake exactly
the whole messages that were sent to it. Those of its own thread come in the
order of its requests, and those of the broadcasts in the order of the
broadcasts, each of them at most once.
-/

namespace TelemetryPlatform.LiveStream

open CStrings CallStreams StreamTurns GuardedRuns WsFrames WsServer WsSteps WsRecords WsSends WsCalls
open WsStreams BroadcastReach RecordRelease HandshakeOrder FrameOrder ClientDialogue PeerFrames

variable {cfg : WsConfig} {s t : Server} {a : Action}

/-- A step that writes a part of a message in turn. -/
structure TurnWrite (s t : Server) (caller : Caller) (c : ℕ) (op : SendOp) (data : Bytes) :
    Prop where
  /-- The message is being sent. -/
  sending : sendingFor s caller c = some op
  /-- It is the message of its call. -/
  call : ∃ u, s.calls[op.call]? = some (Call.mk caller c u)
  /-- The part is not empty. -/
  data_ne : data ≠ []
  /-- It continues what the call has written. -/
  part : writtenBy op.call (s.stream c) ++ data <+: callText s op.call
  /-- The other messages on the connection are whole. -/
  others : ∀ w ∈ s.stream c, w.call ≠ op.call →
    writtenBy w.call (s.stream c) = callText s w.call
  /-- The part goes to the connection of the client. -/
  stream : t.stream = Function.update s.stream c (s.stream c ++ [⟨op.call, data⟩])
  /-- No call is made. -/
  calls : t.calls = s.calls

/-- A step that writes nothing. -/
structure NoWrite (s t : Server) : Prop where
  /-- The connections stay. -/
  stream : t.stream = s.stream
  /-- Recorded calls stay. -/
  calls : ∀ (r : ℕ) (call : Call), s.calls[r]? = some call → t.calls[r]? = some call

/-- A step in turn writes nothing, or a part of a message. -/
theorem write_cases (hinTurn : InTurn s) (htracked : Tracked s) (hknown : Known s)
    (hreg : Registered s) (hturn : SendsInTurn s a) (hstep : serverStep cfg s a = some t) :
    NoWrite s t ∨ ∃ caller c op data, TurnWrite s t caller c op data := by
  cases serverStep_effect hknown hstep with
  | quiet i hcalls hstream hothers hshaken hpc hcaster =>
    exact .inl ⟨hstream, fun r call hr => by rwa [hcalls]⟩
  | threadStart i u hcalls hstream hothers hshaken hop hkind hcaster =>
    exact .inl ⟨hstream, fun r call hr => by rw [hcalls]; exact getElem?_snoc _ hr⟩
  | casterStart c msg hcalls hstream hclient hvisit halive hop =>
    exact .inl ⟨hstream, fun r call hr => by rw [hcalls]; exact getElem?_snoc _ hr⟩
  | threadWrite i n k op buffer rest hwriting hop htodo htarget hpos hle hcalls hstream hothers hpc
      hcaster =>
    rw [hturn.own.target hwriting] at htarget
    cases htarget
    obtain ⟨u, hu, -⟩ := hreg.thread i op hop
    have hopen := fdOpen_of_target (fun _ => hknown.opFd hop) (hturn.own.target hwriting)
    obtain ⟨hproper, hpart⟩ := (hreg.thread i op hop).sent_front (n := n) htodo hu
    refine .inr ⟨.thread, i, op, _, hop, ⟨u, hu⟩, take_ne_nil hpos hle, ?_,
      hinTurn.others htracked hturn hwriting hop hopen hu hproper, hstream, hcalls⟩
    rw [htracked.thread i op hop hopen, callText_eq hu]
    exact hpart
  | casterWrite c n k msg op buffer rest hwriting hop htodo htarget hpos hle hcalls hstream hclient
      hcaster =>
    rw [hturn.own.target hwriting] at htarget
    cases htarget
    obtain ⟨u, hu, -⟩ := hreg.caster c msg op hop
    have hopen := fdOpen_of_target (fun m => hknown.casterFd c msg op m hop)
      (hturn.own.target hwriting)
    obtain ⟨hproper, hpart⟩ := (hreg.caster c msg op hop).sent_front (n := n) htodo hu
    have hsending : sendingFor s .broadcast c = some op := by
      rw [sendingFor, hop]
      exact if_pos rfl
    refine .inr ⟨.broadcast, c, op, _, hsending, ⟨u, hu⟩, take_ne_nil hpos hle, ?_,
      hinTurn.others htracked hturn hwriting hsending hopen hu hproper, hstream, hcalls⟩
    rw [htracked.caster c msg op hop hopen, callText_eq hu]
    exact hpart

/-- What a caller is sending for a client is the last call that it has made for
the client. -/
def SendsLast (s : Server) : Prop :=
  ∀ (caller : Caller) (c : ℕ) (op : SendOp), sendingFor s caller c = some op →
    ∀ (r : ℕ) (u : WsUnit), s.calls[r]? = some (Call.mk caller c u) → r ≤ op.call

/-- The operation of the broadcast for a client. -/
theorem sendingFor_broadcast {c : ℕ} {op : SendOp} :
    sendingFor s .broadcast c = some op ↔ ∃ msg, s.caster.op = some (c, msg, op) := by
  unfold sendingFor
  dsimp only
  constructor
  · intro h
    split at h
    · cases h
    · rename_i c' msg op' hcaster
      split_ifs at h with hc
      cases h
      exact ⟨msg, by rw [hcaster, hc]⟩
  · rintro ⟨msg, hop⟩
    rw [hop]
    exact if_pos rfl

/-- A step after which each operation is an old one, or that of the call just
made, keeps the last calls. -/
theorem SendsLast.keep (h : SendsLast s) {new : List Call} (hcalls : t.calls = s.calls ++ new)
    (hops : ∀ caller c op, sendingFor t caller c = some op →
      (∃ op', sendingFor s caller c = some op' ∧ op'.call = op.call ∧
        ∀ u, Call.mk caller c u ∉ new) ∨ (op.call = s.calls.length ∧ new.length ≤ 1)) :
    SendsLast t := by
  intro caller c op hop r u hr
  rw [hcalls] at hr
  rcases hops caller c op hop with ⟨op', hop', hcall, hnone⟩ | ⟨hcall, hone⟩
  · rw [← hcall]
    by_cases hlt : r < s.calls.length
    · rw [List.getElem?_append_left hlt] at hr
      exact h caller c op' hop' r u hr
    · rw [List.getElem?_append_right (not_lt.mp hlt)] at hr
      exact absurd (List.mem_of_getElem? hr) (hnone u)
  · have hlt := (List.getElem?_eq_some_iff.mp hr).1
    rw [List.length_append] at hlt
    omega

/-- Every step keeps the last calls. -/
theorem SendsLast.step (h : SendsLast s) (hknown : Known s)
    (hstep : serverStep cfg s a = some t) : SendsLast t := by
  cases serverStep_effect hknown hstep with
  | quiet i hcalls hstream hothers hshaken hpc hcaster =>
    refine h.keep (hcalls.trans (List.append_nil _).symm) fun caller c op hop =>
      .inl ⟨op, ?_, rfl, fun _ => List.not_mem_nil⟩
    cases caller with
    | thread =>
      change (t.client c).pc.op = some op at hop
      change (s.client c).pc.op = some op
      by_cases hc : c = i
      · rw [hc] at hop ⊢
        rcases hpc with hsame | ⟨hnone, -⟩
        · rw [← hsame, hop]
        · rw [hnone] at hop
          cases hop
      · rw [← (hothers c hc).1, hop]
    | broadcast =>
      obtain ⟨msg, hop⟩ := sendingFor_broadcast.mp hop
      rcases hcaster with hsame | hnone
      · exact sendingFor_broadcast.mpr ⟨msg, by rw [← hsame, hop]⟩
      · rw [hnone] at hop
        cases hop
  | threadStart i u hcalls hstream hothers hshaken hstart hkind hcaster =>
    refine h.keep hcalls fun caller c op hop => ?_
    cases caller with
    | thread =>
      change (t.client c).pc.op = some op at hop
      by_cases hc : c = i
      · rw [hc, hstart] at hop
        cases hop
        exact .inr ⟨rfl, le_rfl⟩
      · rw [(hothers c hc).1] at hop
        refine .inl ⟨op, hop, rfl, fun u' hmem => hc ?_⟩
        cases List.mem_singleton.mp hmem
        rfl
    | broadcast =>
      obtain ⟨msg, hop⟩ := sendingFor_broadcast.mp hop
      rw [hcaster] at hop
      refine .inl ⟨op, sendingFor_broadcast.mpr ⟨msg, hop⟩, rfl, fun u' hmem => ?_⟩
      cases List.mem_singleton.mp hmem
  | casterStart d msg hcalls hstream hclient hvisit halive hstart =>
    refine h.keep hcalls fun caller c op hop => ?_
    cases caller with
    | thread =>
      change (t.client c).pc.op = some op at hop
      rw [hclient] at hop
      refine .inl ⟨op, hop, rfl, fun u' hmem => ?_⟩
      cases List.mem_singleton.mp hmem
    | broadcast =>
      obtain ⟨msg', hop⟩ := sendingFor_broadcast.mp hop
      rw [hstart] at hop
      cases hop
      exact .inr ⟨rfl, le_rfl⟩
  | threadWrite i n k op buffer rest hwriting hop htodo htarget hpos hle hcalls hstream hothers hpc
      hcaster =>
    refine h.keep (hcalls.trans (List.append_nil _).symm) fun caller c op' hop' => .inl ?_
    cases caller with
    | thread =>
      change (t.client c).pc.op = some op' at hop'
      by_cases hc : c = i
      · rw [hc] at hop' ⊢
        rcases hpc with ⟨-, hnext, -⟩ | ⟨-, hnone, -⟩
        · rw [hnext] at hop'
          cases hop'
          exact ⟨op, hop, (advance_cases htodo hle).1.symm, fun _ => List.not_mem_nil⟩
        · rw [hnone] at hop'
          cases hop'
      · rw [(hothers c hc).1] at hop'
        exact ⟨op', hop', rfl, fun _ => List.not_mem_nil⟩
    | broadcast =>
      obtain ⟨msg, hop'⟩ := sendingFor_broadcast.mp hop'
      rw [hcaster] at hop'
      exact ⟨op', sendingFor_broadcast.mpr ⟨msg, hop'⟩, rfl, fun _ => List.not_mem_nil⟩
  | casterWrite d n k msg op buffer rest hwriting hop htodo htarget hpos hle hcalls hstream hclient
      hcaster =>
    refine h.keep (hcalls.trans (List.append_nil _).symm) fun caller c op' hop' => .inl ?_
    cases caller with
    | thread =>
      change (t.client c).pc.op = some op' at hop'
      rw [hclient] at hop'
      exact ⟨op', hop', rfl, fun _ => List.not_mem_nil⟩
    | broadcast =>
      obtain ⟨msg', hop'⟩ := sendingFor_broadcast.mp hop'
      rcases hcaster with ⟨-, hnext⟩ | ⟨-, hnone⟩
      · rw [hnext] at hop'
        cases hop'
        exact ⟨op, sendingFor_broadcast.mpr ⟨msg, hop⟩, (advance_cases htodo hle).1.symm,
          fun _ => List.not_mem_nil⟩
      · rw [hnone] at hop'
        cases hop'

/-- The connections take turns, and each caller writes to a connection in the
order of its calls. -/
structure Turnwise (s : Server) : Prop where
  /-- Whole messages one after the other. -/
  turns : ∀ k, TakesTurns (callText s) (s.stream k)
  /-- In the order of the calls. -/
  sorted : ∀ k caller, ((s.stream k).map Write.call).Pairwise fun r r' =>
    (∃ u, s.calls[r]? = some (Call.mk caller k u)) →
      (∃ u, s.calls[r']? = some (Call.mk caller k u)) → r ≤ r'

/-- At the start nothing is written. -/
theorem turnwise_init : Turnwise Server.init := ⟨fun _ => takesTurns_nil _, fun _ _ => .nil⟩

/-- Every step in turn keeps the order. -/
theorem Turnwise.step (h : Turnwise s) (hlast : SendsLast s) (hinTurn : InTurn s)
    (htracked : Tracked s) (hknown : Known s) (hreg : Registered s) (hturn : SendsInTurn s a)
    (hstep : serverStep cfg s a = some t) : Turnwise t := by
  rcases write_cases hinTurn htracked hknown hreg hturn hstep with
    hnone | ⟨caller, c, op, data, hwrite⟩
  · refine ⟨fun k => ?_, fun k caller => ?_⟩
    · rw [hnone.stream]
      exact (h.turns k).congr fun w hw => callText_keep hnone.calls (htracked.calls k w hw)
    · rw [hnone.stream]
      -- a recorded call is the same one after the step
      have hback : ∀ r ∈ (s.stream k).map Write.call, ∀ u,
          t.calls[r]? = some (Call.mk caller k u) → s.calls[r]? = some (Call.mk caller k u) := by
        intro r hr u hu
        obtain ⟨w, hw, rfl⟩ := List.mem_map.mp hr
        have hold := List.getElem?_eq_getElem (htracked.calls k w hw)
        rw [hnone.calls _ _ hold] at hu
        rw [hold, hu]
      refine (h.sorted k caller).imp_of_mem fun {r r'} hr hr' hle => ?_
      rintro ⟨u, hu⟩ ⟨u', hu'⟩
      exact hle ⟨u, hback r hr u hu⟩ ⟨u', hback r' hr' u' hu'⟩
  · have htext : callText t = callText s := by
      funext r
      rw [callText, callText, hwrite.calls]
    refine ⟨fun k => ?_, fun k caller' => ?_⟩
    · rw [htext, hwrite.stream]
      by_cases hk : k = c
      · rw [hk, Function.update_self]
        exact (h.turns c).write hwrite.data_ne hwrite.part hwrite.others
      · rw [Function.update_of_ne hk]
        exact h.turns k
    · rw [hwrite.stream, hwrite.calls]
      by_cases hk : k = c
      · rw [hk, Function.update_self, List.map_append]
        refine List.pairwise_append.mpr ⟨h.sorted c caller', List.pairwise_singleton _ _, ?_⟩
        rintro r - r' hr' ⟨u, hu⟩ ⟨u', hu'⟩
        obtain rfl := List.mem_singleton.mp hr'
        obtain ⟨u₀, hu₀⟩ := hwrite.call
        rw [hu₀] at hu'
        cases hu'
        exact hlast caller c op hwrite.sending r u hu
      · rw [Function.update_of_ne hk]
        exact h.sorted k caller'

/-- Every record is listed once at most, and not before its registration. -/
structure ListedOnce (s : Server) : Prop where
  /-- No record is listed twice. -/
  nodup : s.clients.Nodup
  /-- A record that is to be registered is not listed. -/
  registering : ∀ i, s.acceptor = .registering i → i ∉ s.clients

/-- A step that lists no record keeps the list without duplicates. -/
theorem ListedOnce.keep (h : ListedOnce s) (hclients : t.clients.Sublist s.clients)
    (hacceptor : t.acceptor = s.acceptor ∨ ∀ i, t.acceptor ≠ .registering i) : ListedOnce t where
  nodup := h.nodup.sublist hclients
  registering i hi hmem := by
    rcases hacceptor with hsame | hnone
    · exact h.registering i (hsame ▸ hi) (hclients.subset hmem)
    · exact hnone i hi

/-- Every step keeps the list without duplicates. -/
theorem ListedOnce.step (h : ListedOnce s) (hknown : Known s) (hlisted : Listed s)
    (hstep : serverStep cfg s a = some t) : ListedOnce t := by
  -- a record that the broadcast releases is taken from the list that it walks
  have hrelease : ∀ (s₀ : Server) msg visited c rest, s₀.acceptor = s.acceptor →
      s.clients = visited ++ c :: rest → ListedOnce (s₀.release msg visited c rest) := by
    intro s₀ msg visited c rest hacceptor hwalk
    refine h.keep ?_ (.inl ?_)
    · rw [release_eq, hwalk]
      exact (List.sublist_cons_self c rest).append_left visited
    · rw [release_eq]
      exact hacceptor
  cases serverStep_cases hstep with
  | clock now hle => exact h.keep (List.Sublist.refl _) (.inl rfl)
  | acceptor input _ hacceptor =>
    cases hacceptor with
    | accepts n hacc hfree =>
      refine ⟨h.nodup, fun i hi hmem => ?_⟩
      cases hi
      exact Nat.lt_irrefl _ (hknown.listed _ hmem)
    | lists i hacc hmu => exact ⟨h.nodup.cons (h.registering i hacc), nofun⟩
    | removes i hacc hmu => exact h.keep List.erase_sublist (.inr fun _ => nofun)
    | _ => exact h.keep (List.Sublist.refl _) (.inr fun _ => nofun)
  | client i input _ hclient =>
    obtain ⟨c, hthread⟩ := clientStep_threadStep hclient
    refine h.keep ?_ (.inl hthread.rest.2.2.1)
    rcases hthread.clients with hsame | ⟨-, -, herase⟩
    · rw [hsame]
    · rw [herase]
      exact List.erase_sublist
  | broadcast msg dropRoll jitterRoll _ hidle hbroadcast =>
    cases hbroadcast with
    | closes =>
      rw [(wsCloseAllClients_frame s.clients { s with cutMsgs := s.cutMsgs + 1 }).1]
      exact h.keep (List.Sublist.refl _) (.inl rfl)
    | _ => exact h.keep (List.Sublist.refl _) (.inl rfl)
  | caster input _ hcaster =>
    cases hcaster with
    | releases msg visited c rest hcast hdead =>
      refine hrelease s msg visited c rest rfl ?_
      have hwalk := hlisted.walking (by rw [Server.muFree, hcast])
      rw [hcast] at hwalk
      exact hwalk.symm
    | fails msg visited c rest op hcast =>
      refine hrelease _ msg visited c rest rfl ?_
      have hwalk := hlisted.walking (by rw [Server.muFree, hcast])
      rw [hcast] at hwalk
      exact hwalk.symm
    | _ => exact h.keep (List.Sublist.refl _) (.inl rfl)
  | stop _ hstop =>
    cases hstop with
    | detaches => exact h.keep (List.nil_sublist _) (.inl rfl)
    | called => exact h.keep (List.Sublist.refl _) (.inl rfl)
    | frees c rest =>
      rw [closeFd_eq]
      exact h.keep (List.Sublist.refl _) (.inl rfl)

/-- The messages of the broadcasts that were called. -/
def broadcastsOf (actions : List Action) : List Bytes :=
  actions.filterMap fun
    | .broadcast msg _ _ => some msg
    | _ => none

/-- The messages that were sent to a client, among those of the broadcasts: the
current one is not among them before the walk has come to the client. -/
def CastInOrder (c : ℕ) (units : List WsUnit) (made : List Bytes) : CasterPc → Prop
  | .idle => units.Sublist (made.map WsUnit.text)
  | .sleeping msg _ => ∃ earlier, made = earlier ++ [msg] ∧ units.Sublist (earlier.map WsUnit.text)
  | .passing msg _ rest | .sending msg _ _ rest _ => ∃ earlier, made = earlier ++ [msg] ∧
      (c ∈ rest → units.Sublist (earlier.map WsUnit.text)) ∧ units.Sublist (made.map WsUnit.text)

/-- A broadcast is in order when it ends. -/
theorem CastInOrder.sublist {c : ℕ} {units : List WsUnit} {made : List Bytes} {pc : CasterPc}
    (h : CastInOrder c units made pc) : units.Sublist (made.map WsUnit.text) := by
  cases pc with
  | idle => exact h
  | sleeping msg wakeAt =>
    obtain ⟨earlier, rfl, hsub⟩ := h
    exact hsub.trans ((List.sublist_append_left earlier [msg]).map _)
  | passing msg visited rest => exact h.choose_spec.2.2
  | sending msg visited d rest op => exact h.choose_spec.2.2

/-- A broadcast that has begun is behind the earlier ones. -/
theorem CastInOrder.begins {c : ℕ} {units : List WsUnit} {made : List Bytes}
    (h : CastInOrder c units made .idle) (msg : Bytes) :
    units.Sublist ((made ++ [msg]).map WsUnit.text) :=
  List.Sublist.trans h ((List.sublist_append_left made [msg]).map _)

/-- One more call of the broadcast for a client. -/
theorem unitsOf_cast (c : ℕ) (calls : List Call) (u : WsUnit) :
    unitsOf .broadcast c (calls ++ [⟨.broadcast, c, u⟩]) = unitsOf .broadcast c calls ++ [u] := by
  rw [unitsOf, List.filterMap_append, List.filterMap_cons, if_pos ⟨rfl, rfl⟩, List.filterMap_nil]
  rfl

/-- A step of another party makes no broadcast. -/
theorem broadcastsOf_snoc_other {actions : List Action}
    (hother : ∀ msg dropRoll jitterRoll, a ≠ .broadcast msg dropRoll jitterRoll) :
    broadcastsOf (actions ++ [a]) = broadcastsOf actions := by
  rw [broadcastsOf, List.filterMap_append, broadcastsOf]
  cases a with
  | broadcast msg dropRoll jitterRoll => exact absurd rfl (hother msg dropRoll jitterRoll)
  | _ => simp

/-- A client that stands in the rest of the walk was not visited before. -/
theorem not_mem_rest {msg : Bytes} {visited rest : List ℕ} {c : ℕ} (honce : ListedOnce s)
    (hlisted : Listed s) (hcaster : s.caster = .passing msg visited (c :: rest)) : c ∉ rest := by
  have hwalk := hlisted.walking (by rw [Server.muFree, hcaster])
  rw [hcaster] at hwalk
  have hnodup := honce.nodup
  rw [← hwalk] at hnodup
  exact (List.nodup_cons.mp (List.nodup_append.mp hnodup).2.1).1

/-- A step of the broadcast keeps its order. -/
theorem CastInOrder.caster {c : ℕ} {made : List Bytes} {input : CasterInput}
    (h : CastInOrder c (unitsOf .broadcast c s.calls) made s.caster) (honce : ListedOnce s)
    (hlisted : Listed s) (hstep : CasterStep s input t) :
    CastInOrder c (unitsOf .broadcast c t.calls) made t.caster := by
  cases hstep with
  | wakes msg wakeAt hcaster hclock =>
    rw [hcaster] at h
    have hsub := h.sublist
    obtain ⟨earlier, hmade, hearlier⟩ := h
    exact ⟨earlier, hmade, fun _ => hearlier, hsub⟩
  | ends msg visited hcaster =>
    rw [hcaster] at h
    exact h.sublist
  | starts msg visited d rest hcaster halive =>
    have hapart := not_mem_rest honce hlisted hcaster
    rw [hcaster] at h
    obtain ⟨earlier, hmade, hbefore, hsub⟩ := h
    by_cases hd : d = c
    · subst hd
      refine ⟨earlier, hmade, fun hmem => absurd hmem hapart, ?_⟩
      change (unitsOf .broadcast d (s.calls ++ [⟨.broadcast, d, .text msg⟩])).Sublist _
      rw [unitsOf_cast, hmade, List.map_append]
      exact (hbefore List.mem_cons_self).append_right _
    · have hsame : unitsOf .broadcast c (s.calls ++ [⟨.broadcast, d, .text msg⟩]) =
          unitsOf .broadcast c s.calls := unitsOf_snoc_other (fun heq => hd heq.2) _
      change CastInOrder c (unitsOf .broadcast c (s.calls ++ [⟨.broadcast, d, .text msg⟩])) _ _
      rw [hsame]
      exact ⟨earlier, hmade, fun hmem => hbefore (List.mem_cons_of_mem d hmem), hsub⟩
  | releases msg visited d rest hcaster hdead =>
    rw [hcaster] at h
    obtain ⟨earlier, hmade, hbefore, hsub⟩ := h
    rw [release_eq]
    exact ⟨earlier, hmade, fun hmem => hbefore (List.mem_cons_of_mem d hmem), hsub⟩
  | completes msg visited d rest op n k buffer later hcaster =>
    rw [hcaster] at h
    exact h
  | sends msg visited d rest op n k buffer later hcaster =>
    rw [hcaster] at h
    exact h
  | fails msg visited d rest op hcaster =>
    rw [hcaster] at h
    rw [release_eq]
    exact h

/-- The start of a broadcast keeps the order. -/
theorem CastInOrder.broadcast {c : ℕ} {made : List Bytes} {msg : Bytes} {dropRoll : ℕ}
    (h : CastInOrder c (unitsOf .broadcast c s.calls) made s.caster) (hidle : s.caster = .idle)
    (hstep : BroadcastStep cfg s msg dropRoll t) :
    CastInOrder c (unitsOf .broadcast c t.calls) (made ++ [msg]) t.caster := by
  rw [hidle] at h
  have hnone : CastInOrder c (unitsOf .broadcast c s.calls) (made ++ [msg]) s.caster := by
    rw [hidle]
    exact h.begins msg
  cases hstep with
  | closes =>
    rw [(wsCloseAllClients_frame s.clients { s with cutMsgs := s.cutMsgs + 1 }).1]
    exact hnone
  | suppressed => exact hnone
  | dropped => exact hnone
  | sleeps wakeAt => exact ⟨_, rfl, h⟩
  | walks => exact ⟨_, rfl, fun _ => h, h.begins msg⟩

/-- Every step keeps the order of the broadcasts. -/
theorem CastInOrder.step {c : ℕ} {actions : List Action}
    (h : CastInOrder c (unitsOf .broadcast c s.calls) (broadcastsOf actions) s.caster)
    (honce : ListedOnce s) (hlisted : Listed s) (hstep : serverStep cfg s a = some t) :
    CastInOrder c (unitsOf .broadcast c t.calls) (broadcastsOf (actions ++ [a])) t.caster := by
  by_cases hcast : ∃ msg dropRoll jitterRoll, a = .broadcast msg dropRoll jitterRoll
  · obtain ⟨msg, dropRoll, jitterRoll, rfl⟩ := hcast
    rw [broadcastsOf, List.filterMap_append]
    cases serverStep_cases hstep with
    | broadcast _ _ _ _ hidle hbroadcast => exact h.broadcast hidle hbroadcast
  · rw [broadcastsOf_snoc_other fun msg dropRoll jitterRoll heq => hcast ⟨msg, dropRoll,
      jitterRoll, heq⟩]
    cases serverStep_cases hstep with
    | clock now hle => exact h
    | acceptor input _ hacceptor => cases hacceptor <;> exact h
    | client i input _ hclient =>
      obtain ⟨new, -, hcalls⟩ := clientStep_move hclient
      obtain ⟨d, hthread⟩ := clientStep_threadStep hclient
      have hother : ¬ (Caller.thread = Caller.broadcast ∧ i = c) := fun heq => nomatch heq.1
      rw [hcalls, hthread.rest.2.1, unitsOf_thread_other hother]
      exact h
    | broadcast msg dropRoll jitterRoll => exact absurd ⟨msg, dropRoll, jitterRoll, rfl⟩ hcast
    | caster input _ hcaster => exact h.caster honce hlisted hcaster
    | stop _ hstop =>
      cases hstop with
      | frees d rest =>
        rw [closeFd_eq]
        exact h
      | _ => exact h

/-- The condition that a broadcast waits for the handshake, that no message
starts inside another one, and that every send reaches the connection of its own
client. -/
def InOrder (s : Server) (a : Action) : Prop := WaitsForHandshake s a ∧ SendsInTurn s a

instance (s : Server) (a : Action) : Decidable (InOrder s a) :=
  inferInstanceAs (Decidable (_ ∧ _))

/-- What holds in every state that such a run reaches. -/
structure StreamsInOrder (s : Server) : Prop where
  /-- The answer to the handshake comes first. -/
  first : ∀ k, HandshakeFirst s k
  /-- The connections take turns. -/
  turnwise : Turnwise s
  /-- The connections belong to their clients. -/
  own : OwnStreams s

/-- Runs in order keep the connections in order. -/
theorem streamsInOrder_of_run {actions : List Action}
    (hrun : Run (serverStep cfg) InOrder Server.init actions s) : StreamsInOrder s := by
  have hown : ∀ {earlier : List Action} {s' : Server},
      Run (serverStep cfg) InOrder Server.init earlier s' → OwnStreams s' :=
    fun hrun' => ownStreams_of_run (fun _ _ h => h.2.own) hrun'
  have hall : Ordered s ∧ InTurn s ∧ SendsLast s ∧ Turnwise s := by
    induction hrun with
    | nil =>
      refine ⟨⟨fun k => ⟨[], [], ⟨[], by simp⟩, rfl, nofun, List.nil_prefix, nofun,
        fun h => absurd rfl h⟩, nofun⟩, ⟨fun _ => untorn_nil _, fun _ h => nomatch h⟩, ?_,
        turnwise_init⟩
      intro caller c op _ r u hr
      cases hr
    | snoc hrun hok hstep ih =>
      obtain ⟨hordered, hinTurn, hlast, hturnwise⟩ := ih
      have htracked := tracked_of_run hrun
      have hknown := known_of_run hrun
      have hreg := registered_of_run hrun
      exact ⟨hordered.step (hown hrun) htracked hknown hreg hok.1 hstep,
        hinTurn.step (hown hrun) htracked hknown hreg hok.2 hstep,
        hlast.step hknown hstep,
        hturnwise.step hlast hinTurn htracked hknown hreg hok.2 hstep⟩
  exact ⟨hall.1.first, hall.2.2.2, hown hrun⟩

/-- The broadcasts for a client are in order in every reachable state. -/
theorem castInOrder_of_run {ok : Server → Action → Prop} {actions : List Action}
    (hrun : Run (serverStep cfg) ok Server.init actions s) (c : ℕ) :
    (unitsOf .broadcast c s.calls).Sublist ((broadcastsOf actions).map WsUnit.text) := by
  have hall : ListedOnce s ∧
      CastInOrder c (unitsOf .broadcast c s.calls) (broadcastsOf actions) s.caster := by
    induction hrun with
    | nil => exact ⟨⟨.nil, nofun⟩, .slnil⟩
    | snoc hrun _ hstep ih =>
      exact ⟨ih.1.step (known_of_run hrun) (listed_of_run hrun) hstep,
        ih.2.step ih.1 (listed_of_run hrun) hstep⟩
  exact hall.2.sublist

/-- Calls at given positions, and among them those of one caller. -/
theorem unitsOf_filter {calls : List Call} {caller : Caller} {k : ℕ} {P : ℕ → Prop}
    [DecidablePred P] (hP : ∀ r u, calls[r]? = some (Call.mk caller k u) → P r) (rs : List ℕ) :
    unitsOf caller k (rs.filterMap fun r => calls[r]?) =
      unitsOf caller k ((rs.filter fun r => decide (P r)).filterMap fun r => calls[r]?) := by
  induction rs with
  | nil => rfl
  | cons r rs ih =>
    by_cases hr : P r
    · have hkept : (r :: rs).filter (fun r => decide (P r)) = r :: rs.filter fun r => decide (P r) :=
        List.filter_cons_of_pos (decide_eq_true hr)
      rw [hkept]
      cases hcall : calls[r]? with
      | none => simpa only [List.filterMap_cons, hcall] using ih
      | some call =>
        simp only [unitsOf, List.filterMap_cons, hcall] at ih ⊢
        rw [ih]
    · have hdropped : (r :: rs).filter (fun r => decide (P r)) = rs.filter fun r => decide (P r) :=
        List.filter_cons_of_neg (by simpa using hr)
      rw [hdropped]
      cases hcall : calls[r]? with
      | none => simpa only [List.filterMap_cons, hcall] using ih
      | some call =>
        have hother : ¬ (call.caller = caller ∧ call.client = k) := by
          rintro ⟨rfl, rfl⟩
          exact hr (hP r call.unit hcall)
        simpa only [unitsOf, List.filterMap_cons, hcall, if_neg hother] using ih

/-- Calls that took their turns in the order of their numbers are a part of the
calls that were made. -/
theorem unitsOf_sublist {calls : List Call} {caller : Caller} {k : ℕ} {done written : List ℕ}
    (hsub : done.Sublist written) (hnodup : done.Nodup) (hlt : ∀ r ∈ done, r < calls.length)
    (hsorted : written.Pairwise fun r r' => (∃ u, calls[r]? = some (Call.mk caller k u)) →
      (∃ u, calls[r']? = some (Call.mk caller k u)) → r ≤ r') :
    (unitsOf caller k (done.filterMap fun r => calls[r]?)).Sublist (unitsOf caller k calls) := by
  classical
  rw [unitsOf_filter (P := fun r => ∃ u, calls[r]? = some (Call.mk caller k u))
    fun r u hr => ⟨u, hr⟩]
  have hincreasing := sorted_of_sublist hsub hnodup hsorted
  refine (sublist_of_increasing hincreasing fun r hr => ?_).filterMap _
  exact hlt r (List.mem_filter.mp hr).1

/-- A call whose message is whole on a connection had its turn. -/
theorem mem_done {text : ℕ → Bytes} {whole own : Stream UInt8} {done : List ℕ} {r : ℕ}
    (hturns : Turns text whole done)
    (hrest : own = [] ∨ ∃ c, c ∉ done ∧ (∀ w ∈ own, w.call = c) ∧ contents own <+: text c ∧
      contents own ≠ text c)
    (hwritten : writtenBy r (whole ++ own) = text r) (hne : text r ≠ []) : r ∈ done := by
  by_contra hnot
  have hfront : writtenBy r whole = [] :=
    writtenBy_eq_nil fun w hw heq => hnot ((hturns.mem_iff r).mpr ⟨w, hw, heq⟩)
  rw [writtenBy_append, hfront, List.nil_append] at hwritten
  rcases hrest with rfl | ⟨c, -, hmine, -, hproper⟩
  · exact hne hwritten.symm
  · by_cases hc : c = r
    · rw [hc] at hmine hproper
      rw [writtenBy_eq_contents hmine] at hwritten
      exact hproper hwritten
    · rw [writtenBy_eq_nil fun w hw => by rw [hmine w hw]; exact hc] at hwritten
      exact hne hwritten.symm

/-- The connection of a client behind its handshake: the answer, the messages
of the calls that had their turn, and a part of one more message. -/
theorem connection_eq (horder : StreamsInOrder s) (hreg : Registered s) {k : ℕ}
    (hshaken : (s.client k).handshaken = true) :
    ∃ (accept : CString) (later : List ℕ) (part : Bytes), contents (s.stream k) =
        (WsUnit.response accept).encode ++ (later.flatMap (callText s) ++ part) ∧
      later.Nodup ∧ later.Sublist ((s.stream k).map Write.call) ∧
      (∀ r ∈ later, ∃ caller u, s.calls[r]? = some (Call.mk caller k u) ∧ u.IsFrame) ∧
      (part = [] ∨ ∃ (r : ℕ) (caller : Caller) (u : WsUnit),
        s.calls[r]? = some (Call.mk caller k u) ∧ u.IsFrame ∧ part <+: u.encode ∧
          part ≠ u.encode) ∧
      ∀ (r : ℕ) (caller : Caller) (u : WsUnit), s.calls[r]? = some (Call.mk caller k u) → u.IsFrame →
        writtenBy r (s.stream k) = u.encode → r ∈ later := by
  obtain ⟨pre, post, accept, hsplit, hpre, -, hpost, -⟩ := horder.first k
  obtain ⟨r, accept', hr, hanswer⟩ := horder.own.answered k hshaken
  obtain ⟨whole, own, done, hstream, hturns, hrest⟩ := horder.turnwise.turns k
  have htext : callText s r = (WsUnit.response accept').encode := callText_eq hr
  have hr_done : r ∈ done := by
    refine mem_done hturns hrest ?_ ?_
    · rw [← hstream, hanswer, htext]
    · rw [htext]
      exact List.length_pos_iff.mp (length_encode_pos _)
  -- the answer is the only call before the frames
  have hpre' : ∀ w ∈ pre, w.call = r := fun w hw =>
    hreg.single k _ _ _ _ (hpre w hw) hr id id
  have hpost' : ∀ w ∈ post, w.call ≠ r := by
    intro w hw heq
    obtain ⟨caller, u, hu, hframe⟩ := hpost w hw
    rw [heq, hr] at hu
    cases hu
    exact hframe
  obtain ⟨behind, hwhole, hbehind⟩ : ∃ behind, whole = pre ++ behind ∧ post = behind ++ own := by
    rw [hstream] at hsplit
    rcases List.append_eq_append_iff.mp hsplit with ⟨rest, hpre_eq, hown⟩ | ⟨rest, hwhole, hpost_eq⟩
    · have hnil : rest = [] := by
        by_contra hne
        obtain ⟨w, hw⟩ := List.exists_mem_of_ne_nil rest hne
        have hcall := hpre' w (by rw [hpre_eq]; exact List.mem_append_right _ hw)
        rcases hrest with hempty | ⟨c, hnew, hmine, -⟩
        · rw [hempty] at hown
          exact hne (List.append_eq_nil_iff.mp hown.symm).1
        · rw [← hmine w (by rw [hown]; exact List.mem_append_left _ hw), hcall] at hnew
          exact hnew hr_done
      subst hnil
      exact ⟨[], by rw [hpre_eq, List.append_nil, List.append_nil], hown.symm⟩
    · exact ⟨rest, hwhole, hpost_eq⟩
  have hframes : ∀ w ∈ behind, w.call ≠ r := fun w hw =>
    hpost' w (by rw [hbehind]; exact List.mem_append_left _ hw)
  obtain ⟨later, hdone, hlater⟩ := hturns.split_front hwhole hpre' hframes hr_done
  have hnodup := hturns.nodup
  rw [hdone] at hnodup
  refine ⟨accept', later, contents own, ?_, (List.nodup_cons.mp hnodup).2, ?_, ?_, ?_, ?_⟩
  · have hcontents : contents (whole ++ own) = contents whole ++ contents own := by
      simp [contents]
    rw [hstream, hcontents, hturns.contents_eq, hdone, List.flatMap_cons, htext, List.append_assoc]
  · rw [hsplit, hbehind, List.map_append, List.map_append]
    exact (hlater.trans (List.sublist_append_left _ _)).trans (List.sublist_append_right _ _)
  · intro r' hr'
    obtain ⟨w, hw, rfl⟩ := List.mem_map.mp (hlater.subset hr')
    exact hpost w (by rw [hbehind]; exact List.mem_append_left _ hw)
  · by_cases hown : own = []
    · exact .inl (by rw [hown]; rfl)
    · obtain ⟨w, hw⟩ := List.exists_mem_of_ne_nil own hown
      obtain ⟨c, -, hmine, hpart, hproper⟩ := hrest.resolve_left hown
      obtain ⟨caller, u, hu, hframe⟩ := hpost w (by rw [hbehind]; exact List.mem_append_right _ hw)
      rw [hmine w hw] at hu
      rw [callText_eq hu] at hpart hproper
      exact .inr ⟨c, caller, u, hu, hframe, hpart, hproper⟩
  · intro r' caller u hu hframe hwritten
    have hmem : r' ∈ done := by
      refine mem_done hturns hrest ?_ ?_
      · rw [← hstream, hwritten, callText_eq hu]
      · rw [callText_eq hu]
        exact List.length_pos_iff.mp (length_encode_pos _)
    rw [hdone] at hmem
    refine (List.mem_cons.mp hmem).resolve_left fun heq => ?_
    rw [heq, hr] at hu
    cases hu
    exact hframe

/-- A client whose handshake is complete reads, behind the answer, exactly the
messages that are whole on its connection, those of each caller in the order of
its calls. -/
theorem seen_of_run {actions : List Action}
    (hrun : Run (serverStep cfg) InOrder Server.init actions s) {k : ℕ}
    (hshaken : (s.client k).handshaken = true) (hsize : ∀ call ∈ s.calls, Sized call.unit) :
    ∃ (accept : CString) (stream : Bytes) (seen : List Call),
      contents (s.stream k) = (handshakeResponse accept).bytes ++ stream ∧
      peerFrames stream = seen.map (fun call => frameOf call.unit) ∧
      (∀ call ∈ seen, call.client = k ∧ call.unit.IsFrame) ∧
      (∀ caller, (unitsOf caller k seen).Sublist (unitsOf caller k s.calls)) ∧
      ∀ (r : ℕ) (caller : Caller) (u : WsUnit), s.calls[r]? = some (Call.mk caller k u) →
        u.IsFrame → writtenBy r (s.stream k) = u.encode → Call.mk caller k u ∈ seen := by
  have horder := streamsInOrder_of_run hrun
  obtain ⟨accept, later, part, hcontents, hnodup, hlater, hcalls, hpart, hall⟩ :=
    connection_eq horder (registered_of_run hrun) hshaken
  have hanswer : (WsUnit.response accept).encode = (handshakeResponse accept).bytes :=
    List.append_nil _
  have hlt : ∀ r ∈ later, r < s.calls.length := by
    intro r hr
    obtain ⟨caller, u, hu, -⟩ := hcalls r hr
    exact (List.getElem?_eq_some_iff.mp hu).1
  have hseen : ∀ call ∈ later.filterMap (fun r => s.calls[r]?), (call.client = k ∧
      call.unit.IsFrame) ∧ call ∈ s.calls := by
    intro call hmem
    obtain ⟨r, hr, hcall⟩ := List.mem_filterMap.mp hmem
    obtain ⟨caller, u, hu, hframe⟩ := hcalls r hr
    rw [hu] at hcall
    cases hcall
    exact ⟨⟨rfl, hframe⟩, List.mem_of_getElem? hu⟩
  have hbytes : later.flatMap (callText s) =
      ((later.filterMap fun r => s.calls[r]?).map Call.unit).flatMap WsUnit.encode := by
    clear hnodup hlater hcontents hall hlt hseen
    induction later with
    | nil => rfl
    | cons r later ih =>
      obtain ⟨⟨caller, u, hu, -⟩, hrest⟩ := List.forall_mem_cons.mp hcalls
      rw [List.flatMap_cons, callText_eq hu, List.filterMap_cons, hu, ih hrest]
      rfl
  refine ⟨accept, _, later.filterMap fun r => s.calls[r]?, by rw [hcontents, hanswer], ?_,
    fun call hcall => (hseen call hcall).1,
    fun caller => unitsOf_sublist hlater hnodup hlt (horder.turnwise.sorted k caller), ?_⟩
  · have hnone : peerFrame part = none := by
      rcases hpart with rfl | ⟨r, caller, u, hu, hframe, hpre, hproper⟩
      · rfl
      · exact peerFrame_part hframe (hsize _ (List.mem_of_getElem? hu)) hpre hproper
    rw [hbytes, peerFrames_append (fun u hu => ?_) hnone, List.map_map]
    · rfl
    · obtain ⟨call, hcall, rfl⟩ := List.mem_map.mp hu
      obtain ⟨⟨-, hframe⟩, hmem⟩ := hseen call hcall
      exact ⟨hframe, hsize call hmem⟩
  · intro r caller u hu hframe hwritten
    exact List.mem_filterMap.mpr ⟨r, hall r caller u hu hframe hwritten, hu⟩

/-- The messages of a caller to a client are among the calls for it. -/
theorem mem_of_unitsOf {caller : Caller} {k : ℕ} {calls : List Call} {u : WsUnit}
    (hu : u ∈ unitsOf caller k calls) : ∃ call ∈ calls, call.unit = u := by
  obtain ⟨call, hcall, hunit⟩ := List.mem_filterMap.mp hu
  split_ifs at hunit
  exact ⟨call, hcall, Option.some.inj hunit⟩

/-- Of the messages of its thread a client reads the status message and the
replies to its frames. -/
theorem told_of_run {actions : List Action}
    (hrun : Run (serverStep cfg) InOrder Server.init actions s) {k : ℕ} {seen : List Call}
    (hseen : (unitsOf .thread k seen).Sublist (unitsOf .thread k s.calls))
    (hframes : ∀ call ∈ seen, call.unit.IsFrame) :
    (unitsOf .thread k seen).Sublist (.text (statusText cfg.expTag.toCString).bytes ::
      repliesTo cfg.hasDb (framesOf k actions) (answersOf k actions)) := by
  rcases (talk_of_run hrun k).told with hnil | ⟨accept, told, hmade, htold⟩
  · rw [hnil] at hseen
    rw [List.sublist_nil.mp hseen]
    exact List.nil_sublist _
  · rw [hmade] at hseen
    refine List.Sublist.trans ?_ htold
    -- the answer is no frame, so it is not seen
    rcases List.sublist_cons_iff.mp hseen with hsub | ⟨rest, hrest, -⟩
    · exact hsub
    · have hmem : WsUnit.response accept ∈ unitsOf .thread k seen := by
        rw [hrest]
        exact List.mem_cons_self
      obtain ⟨call, hcall, hunit⟩ := mem_of_unitsOf hmem
      have hframe := hframes call hcall
      rw [hunit] at hframe
      exact hframe.elim

/-- In every run in which no broadcast overtakes a handshake, no message starts
inside another one and every send reaches the connection of its own client, a
client whose handshake is complete reads, behind the answer, exactly the messages that are whole on its connection: those of its
thread are the status message and the replies to its frames in their order, and
those of the broadcasts come in the order of the broadcasts, each at most once. -/
theorem frames_seen {actions : List Action}
    (hrun : Run (serverStep cfg) InOrder Server.init actions s) {k : ℕ}
    (hshaken : (s.client k).handshaken = true) (hsize : ∀ call ∈ s.calls, Sized call.unit) :
    ∃ (accept : CString) (stream : Bytes) (seen : List Call),
      contents (s.stream k) = (handshakeResponse accept).bytes ++ stream ∧
      peerFrames stream = seen.map (fun call => frameOf call.unit) ∧
      (∀ call ∈ seen, call.client = k) ∧
      (unitsOf .thread k seen).Sublist (.text (statusText cfg.expTag.toCString).bytes ::
        repliesTo cfg.hasDb (framesOf k actions) (answersOf k actions)) ∧
      (unitsOf .broadcast k seen).Sublist ((broadcastsOf actions).map WsUnit.text) ∧
      ∀ (r : ℕ) (caller : Caller) (u : WsUnit), s.calls[r]? = some (Call.mk caller k u) →
        u.IsFrame → writtenBy r (s.stream k) = u.encode → Call.mk caller k u ∈ seen := by
  obtain ⟨accept, stream, seen, hcontents, hframes, hseen, hunits, hall⟩ :=
    seen_of_run hrun hshaken hsize
  exact ⟨accept, stream, seen, hcontents, hframes, fun call hcall => (hseen call hcall).1,
    told_of_run hrun (hunits .thread) fun call hcall => (hseen call hcall).2,
    (hunits .broadcast).trans (castInOrder_of_run hrun k), hall⟩

/-- A broadcast between the replies to a client. -/
theorem frames_seen_pingAndAsk :
    ∃ s, Run (serverStep plainConfig) InOrder Server.init
        (acceptOne ++ shakeHands ++ pingAndAsk) s ∧
      ∃ (accept : CString) (stream : Bytes) (seen : List Call),
        contents (s.stream 0) = (handshakeResponse accept).bytes ++ stream ∧
        peerFrames stream = seen.map (fun call => frameOf call.unit) ∧
        (unitsOf .broadcast 0 seen).Sublist [.text (lit "x")] := by
  have hexec : (exec (serverStep plainConfig) InOrder Server.init
      (acceptOne ++ shakeHands ++ pingAndAsk)).map (fun s => ((s.client 0).handshaken,
        s.calls.all fun call => decide (Sized call.unit))) =
      some (true, true) := by decide +kernel
  obtain ⟨s, hs, hfacts⟩ := Option.map_eq_some_iff.mp hexec
  obtain ⟨hshaken, hsized⟩ := Prod.mk.inj hfacts
  have hrun := run_of_exec hs
  have hsize : ∀ call ∈ s.calls, Sized call.unit := fun call hcall =>
    of_decide_eq_true (List.all_eq_true.mp hsized call hcall)
  obtain ⟨accept, stream, seen, hcontents, hframes, -, -, hcast, -⟩ := frames_seen hrun hshaken hsize
  exact ⟨s, hrun, accept, stream, seen, hcontents, hframes, hcast⟩

/-- Behind the answer the client reads the status message, the pong, the
broadcast and the reply. -/
example : (exec (serverStep plainConfig) InOrder Server.init
      (acceptOne ++ shakeHands ++ pingAndAsk)).map
        (fun s => (peerFrames ((contents (s.stream 0)).drop 102)).map Prod.fst) =
      some [1, 10, 1, 1] := by
  decide +kernel

end TelemetryPlatform.LiveStream
