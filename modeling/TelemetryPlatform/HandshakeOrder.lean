import TelemetryPlatform.RecordRelease
import TelemetryPlatform.WsStreams

/-!
# The answer to the handshake and the frames behind it

A connection is listed before its thread has read the handshake request, and a
broadcast sends to every listed record that is alive. As long as each broadcast
finds the handshakes of the clients that it visits complete, and every send
reaches the connection of its own client, each connection carries the answer
first and frames only behind the whole answer.
-/

namespace TelemetryPlatform.HandshakeOrder

open CStrings CallStreams GuardedRuns WsFrames WsServer WsRecords WsSends WsCalls WsStreams
open RecordRelease

variable {cfg : WsConfig} {s t : Server} {a : Action}

/-- A send reaches the connection of its own client, and a broadcast visits no
live record whose handshake is not complete. -/
def waitsForHandshake (s : Server) (a : Action) : Bool :=
  ownConnection s a &&
    match visiting s a with
    | none => true
    | some c => !(s.client c).alive || (s.client c).handshaken

/-- The condition on a step that no broadcast overtakes a handshake. -/
def WaitsForHandshake (s : Server) (a : Action) : Prop := waitsForHandshake s a = true

instance (s : Server) (a : Action) : Decidable (WaitsForHandshake s a) :=
  inferInstanceAs (Decidable (waitsForHandshake s a = true))

/-- The condition includes that sends reach their own connections. -/
theorem WaitsForHandshake.own (h : WaitsForHandshake s a) : OwnConnection s a :=
  (Bool.and_eq_true_iff.mp h).1

/-- What the condition says about a visit. -/
theorem WaitsForHandshake.shaken (h : WaitsForHandshake s a) {c : ℕ} (hvisit : visiting s a = some c)
    (halive : (s.client c).alive = true) : (s.client c).handshaken = true := by
  have hwait := (Bool.and_eq_true_iff.mp h).2
  rw [hvisit] at hwait
  simpa [halive] using hwait

/-- A connection carries a part of one answer to its handshake first, and
frames only behind the whole answer. -/
def HandshakeFirst (s : Server) (k : ℕ) : Prop :=
  ∃ pre post accept, s.stream k = pre ++ post ∧
    (∀ w ∈ pre, s.calls[w.call]? = some (Call.mk .thread k (.response accept))) ∧
    contents pre <+: (WsUnit.response accept).encode ∧
    (∀ w ∈ post, ∃ caller u, s.calls[w.call]? = some (Call.mk caller k u) ∧ u.IsFrame) ∧
    (post ≠ [] →
      (s.client k).handshaken = true ∧ contents pre = (WsUnit.response accept).encode)

/-- Nothing is written to the connection. -/
theorem HandshakeFirst.keep {k : ℕ} (h : HandshakeFirst s k) (hstream : t.stream k = s.stream k)
    (hcalls : ∀ (r : ℕ) (call : Call), s.calls[r]? = some call → t.calls[r]? = some call)
    (hshaken : (s.client k).handshaken = true → (t.client k).handshaken = true) :
    HandshakeFirst t k := by
  obtain ⟨pre, post, accept, hsplit, hpre, hpart, hpost, hwhole⟩ := h
  refine ⟨pre, post, accept, hstream.trans hsplit, fun w hw => hcalls _ _ (hpre w hw), hpart,
    fun w hw => ?_, fun hne => ?_⟩
  · obtain ⟨caller, u, hcall, hframe⟩ := hpost w hw
    exact ⟨caller, u, hcalls _ _ hcall, hframe⟩
  · obtain ⟨hdone, hall⟩ := hwhole hne
    exact ⟨hshaken hdone, hall⟩

/-- A part of the answer is written while the handshake is not complete. -/
theorem HandshakeFirst.response_write {k r : ℕ} {accept : CString} {data : Bytes}
    (h : HandshakeFirst s k) (hreg : Registered s)
    (hstream : t.stream k = s.stream k ++ [⟨r, data⟩]) (hcalls : t.calls = s.calls)
    (hcall : s.calls[r]? = some (Call.mk .thread k (.response accept)))
    (hshaken : (s.client k).handshaken ≠ true)
    (hpart : writtenBy r (s.stream k) ++ data <+: (WsUnit.response accept).encode) :
    HandshakeFirst t k := by
  obtain ⟨pre, post, accept', hsplit, hpre, -, -, hwhole⟩ := h
  have hnone : post = [] := by
    by_contra hne
    exact hshaken (hwhole hne).1
  rw [hnone, List.append_nil] at hsplit
  -- the thread makes one answer only, so all writes are of this call
  have hsame : ∀ w ∈ pre, w.call = r := fun w hw =>
    hreg.single k w.call r _ _ (hpre w hw) hcall id id
  refine ⟨pre ++ [⟨r, data⟩], [], accept, ?_, fun w hw => ?_, ?_, nofun, fun hne => absurd rfl hne⟩
  · rw [hstream, hsplit, List.append_nil]
  · rw [hcalls]
    rcases List.mem_append.mp hw with hold | hnew
    · rw [hsame w hold]
      exact hcall
    · rw [List.mem_singleton.mp hnew]
      exact hcall
  · rw [contents_snoc, ← writtenBy_eq_contents hsame, ← hsplit]
    exact hpart

/-- The whole answer is what was written before the first frame. -/
theorem HandshakeFirst.whole {k : ℕ} (hreg : Registered s) (hown : OwnStreams s)
    {pre : Stream UInt8} {accept : CString} (hsplit : s.stream k = pre)
    (hpre : ∀ w ∈ pre, s.calls[w.call]? = some (Call.mk .thread k (.response accept)))
    (hshaken : (s.client k).handshaken = true) :
    contents pre = (WsUnit.response accept).encode := by
  obtain ⟨r, accept', hr, hwritten⟩ := hown.answered k hshaken
  have hsame : ∀ w ∈ pre, w.call = r := fun w hw =>
    hreg.single k w.call r _ _ (hpre w hw) hr id id
  have hall := writtenBy_eq_contents hsame
  rw [← hsplit, hwritten] at hall
  rw [hsplit] at hall
  obtain ⟨b, hb⟩ := List.exists_mem_of_ne_nil _ (WsUnit.buffers_ne_nil (.response accept')).1
  have hne : (WsUnit.response accept').encode ≠ [] := fun hnil =>
    (WsUnit.buffers_ne_nil (.response accept')).2 b hb (List.flatten_eq_nil_iff.mp hnil b hb)
  have hpreNe : pre ≠ [] := by
    rintro rfl
    exact hne hall
  obtain ⟨w, hw⟩ := List.exists_mem_of_ne_nil _ hpreNe
  have hcall := hpre w hw
  rw [hsame w hw, hr] at hcall
  cases hcall
  exact hall.symm

/-- A part of a frame is written after the handshake. -/
theorem HandshakeFirst.frame_write {k : ℕ} {w : Write UInt8} {caller : Caller} {u : WsUnit}
    (h : HandshakeFirst s k) (hreg : Registered s) (hown : OwnStreams s)
    (hstream : t.stream k = s.stream k ++ [w]) (hcalls : t.calls = s.calls)
    (hcall : s.calls[w.call]? = some (Call.mk caller k u)) (hframe : u.IsFrame)
    (hshaken : (s.client k).handshaken = true) (hshaken' : (t.client k).handshaken = true) :
    HandshakeFirst t k := by
  obtain ⟨pre, post, accept, hsplit, hpre, hpart, hpost, hwhole⟩ := h
  have hall : contents pre = (WsUnit.response accept).encode := by
    by_cases hne : post = []
    · rw [hne, List.append_nil] at hsplit
      exact HandshakeFirst.whole hreg hown hsplit hpre hshaken
    · exact (hwhole hne).2
  refine ⟨pre, post ++ [w], accept, ?_, fun w' hw => ?_, hpart, fun w' hw => ?_,
    fun _ => ⟨hshaken', hall⟩⟩
  · rw [hstream, hsplit, List.append_assoc]
  · rw [hcalls]
    exact hpre w' hw
  · rw [hcalls]
    rcases List.mem_append.mp hw with hold | hnew
    · exact hpost w' hold
    · rw [List.mem_singleton.mp hnew]
      exact ⟨caller, u, hcall, hframe⟩

/-- The streams of all connections, and the broadcast that has waited. -/
structure Ordered (s : Server) : Prop where
  /-- Each answer comes first. -/
  first : ∀ k, HandshakeFirst s k
  /-- The broadcast sends to clients whose handshake is complete. -/
  waited : ∀ c msg op, s.caster.op = some (c, msg, op) → (s.client c).handshaken = true

/-- A completed handshake stays complete. -/
theorem shaken_of_effect (heffect : SendEffect s a t) (j : ℕ)
    (hj : (s.client j).handshaken = true) : (t.client j).handshaken = true := by
  cases heffect with
  | quiet i hcalls hstream hothers hshaken hpc hcaster => rw [hothers.handshaken_eq hshaken, hj]
  | threadStart i u hcalls hstream hothers hshaken hop hkind hcaster =>
    rw [hothers.handshaken_eq hshaken, hj]
  | casterStart c msg hcalls hstream hclient hvisit halive hop => rw [hclient, hj]
  | threadWrite i n k op buffer rest hwriting hop htodo htarget hpos hle hcalls hstream hothers hpc
      hcaster =>
    by_cases hji : j = i
    · rw [hji] at hj ⊢
      rcases hpc with ⟨-, -, -, hsame⟩ | ⟨-, -, -, hnew⟩
      · rw [hsame, hj]
      · rw [hnew, hj, Bool.true_or]
    · rw [(hothers j hji).2, hj]
  | casterWrite c n k msg op buffer rest hwriting hop htodo htarget hpos hle hcalls hstream hclient
      hcaster => rw [hclient, hj]

/-- Every step that meets the condition keeps the order. -/
theorem Ordered.step (h : Ordered s) (hown : OwnStreams s) (htracked : Tracked s) (hknown : Known s)
    (hreg : Registered s) (hok : WaitsForHandshake s a) (hstep : serverStep cfg s a = some t) :
    Ordered t := by
  have heffect := serverStep_effect hknown hstep
  have hshaken := shaken_of_effect heffect
  cases heffect with
  | quiet i hcalls hstream hothers hshaken' hpc hcaster =>
    refine ⟨fun k => (h.first k).keep (by rw [hstream]) (fun r call hr => by rwa [hcalls])
      (hshaken k), fun c msg op hop => hshaken c ?_⟩
    rcases hcaster with hsame | hnone
    · exact h.waited c msg op (hsame ▸ hop)
    · rw [hnone] at hop
      cases hop
  | threadStart i u hcalls hstream hothers hshaken' hstart hkind hcaster =>
    refine ⟨fun k => (h.first k).keep (by rw [hstream])
      (fun r call hr => by rw [hcalls]; exact getElem?_snoc _ hr) (hshaken k),
      fun c msg op hop => hshaken c ?_⟩
    exact h.waited c msg op (hcaster ▸ hop)
  | casterStart c msg hcalls hstream hclient hvisit halive hstart =>
    refine ⟨fun k => (h.first k).keep (by rw [hstream])
      (fun r call hr => by rw [hcalls]; exact getElem?_snoc _ hr) (hshaken k),
      fun d msg' op hop => hshaken d ?_⟩
    rw [hstart] at hop
    cases hop
    exact hok.shaken hvisit halive
  | threadWrite i n k op buffer rest hwriting hop htodo htarget hpos hle hcalls hstream hothers hpc
      hcaster =>
    rw [hok.own.target hwriting] at htarget
    cases htarget
    refine ⟨fun j => ?_, fun c msg op' hop' => hshaken c (h.waited c msg op' (hcaster ▸ hop'))⟩
    by_cases hj : j = i
    · rw [hj]
      have hwritten : t.stream i = s.stream i ++ [⟨op.call, buffer.take n⟩] := by
        rw [hstream, Function.update_self]
      obtain ⟨u, hu, hkind, -⟩ := hreg.thread i op hop
      by_cases hframe : u.IsFrame
      · have hconnected := hown.connected i (hkind.mp hframe)
        exact (h.first i).frame_write hreg hown hwritten hcalls hu hframe hconnected
          (hshaken i hconnected)
      · obtain ⟨accept, rfl⟩ := eq_response hframe
        have hopen := fdOpen_of_target (fun _ => hknown.opFd hop) (hok.own.target hwriting)
        refine (h.first i).response_write hreg hwritten hcalls hu (fun hdone => ?_) ?_
        · have hstage := hown.shaken i hdone
          rcases stage_of_op hop with hone | htwo
          · omega
          · exact hframe (hkind.mpr htwo)
        · rw [htracked.thread i op hop hopen]
          exact ((hreg.thread i op hop).sent_front htodo hu).2
    · refine (h.first j).keep ?_ (fun r call hr => by rwa [hcalls]) (hshaken j)
      rw [hstream, Function.update_of_ne hj]
  | casterWrite c n k msg op buffer rest hwriting hop htodo htarget hpos hle hcalls hstream hclient
      hcaster =>
    rw [hok.own.target hwriting] at htarget
    cases htarget
    have hwaited := h.waited c msg op hop
    refine ⟨fun j => ?_, fun d msg' op' hop' => ?_⟩
    · by_cases hj : j = c
      · rw [hj]
        have hwritten : t.stream c = s.stream c ++ [⟨op.call, buffer.take n⟩] := by
          rw [hstream, Function.update_self]
        obtain ⟨u, hu, hmsg, -⟩ := hreg.caster c msg op hop
        refine (h.first c).frame_write hreg hown hwritten hcalls hu ?_ hwaited (hshaken c hwaited)
        rw [hmsg]
        trivial
      · refine (h.first j).keep ?_ (fun r call hr => by rwa [hcalls]) (hshaken j)
        rw [hstream, Function.update_of_ne hj]
    · rcases hcaster with ⟨-, hnext⟩ | ⟨-, hnone⟩
      · rw [hnext] at hop'
        cases hop'
        exact hshaken c hwaited
      · rw [hnone] at hop'
        cases hop'

/-- In every run in which no broadcast overtakes a handshake and every send
reaches its own connection, each connection carries the answer to its handshake
first and frames only behind the whole answer. -/
theorem response_before_frames {actions : List Action}
    (hrun : Run (serverStep cfg) WaitsForHandshake Server.init actions s) (k : ℕ) :
    HandshakeFirst s k := by
  have hordered : Ordered s := by
    induction hrun with
    | nil =>
      refine ⟨fun k => ⟨[], [], ⟨[], by simp⟩, rfl, nofun, List.nil_prefix, nofun,
        fun h => absurd rfl h⟩, nofun⟩
    | snoc hrun hok hstep ih =>
      exact ih.step (ownStreams_of_run (fun _ _ h => h.own) hrun) (tracked_of_run hrun)
        (known_of_run hrun) (registered_of_run hrun) hok hstep
  exact hordered.first k

/-- The thread of the first client answers its handshake in two sends. -/
def shakeHands : List Action :=
  [.client 0 .proceed, .client 0 (.request (some ⟨lit "k", by decide⟩)), .client 0 (.wrote 60),
    .client 0 (.wrote 42), .client 0 .proceed]

/-- A broadcast to the first client, in two sends. -/
def castOne : List Action :=
  [.broadcast (lit "x") 0 0, .caster .proceed, .caster (.wrote 2), .caster (.wrote 1)]

/-- A broadcast after the handshake. -/
theorem response_before_frames_castOne :
    ∃ s, Run (serverStep plainConfig) WaitsForHandshake Server.init
        (acceptOne ++ shakeHands ++ castOne) s ∧
      (s.stream 0).map Write.call = [0, 0, 1, 1] ∧ HandshakeFirst s 0 := by
  have hexec : (exec (serverStep plainConfig) WaitsForHandshake Server.init
      (acceptOne ++ shakeHands ++ castOne)).map (fun s => (s.stream 0).map Write.call) =
        some [0, 0, 1, 1] := by decide +kernel
  obtain ⟨s, hs, hcalls⟩ := Option.map_eq_some_iff.mp hexec
  have hrun := run_of_exec hs
  exact ⟨s, hrun, hcalls, response_before_frames hrun 0⟩

/-- A broadcast sends to a client whose handshake request is not read yet. -/
theorem frame_before_response :
    ∃ s, Run (serverStep plainConfig) anyStep Server.init
        (acceptOne ++ [.broadcast (lit "x") 0 0, .caster .proceed, .caster (.wrote 2)]) s ∧
      contents (s.stream 0) = [0x81, 1] ∧ ¬ HandshakeFirst s 0 := by
  have hexec : ∃ s, exec (serverStep plainConfig) anyStep Server.init
      (acceptOne ++ [.broadcast (lit "x") 0 0, .caster .proceed, .caster (.wrote 2)]) = some s :=
    ⟨_, rfl⟩
  obtain ⟨s, hs⟩ := hexec
  have hrun := run_of_exec hs
  have hstate : s.stream 0 = [⟨0, [0x81, 1]⟩] ∧ (s.client 0).handshaken = false ∧
      s.calls = [⟨.broadcast, 0, .text (lit "x")⟩] := by
    cases hs
    exact ⟨rfl, rfl, rfl⟩
  obtain ⟨hstream, hshaken, hcalls⟩ := hstate
  refine ⟨s, hrun, by rw [hstream]; rfl, ?_⟩
  rintro ⟨pre, post, accept, hsplit, hpre, -, -, hwhole⟩
  have hnone : post = [] := by
    by_contra hne
    have hdone := (hwhole hne).1
    rw [hshaken] at hdone
    cases hdone
  rw [hnone, List.append_nil, hstream] at hsplit
  have hcall := hpre ⟨0, [0x81, 1]⟩ (by rw [← hsplit]; exact List.mem_singleton_self _)
  rw [hcalls] at hcall
  cases hcall

end TelemetryPlatform.HandshakeOrder
