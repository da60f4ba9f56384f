import TelemetryPlatform.WsStreams

/-!
# Whom a broadcast reaches

A record that is alive is in the client list from its registration on until
the stop detaches the list. A broadcast walks the list while it holds the
mutex, so it comes to every connected client that has not left before, and sends
it the whole message unless a send fails or the connection is closed meanwhile.
-/

namespace TelemetryPlatform.BroadcastReach

open CStrings CallStreams GuardedRuns WsFrames WsServer WsSteps WsRecords WsSends WsCalls WsStreams

variable {cfg : WsConfig} {s t : Server} {a : Action}

/-- The record that the accept thread is disposing of after it failed to
create the thread. -/
def disposing : AcceptPc → Option ℕ
  | .closing i => some i
  | .removing i => some i
  | .freeing i => some i
  | _ => none

/-- Records that are alive are listed. -/
structure Listed (s : Server) : Prop where
  /-- A live record is listed, about to be, or the list was detached. -/
  listed : ∀ k, (s.client k).alive = true →
    k ∈ s.clients ∨ s.acceptor = .registering k ∨ ∃ rest, s.stopper = .freeing rest
  /-- While a broadcast holds the mutex it walks the whole list. -/
  walking : s.muFree = false → walked s.caster = s.clients
  /-- A dying thread has cleared the flag of its record. -/
  dying : ∀ k, dying (s.client k).pc = true → (s.client k).alive = false
  /-- So has the accept thread for a record without a thread. -/
  disposed : ∀ k, disposing s.acceptor = some k → (s.client k).alive = false

/-- At the start no record is alive. -/
theorem listed_init : Listed Server.init where
  listed _ h := nomatch h
  walking h := nomatch h
  dying _ h := nomatch h
  disposed _ h := nomatch h

/-- What is not alive before is not alive afterwards. -/
theorem alive_false_of {client client' : ℕ → Client} {k : ℕ}
    (halive : (client' k).alive = true → (client k).alive = true) (h : (client k).alive = false) :
    (client' k).alive = false := by
  by_contra hne
  rw [Bool.not_eq_false] at hne
  rw [halive hne] at h
  cases h

/-- A step that keeps the list and the threads as they are and only clears
flags. -/
theorem Listed.of_same (h : Listed s)
    (halive : ∀ k, (t.client k).alive = true → (s.client k).alive = true)
    (hpc : ∀ k, (t.client k).pc = (s.client k).pc) (hclients : t.clients = s.clients)
    (hcaster : t.muFree = false → walked t.caster = s.clients) (hacceptor : t.acceptor = s.acceptor)
    (hstopper : t.stopper = s.stopper) : Listed t where
  listed k hk := by
    rw [hclients, hacceptor, hstopper]
    exact h.listed k (halive k hk)
  walking hmu := by
    rw [hclients]
    exact hcaster hmu
  dying k hk := by
    rw [hpc] at hk
    exact alive_false_of (halive k) (h.dying k hk)
  disposed k hk := by
    rw [hacceptor] at hk
    exact alive_false_of (halive k) (h.disposed k hk)

/-- One record changes: it does not come back to life, and is dead where its
thread is dying. -/
theorem Listed.update (h : Listed s) {i : ℕ} {c : Client}
    (halive : c.alive = true → (s.client i).alive = true)
    (hdying : WsRecords.dying c.pc = true → c.alive = false) :
    (∀ k, (Function.update s.client i c k).alive = true → (s.client k).alive = true) ∧
      ∀ k, WsRecords.dying (Function.update s.client i c k).pc = true →
        (Function.update s.client i c k).alive = false := by
  refine ⟨fun k hk => ?_, fun k hk => ?_⟩
  · by_cases hki : k = i
    · rw [hki, Function.update_self] at hk
      rw [hki]
      exact halive hk
    · rwa [Function.update_of_ne hki] at hk
  · by_cases hki : k = i
    · rw [hki, Function.update_self] at hk ⊢
      exact hdying hk
    · rw [Function.update_of_ne hki] at hk ⊢
      exact h.dying k hk

/-- A step of a client thread keeps the live records listed. -/
theorem Listed.thread {i : ℕ} {c : Client} (h : Listed s) (hstep : ThreadStep s t i c) :
    Listed t := by
  obtain ⟨-, hcaster, hacceptor, hstopper⟩ := hstep.rest
  have hdead : WsRecords.dying c.pc = true → c.alive = false := by
    intro hdying
    rcases hstep.dead hdying with hdead | hold
    · exact hdead
    · by_contra hne
      rw [Bool.not_eq_false] at hne
      have hdead := h.dying i hold
      rw [hstep.alive hne] at hdead
      cases hdead
  obtain ⟨halive, hdying⟩ := h.update hstep.alive hdead
  rw [← hstep.client] at halive hdying
  have hmu : t.muFree = s.muFree := by rw [Server.muFree, hcaster, Server.muFree]
  refine ⟨fun k hk => ?_, fun hfree => ?_, hdying, fun k hk => ?_⟩
  · rw [hacceptor, hstopper]
    rcases h.listed k (halive k hk) with hmem | hrest
    · rcases hstep.clients with hsame | ⟨hpc, -, herase⟩
      · rw [hsame]
        exact .inl hmem
      · -- the thread that takes itself from the list is dead
        have hki : k ≠ i := by
          rintro rfl
          have hdead := h.dying k (by rw [hpc]; rfl)
          rw [halive k hk] at hdead
          cases hdead
        rw [herase]
        exact .inl ((List.mem_erase_of_ne hki).mpr hmem)
    · exact .inr hrest
  · rw [hmu] at hfree
    rw [hcaster]
    rcases hstep.clients with hsame | ⟨-, hmu', -⟩
    · rw [hsame]
      exact h.walking hfree
    · rw [hmu'] at hfree
      cases hfree
  · rw [hacceptor] at hk
    exact alive_false_of (halive k) (h.disposed k hk)

/-- While the accept thread registers nothing, live records are listed or the
list was detached. -/
theorem Listed.mem_of_not_registering (h : Listed s) {k : ℕ} (hacceptor : s.acceptor ≠ .registering k)
    (hk : (s.client k).alive = true) : k ∈ s.clients ∨ ∃ rest, s.stopper = .freeing rest :=
  (h.listed k hk).imp_right fun hrest => hrest.resolve_left hacceptor

/-- A step of the accept thread keeps the live records listed. -/
theorem Listed.acceptor {input : AcceptInput} (h : Listed s) (hstep : AcceptorStep s input t) :
    Listed t := by
  -- but in the registration itself no record waits to be listed
  have hlisted : (∀ k, s.acceptor ≠ .registering k) → ∀ k, (s.client k).alive = true →
      k ∈ s.clients ∨ t.acceptor = .registering k ∨ ∃ rest, s.stopper = .freeing rest :=
    fun hacceptor k hk => (h.mem_of_not_registering (hacceptor k) hk).imp_right .inr
  have hdisposed := h.disposed
  cases hstep with
  | enters hacceptor hrunning =>
    have hkeep := hlisted (by rw [hacceptor]; exact fun _ => nofun)
    exact ⟨hkeep, h.walking, h.dying, nofun⟩
  | returns hacceptor hrunning =>
    have hkeep := hlisted (by rw [hacceptor]; exact fun _ => nofun)
    exact ⟨hkeep, h.walking, h.dying, nofun⟩
  | retries hacceptor =>
    have hkeep := hlisted (by rw [hacceptor]; exact fun _ => nofun)
    exact ⟨hkeep, h.walking, h.dying, nofun⟩
  | accepts n hacceptor hfree =>
    have hkeep := hlisted (by rw [hacceptor]; exact fun _ => nofun)
    refine ⟨fun k hk => ?_, h.walking, fun k hk => ?_, nofun⟩
    · dsimp only at hk
      by_cases hks : k = s.accepted
      · rw [hks]
        exact .inr (.inl rfl)
      · rw [Function.update_of_ne hks] at hk
        exact hkeep k hk
    · dsimp only at hk ⊢
      by_cases hks : k = s.accepted
      · rw [hks, Function.update_self] at hk
        cases hk
      · rw [Function.update_of_ne hks] at hk ⊢
        exact h.dying k hk
  | lists i hacceptor hmu =>
    refine ⟨fun k hk => ?_, fun hfree => ?_, h.dying, nofun⟩
    · rcases h.listed k hk with hmem | hreg | hrest
      · exact .inl (List.mem_cons_of_mem _ hmem)
      · rw [hacceptor] at hreg
        cases hreg
        exact .inl List.mem_cons_self
      · exact .inr (.inr hrest)
    · have hbusy : s.muFree = false := hfree
      rw [hmu] at hbusy
      cases hbusy
  | creates i hacceptor =>
    have hkeep := hlisted (by rw [hacceptor]; exact fun _ => nofun)
    obtain ⟨halive, hdying⟩ := h.update (i := i) (c := { s.client i with pc := .starting }) id nofun
    exact ⟨fun k hk => hkeep k (halive k hk), h.walking, hdying, nofun⟩
  | fails i hacceptor =>
    have hkeep := hlisted (by rw [hacceptor]; exact fun _ => nofun)
    exact ⟨hkeep, h.walking, h.dying, nofun⟩
  | drops i hacceptor =>
    have hkeep := hlisted (by rw [hacceptor]; exact fun _ => nofun)
    obtain ⟨halive, hdying⟩ := h.update (i := i) (c := { s.client i with alive := false }) nofun
      fun _ => rfl
    refine ⟨fun k hk => hkeep k (halive k hk), h.walking, hdying, fun k hk => ?_⟩
    cases hk
    dsimp only
    rw [client_setClient_self]
  | closes i hacceptor =>
    have hkeep := hlisted (by rw [hacceptor]; exact fun _ => nofun)
    rw [hacceptor] at hdisposed
    rw [closeFd_eq]
    exact ⟨hkeep, h.walking, h.dying, hdisposed⟩
  | removes i hacceptor hmu =>
    have hkeep := hlisted (by rw [hacceptor]; exact fun _ => nofun)
    rw [hacceptor] at hdisposed
    refine ⟨fun k hk => ?_, fun hfree => ?_, h.dying, hdisposed⟩
    · have hki : k ≠ i := by
        rintro rfl
        rw [hdisposed k rfl] at hk
        cases hk
      exact (hkeep k hk).imp_left (List.mem_erase_of_ne hki).mpr
    · have hbusy : s.muFree = false := hfree
      rw [hmu] at hbusy
      cases hbusy
  | frees i hacceptor =>
    have hkeep := hlisted (by rw [hacceptor]; exact fun _ => nofun)
    rw [hacceptor] at hdisposed
    obtain ⟨halive, hdying⟩ := h.update (i := i)
      (c := { s.client i with freed := (s.client i).freed + 1, pc := .finished }) id
      fun _ => hdisposed i rfl
    exact ⟨fun k hk => hkeep k (halive k hk), h.walking, hdying, nofun⟩

/-- The start of a broadcast keeps the live records listed. -/
theorem Listed.broadcast {msg : Bytes} {dropRoll : ℕ} (h : Listed s) (hknown : Known s)
    (hstep : BroadcastStep cfg s msg dropRoll t) : Listed t := by
  cases hstep with
  | closes =>
    have hdescend := Descends.closeAll s.clients hknown.listed { s with cutMsgs := s.cutMsgs + 1 }
    obtain ⟨heq, hkeep⟩ := wsCloseAllClients_frame s.clients { s with cutMsgs := s.cutMsgs + 1 }
    rw [heq]
    exact h.of_same hdescend.alive (fun k => (hkeep k).1) rfl h.walking rfl rfl
  | suppressed => exact h.of_same (fun _ => id) (fun _ => rfl) rfl h.walking rfl rfl
  | dropped => exact h.of_same (fun _ => id) (fun _ => rfl) rfl h.walking rfl rfl
  | sleeps => exact h.of_same (fun _ => id) (fun _ => rfl) rfl nofun rfl rfl
  | walks => exact h.of_same (fun _ => id) (fun _ => rfl) rfl (fun _ => rfl) rfl rfl

/-- A record that is not alive leaves the list. -/
theorem Listed.release {msg : Bytes} {visited rest : List ℕ} {c : ℕ} (h : Listed s)
    (hclients : s.clients = visited ++ c :: rest) (hdead : (s.client c).alive = false) :
    Listed (s.release msg visited c rest) := by
  have hsame : ∀ k, ((s.release msg visited c rest).client k).alive = (s.client k).alive ∧
      ((s.release msg visited c rest).client k).pc = (s.client k).pc := by
    intro k
    rw [release_client]
    by_cases hkc : k = c
    · rw [hkc, Function.update_self]
      exact ⟨rfl, rfl⟩
    · rw [Function.update_of_ne hkc]
      exact ⟨rfl, rfl⟩
  have hrest : (s.release msg visited c rest).acceptor = s.acceptor ∧
      (s.release msg visited c rest).stopper = s.stopper := by
    rw [release_eq]
    exact ⟨rfl, rfl⟩
  refine ⟨fun k hk => ?_, fun _ => rfl, fun k hk => ?_, fun k hk => ?_⟩
  · rw [(hsame k).1] at hk
    rw [hrest.1, hrest.2]
    have hkc : k ≠ c := by
      rintro rfl
      rw [hdead] at hk
      cases hk
    refine (h.listed k hk).imp_left fun hmem => ?_
    change k ∈ visited ++ rest
    rw [hclients, List.mem_append, List.mem_cons] at hmem
    rw [List.mem_append]
    exact hmem.imp_right fun hor => hor.resolve_left hkc
  · rw [(hsame k).1]
    rw [(hsame k).2] at hk
    exact h.dying k hk
  · rw [(hsame k).1]
    rw [hrest.1] at hk
    exact h.disposed k hk

/-- A step of the broadcast keeps the live records listed. -/
theorem Listed.caster {input : CasterInput} (h : Listed s) (hstep : CasterStep s input t) :
    Listed t := by
  have hwalking : s.muFree = false → s.clients = walked s.caster := fun hmu => (h.walking hmu).symm
  cases hstep with
  | wakes => exact h.of_same (fun _ => id) (fun _ => rfl) rfl (fun _ => rfl) rfl rfl
  | ends => exact h.of_same (fun _ => id) (fun _ => rfl) rfl nofun rfl rfl
  | starts msg visited c rest hcaster halive =>
    rw [Server.muFree, hcaster] at hwalking
    exact h.of_same (fun _ => id) (fun _ => rfl) rfl (fun _ => (hwalking rfl).symm) rfl rfl
  | releases msg visited c rest hcaster hdead =>
    rw [Server.muFree, hcaster] at hwalking
    exact h.release (hwalking rfl) hdead
  | completes msg visited c rest op n k buffer later hcaster =>
    rw [Server.muFree, hcaster] at hwalking
    refine h.of_same (fun _ => id) (fun _ => rfl) rfl (fun _ => ?_) rfl rfl
    rw [hwalking rfl]
    exact List.append_assoc _ _ _
  | sends msg visited c rest op n k buffer later hcaster =>
    rw [Server.muFree, hcaster] at hwalking
    exact h.of_same (fun _ => id) (fun _ => rfl) rfl (fun _ => (hwalking rfl).symm) rfl rfl
  | fails msg visited c rest op hcaster =>
    rw [Server.muFree, hcaster] at hwalking
    have hcleared : Listed (s.setClient c fun r => { r with alive := false }) := by
      refine h.of_same (fun k hk => ?_) (fun k => pc_of_update (by rfl) k) rfl
        (fun hmu => h.walking hmu) rfl rfl
      by_cases hkc : k = c
      · rw [hkc, client_setClient_self] at hk
        cases hk
      · rwa [client_setClient_of_ne s _ hkc] at hk
    exact hcleared.release (hwalking rfl) (by rw [client_setClient_self])

/-- A step of the stop keeps the live records listed or detaches the list. -/
theorem Listed.stop (h : Listed s) (hstep : StopStep s t) : Listed t := by
  cases hstep with
  | called hstopper =>
    refine ⟨fun k hk => ?_, h.walking, h.dying, h.disposed⟩
    rcases h.listed k hk with hmem | hreg | ⟨rest, hrest⟩
    · exact .inl hmem
    · exact .inr (.inl hreg)
    · rw [hstopper] at hrest
      cases hrest
  | detaches hstopper hacceptor hmu =>
    refine ⟨fun k _ => .inr (.inr ⟨s.clients, rfl⟩), fun hfree => ?_, h.dying, h.disposed⟩
    have hbusy : s.muFree = false := hfree
    rw [hmu] at hbusy
    cases hbusy
  | frees c rest =>
    rw [closeFd_eq]
    obtain ⟨halive, hdying⟩ := h.update (i := c)
      (c := { s.client c with alive := false, freed := (s.client c).freed + 1 }) nofun fun _ => rfl
    exact ⟨fun k hk => .inr (.inr ⟨rest, rfl⟩), h.walking, hdying, fun k hk =>
      alive_false_of (halive k) (h.disposed k hk)⟩

/-- Every step keeps the live records listed. -/
theorem Listed.step (h : Listed s) (hknown : Known s) (hstep : serverStep cfg s a = some t) :
    Listed t := by
  cases serverStep_cases hstep with
  | clock now hle => exact h.of_same (fun _ => id) (fun _ => rfl) rfl h.walking rfl rfl
  | acceptor input _ hacceptor => exact h.acceptor hacceptor
  | client i input _ hclient =>
    obtain ⟨c, hthread⟩ := clientStep_threadStep hclient
    exact h.thread hthread
  | broadcast msg dropRoll jitterRoll _ hidle hbroadcast => exact h.broadcast hknown hbroadcast
  | caster input _ hcaster => exact h.caster hcaster
  | stop _ hstop => exact h.stop hstop

/-- In every reachable state live records are listed. -/
theorem listed_of_run {ok : Server → Action → Prop} {actions : List Action}
    (hrun : Run (serverStep cfg) ok Server.init actions s) : Listed s := by
  induction hrun with
  | nil => exact listed_init
  | snoc hrun _ hstep ih => exact ih.step (known_of_run hrun) hstep

/-- Whether a client is not alive on an open connection. -/
def hasLeft (s : Server) (k : ℕ) : Bool :=
  !((s.client k).alive && decide (s.fds (s.client k).desc = some k))

/-- Why a broadcast has not sent its message to a client as a whole. -/
inductive Loss where
  /-- The client had left when the broadcast came to it. -/
  | left
  /-- A send to it failed. -/
  | failed
  /-- Its connection was closed while the message was being sent to it. -/
  | closed

/-- What a step of the broadcast finds of a client: the whole list is looked at
when the walk begins, each client when the walk comes to it and in every send. -/
def lossOf (s : Server) (input : CasterInput) (k : ℕ) : Option Loss :=
  match s.caster, input with
  | .sleeping _ _, .proceed => if hasLeft s k = true then some .left else none
  | .passing _ _ (c :: _), .proceed => if k = c ∧ hasLeft s c = true then some .left else none
  | .sending _ _ c _ _, .wrote _ =>
    if k = c ∧ s.fds (s.client c).desc ≠ some c then some .closed else none
  | .sending _ _ c _ _, .sendFailed => if k = c then some .failed else none
  | _, _ => none

/-- The losses of the broadcast in progress after a step of the server. The
first one of a client is kept. -/
def lossesAfter (s : Server) (a : Action) (losses : ℕ → Option Loss) (k : ℕ) : Option Loss :=
  match a with
  | .caster input => (losses k).or (lossOf s input k)
  | _ => losses k

/-- While the list is not detached, a connected client that has not left is in it. -/
theorem Listed.mem_of_not_hasLeft {k : ℕ} (h : Listed s) (hknown : Known s)
    (hrunning : ∀ rest, s.stopper ≠ .freeing rest) (hstage : 2 ≤ (s.client k).pc.stage)
    (hleft : hasLeft s k = false) : k ∈ s.clients := by
  unfold hasLeft at hleft
  rw [Bool.not_eq_false', Bool.and_eq_true] at hleft
  refine (h.mem_of_not_registering (fun hacceptor => ?_) hleft.1).resolve_right
    fun ⟨rest, hrest⟩ => hrunning rest hrest
  have hunborn := (hknown.pending k (by rw [hacceptor]; rfl)).2
  rw [hunborn] at hstage
  exact absurd hstage (by decide)

/-- A call of the broadcast, with a number from a given one on, has sent the
whole message to the client. -/
def SentWhole (s : Server) (first : ℕ) (msg : Bytes) (k : ℕ) : Prop :=
  ∃ r, first ≤ r ∧ s.calls[r]? = some (Call.mk .broadcast k (.text msg)) ∧
    writtenBy r (s.stream k) = (WsUnit.text msg).encode

/-- Recorded calls stay recorded. -/
theorem calls_of_effect (heffect : SendEffect s a t) (r : ℕ) (call : Call)
    (hr : s.calls[r]? = some call) : t.calls[r]? = some call := by
  cases heffect with
  | quiet i hcalls => rwa [hcalls]
  | threadStart i u hcalls =>
    rw [hcalls]
    exact getElem?_snoc _ hr
  | casterStart c msg hcalls =>
    rw [hcalls]
    exact getElem?_snoc _ hr
  | threadWrite i n k op buffer rest hwriting hop htodo htarget hpos hle hcalls => rwa [hcalls]
  | casterWrite c n k msg op buffer rest hwriting hop htodo htarget hpos hle hcalls => rwa [hcalls]

/-- Calls are only added. -/
theorem calls_length_le (heffect : SendEffect s a t) : s.calls.length ≤ t.calls.length := by
  by_contra hlt
  have hlast : t.calls.length < s.calls.length := by omega
  have hkeep := calls_of_effect heffect _ _ (List.getElem?_eq_getElem hlast)
  rw [List.getElem?_eq_none (le_refl _)] at hkeep
  cases hkeep

/-- A message that was sent as a whole stays so: nothing more is written by
its call. -/
theorem SentWhole.step {first k : ℕ} {msg : Bytes} (h : SentWhole s first msg k) (hknown : Known s)
    (hreg : Registered s) (htracked : Tracked s) (hstep : serverStep cfg s a = some t) :
    SentWhole t first msg k := by
  obtain ⟨r, hfirst, hr, hwhole⟩ := h
  have heffect := serverStep_effect hknown hstep
  refine ⟨r, hfirst, calls_of_effect heffect r _ hr, ?_⟩
  cases heffect with
  | quiet i hcalls hstream => rw [hstream, hwhole]
  | threadStart i u hcalls hstream => rw [hstream, hwhole]
  | casterStart c msg' hcalls hstream => rw [hstream, hwhole]
  | threadWrite i n j op buffer rest hwriting hop htodo htarget hpos hle hcalls hstream =>
    obtain ⟨u, hu, -⟩ := hreg.thread i op hop
    rw [writtenBy_stream_other hstream (.inr fun heq => ?_), hwhole]
    rw [← heq, hu] at hr
    cases hr
  | casterWrite c n j msg' op buffer rest hwriting hop htodo htarget hpos hle hcalls hstream =>
    obtain ⟨u, hu, -⟩ := hreg.caster c msg' op hop
    rw [writtenBy_stream_other hstream ?_, hwhole]
    by_contra hsame
    rw [not_or, not_not, not_not] at hsame
    obtain ⟨hj, hcall⟩ := hsame
    -- the call that writes is not finished
    obtain ⟨hproper, -⟩ := (hreg.caster c msg' op hop).sent_front (n := n) htodo hu
    dsimp only at hcall
    rw [← hcall] at hr hwhole
    rw [hu] at hr
    cases hr
    rw [← hj] at htarget
    have hopen := fdOpen_of_target (fun m => hknown.casterFd _ msg' op m hop) htarget
    rw [htracked.caster _ msg' op hop hopen] at hwhole
    exact hproper hwhole

/-- A step of the broadcast leaves the accept thread and the stop where they are. -/
theorem casterStep_frame {input : CasterInput} (hstep : CasterStep s input t) :
    t.acceptor = s.acceptor ∧ t.stopper = s.stopper := by
  cases hstep with
  | releases =>
    rw [release_eq]
    exact ⟨rfl, rfl⟩
  | fails =>
    rw [release_eq]
    exact ⟨rfl, rfl⟩
  | _ => exact ⟨rfl, rfl⟩

/-- A step of the stop leaves the accept thread and the broadcast where they are. -/
theorem stopStep_frame (hstep : StopStep s t) : t.acceptor = s.acceptor ∧ t.caster = s.caster := by
  cases hstep with
  | called => exact ⟨rfl, rfl⟩
  | detaches => exact ⟨rfl, rfl⟩
  | frees =>
    rw [closeFd_eq]
    exact ⟨rfl, rfl⟩

/-- A step of the accept thread leaves the broadcast and the stop where they are. -/
theorem acceptorStep_frame {input : AcceptInput} (hstep : AcceptorStep s input t) :
    t.caster = s.caster ∧ t.stopper = s.stopper := by
  cases hstep <;> exact ⟨rfl, rfl⟩

/-- The start of a broadcast leaves the stop where it is, and starts no walk
where the broadcast is suppressed or dropped. -/
theorem broadcastStep_frame {msg : Bytes} {dropRoll : ℕ}
    (hstep : BroadcastStep cfg s msg dropRoll t) :
    t.stopper = s.stopper ∧
      (impairmentCutActive cfg s = true ∨ impairmentShouldDrop cfg dropRoll = true →
        t.caster = s.caster) := by
  cases hstep with
  | closes =>
    rw [(wsCloseAllClients_frame s.clients { s with cutMsgs := s.cutMsgs + 1 }).1]
    exact ⟨rfl, fun _ => rfl⟩
  | suppressed => exact ⟨rfl, fun _ => rfl⟩
  | dropped => exact ⟨rfl, fun _ => rfl⟩
  | sleeps wakeAt hcut hdrop => exact ⟨rfl, fun hnone => (hnone.elim hcut hdrop).elim⟩
  | walks hcut hdrop => exact ⟨rfl, fun hnone => (hnone.elim hcut hdrop).elim⟩

/-- A broadcast starts when it is called and goes on in its own steps only. -/
theorem caster_of_step (hown : ∀ input, a ≠ .caster input)
    (hstart : ∀ msg dropRoll jitterRoll, a = .broadcast msg dropRoll jitterRoll → s.caster ≠ .idle)
    (hstep : serverStep cfg s a = some t) : t.caster = s.caster := by
  cases serverStep_cases hstep with
  | clock now hle => rfl
  | acceptor input _ hacceptor => exact (acceptorStep_frame hacceptor).1
  | client i input _ hclient =>
    obtain ⟨c, hthread⟩ := clientStep_threadStep hclient
    exact hthread.rest.2.1
  | broadcast msg dropRoll jitterRoll _ hidle hbroadcast =>
    exact absurd hidle (hstart msg dropRoll jitterRoll rfl)
  | caster input _ hcaster => exact absurd rfl (hown input)
  | stop _ hstop => exact (stopStep_frame hstop).2

/-- Only the stop moves itself. -/
theorem stopper_of_step (hother : a ≠ .stop) (hstep : serverStep cfg s a = some t) :
    t.stopper = s.stopper := by
  cases serverStep_cases hstep with
  | clock now hle => rfl
  | acceptor input _ hacceptor => exact (acceptorStep_frame hacceptor).2
  | client i input _ hclient =>
    obtain ⟨c, hthread⟩ := clientStep_threadStep hclient
    exact hthread.rest.2.2.2
  | broadcast msg dropRoll jitterRoll _ hidle hbroadcast => exact (broadcastStep_frame hbroadcast).1
  | caster input _ hcaster => exact (casterStep_frame hcaster).2
  | stop _ hstop => exact absurd rfl hother

/-- What is left of the broadcast of a message whose calls are numbered from a
given number on: every client that waits for it and is not lost is still ahead
of it or has been sent the message. -/
def Reaches (s : Server) (first : ℕ) (msg : Bytes) (losses : ℕ → Option Loss) (waiting : ℕ → Prop) :
    Prop :=
  first ≤ s.calls.length ∧
    match s.caster with
    | .idle => ∀ k, waiting k → losses k = none → SentWhole s first msg k
    | .sleeping m _ => m = msg
    | .passing m _ rest =>
      m = msg ∧ ∀ k, waiting k → losses k = none → k ∈ rest ∨ SentWhole s first msg k
    | .sending m _ c rest op =>
      m = msg ∧ first ≤ op.call ∧
        ∀ k, waiting k → losses k = none → k = c ∨ k ∈ rest ∨ SentWhole s first msg k

/-- Fewer clients may wait. -/
theorem Reaches.mono {first : ℕ} {msg : Bytes} {losses : ℕ → Option Loss} {waiting waiting' : ℕ → Prop}
    (h : Reaches s first msg losses waiting) (hfewer : ∀ k, waiting' k → waiting k) :
    Reaches s first msg losses waiting' := by
  obtain ⟨hfirst, hleft⟩ := h
  refine ⟨hfirst, ?_⟩
  split
  · rename_i hpc
    rw [hpc] at hleft
    exact fun k hk => hleft k (hfewer k hk)
  · rename_i m wakeAt hpc
    rw [hpc] at hleft
    exact hleft
  · rename_i m visited rest hpc
    rw [hpc] at hleft
    exact ⟨hleft.1, fun k hk => hleft.2 k (hfewer k hk)⟩
  · rename_i m visited c rest op hpc
    rw [hpc] at hleft
    exact ⟨hleft.1, hleft.2.1, fun k hk => hleft.2.2 k (hfewer k hk)⟩

variable {losses : ℕ → Option Loss} {waiting : ℕ → Prop}

/-- A step of another party loses no client. -/
theorem lossesAfter_other (hother : ∀ input, a ≠ .caster input) : lossesAfter s a losses = losses := by
  funext k
  cases a with
  | caster input => exact absurd rfl (hother input)
  | _ => rfl

/-- A step of another party leaves the broadcast with what is left of it. -/
theorem Reaches.other {first : ℕ} {msg : Bytes} (h : Reaches s first msg losses waiting)
    (hknown : Known s) (hreg : Registered s) (htracked : Tracked s) (hbusy : s.caster ≠ .idle)
    (hother : ∀ input, a ≠ .caster input) (hstep : serverStep cfg s a = some t) :
    Reaches t first msg (lossesAfter s a losses) waiting := by
  obtain ⟨hfirst, hleft⟩ := h
  have hcaster := caster_of_step hother (fun _ _ _ _ => hbusy) hstep
  refine ⟨hfirst.trans (calls_length_le (serverStep_effect hknown hstep)), ?_⟩
  rw [hcaster, lossesAfter_other hother]
  have hwhole : ∀ k, SentWhole s first msg k → SentWhole t first msg k := fun k hk =>
    hk.step hknown hreg htracked hstep
  split
  · rename_i hidle
    exact absurd hidle hbusy
  · rename_i m wakeAt hpc
    rw [hpc] at hleft
    exact hleft
  · rename_i m visited rest hpc
    rw [hpc] at hleft
    exact ⟨hleft.1, fun k hk hlost => (hleft.2 k hk hlost).imp_right (hwhole k)⟩
  · rename_i m visited c rest op hpc
    rw [hpc] at hleft
    refine ⟨hleft.1, hleft.2.1, fun k hk hlost => ?_⟩
    exact (hleft.2.2 k hk hlost).imp_right fun hor => hor.imp_right (hwhole k)

/-- A call of the broadcast that sends its last bytes on an open connection has
sent the whole message. -/
theorem sentWhole_of_complete {first c n k : ℕ} {msg buffer : Bytes} {op : SendOp}
    {later : List Bytes} (hknown : Known s) (hreg : Registered s) (htracked : Tracked s)
    (hop : s.caster.op = some (c, msg, op)) (hfirst : first ≤ op.call)
    (htodo : op.todo = buffer :: later) (htarget : s.target op = some k) (hle : n ≤ buffer.length)
    (hend : (op.advance n).todo = []) (hcalls : t.calls = s.calls)
    (hstream : t.stream = Function.update s.stream k (s.stream k ++ [⟨op.call, buffer.take n⟩]))
    (hopen : FdOpen s c) : SentWhole t first msg c := by
  obtain ⟨u, hu, hmsg, hall⟩ := (hreg.caster c msg op hop).finished htodo hle hend
  rw [hmsg] at hu hall
  have hk : k = c := target_of_fdOpen (fun m => hknown.casterFd c msg op m hop) hopen htarget
  rw [hk] at hstream
  refine ⟨op.call, hfirst, by rw [hcalls]; exact hu, ?_⟩
  rw [writtenBy_stream_self hstream, htracked.caster c msg op hop hopen, hall]

/-- A client that is not lost after a step was not lost before, and the step
found nothing. -/
theorem lossesAfter_caster {input : CasterInput} {k : ℕ}
    (h : lossesAfter s (.caster input) losses k = none) : losses k = none ∧ lossOf s input k = none :=
  Option.or_eq_none_iff.mp h

/-- A step of the broadcast itself. -/
theorem Reaches.caster {first : ℕ} {msg : Bytes} {input : CasterInput}
    (h : Reaches s first msg losses waiting) (hlisted : Listed s) (hknown : Known s)
    (hreg : Registered s) (htracked : Tracked s) (hrunning : ∀ rest, s.stopper ≠ .freeing rest)
    (hwaiting : ∀ k, waiting k → 2 ≤ (s.client k).pc.stage)
    (hstep : serverStep cfg s (.caster input) = some t) :
    Reaches t first msg (lossesAfter s (.caster input) losses) waiting := by
  obtain ⟨hfirst, hleft⟩ := h
  have hcalls := hfirst.trans (calls_length_le (serverStep_effect hknown hstep))
  have hwhole : ∀ k, SentWhole s first msg k → SentWhole t first msg k := fun k hk =>
    hk.step hknown hreg htracked hstep
  cases casterStep_cases hstep with
  | wakes msg' wakeAt hcaster hclock => -- the walk begins with the whole list
    rw [hcaster] at hleft
    refine ⟨hcalls, hleft, fun k hk hlost => .inl ?_⟩
    have hfound := (lossesAfter_caster hlost).2
    simp only [lossOf, hcaster] at hfound
    refine hlisted.mem_of_not_hasLeft hknown hrunning (hwaiting k hk) ?_
    by_contra hgone
    rw [Bool.not_eq_false] at hgone
    simp [hgone] at hfound
  | ends msg' visited hcaster =>
    rw [hcaster] at hleft
    refine ⟨hcalls, fun k hk hlost => hwhole k ?_⟩
    exact (hleft.2 k hk (lossesAfter_caster hlost).1).resolve_left List.not_mem_nil
  | starts msg' visited c rest hcaster halive =>
    rw [hcaster] at hleft
    refine ⟨hcalls, hleft.1, hfirst, fun k hk hlost => ?_⟩
    rcases hleft.2 k hk (lossesAfter_caster hlost).1 with hmem | hdone
    · rcases List.mem_cons.mp hmem with heq | hrest
      · exact .inl heq
      · exact .inr (.inl hrest)
    · exact .inr (.inr (hwhole k hdone))
  | releases msg' visited c rest hcaster hdead => -- a dead client is lost
    rw [hcaster] at hleft
    refine ⟨hcalls, hleft.1, fun k hk hlost => ?_⟩
    obtain ⟨hbefore, hfound⟩ := lossesAfter_caster hlost
    rcases hleft.2 k hk hbefore with hmem | hdone
    · rcases List.mem_cons.mp hmem with heq | hrest
      · simp only [lossOf, hcaster] at hfound
        simp [heq, hasLeft, hdead] at hfound
      · exact .inl hrest
    · exact .inr (hwhole k hdone)
  | completes msg' visited c rest op n j buffer later hcaster htodo htarget hpos hle hend =>
    rw [hcaster] at hleft
    have hop : s.caster.op = some (c, msg', op) := by rw [hcaster]; rfl
    refine ⟨hcalls, hleft.1, fun k hk hlost => ?_⟩
    obtain ⟨hbefore, hfound⟩ := lossesAfter_caster hlost
    rcases hleft.2.2 k hk hbefore with heq | hrest | hdone
    · have hopen : FdOpen s c := by
        by_contra hclosed
        simp only [lossOf, hcaster] at hfound
        simp [heq, show s.fds (s.client c).desc ≠ some c from hclosed] at hfound
      rw [hleft.1] at hop
      rw [heq]
      exact .inr (sentWhole_of_complete hknown hreg htracked hop hleft.2.1 htodo htarget hle hend rfl
        rfl hopen)
    · exact .inl hrest
    · exact .inr (hwhole k hdone)
  | sends msg' visited c rest op n j buffer later hcaster htodo htarget hpos hle hend =>
    rw [hcaster] at hleft
    refine ⟨hcalls, hleft.1, ?_, fun k hk hlost => ?_⟩
    · rw [(advance_cases (n := n) htodo hle).1]
      exact hleft.2.1
    · exact (hleft.2.2 k hk (lossesAfter_caster hlost).1).imp_right fun hor =>
        hor.imp_right (hwhole k)
  | fails msg' visited c rest op hcaster => -- so is one to which a send failed
    rw [hcaster] at hleft
    refine ⟨hcalls, hleft.1, fun k hk hlost => ?_⟩
    obtain ⟨hbefore, hfound⟩ := lossesAfter_caster hlost
    rcases hleft.2.2 k hk hbefore with heq | hrest | hdone
    · simp only [lossOf, hcaster] at hfound
      simp [heq] at hfound
    · exact .inl hrest
    · exact .inr (hwhole k hdone)

/-- Every step leaves the broadcast with what is left of it. -/
theorem Reaches.step {first : ℕ} {msg : Bytes} (h : Reaches s first msg losses waiting)
    (hlisted : Listed s) (hknown : Known s) (hreg : Registered s) (htracked : Tracked s)
    (hbusy : s.caster ≠ .idle) (hrunning : ∀ rest, s.stopper ≠ .freeing rest)
    (hwaiting : ∀ k, waiting k → 2 ≤ (s.client k).pc.stage)
    (hstep : serverStep cfg s a = some t) : Reaches t first msg (lossesAfter s a losses) waiting := by
  by_cases hother : ∀ input, a ≠ .caster input
  · exact h.other hknown hreg htracked hbusy hother hstep
  · obtain ⟨input, hinput⟩ := not_forall.mp hother
    rw [not_not] at hinput
    rw [hinput] at hstep ⊢
    exact h.caster hlisted hknown hreg htracked hrunning hwaiting hstep

/-- The losses of a broadcast that starts. -/
def startLosses (s : Server) (k : ℕ) : Option Loss := if hasLeft s k = true then some .left else none

/-- A broadcast that is neither suppressed nor dropped has all connected clients
ahead of it that have not left. -/
theorem reaches_wsServerBroadcast (hlisted : Listed s) (hknown : Known s)
    (hrunning : ∀ rest, s.stopper ≠ .freeing rest)
    (hwaiting : ∀ k, waiting k → 2 ≤ (s.client k).pc.stage) (msg : Bytes) {dropRoll : ℕ}
    (jitterRoll : ℕ) (hcut : impairmentCutActive cfg s = false)
    (hdrop : impairmentShouldDrop cfg dropRoll = false) :
    (wsServerBroadcast cfg s msg dropRoll jitterRoll).caster ≠ .idle ∧
      Reaches (wsServerBroadcast cfg s msg dropRoll jitterRoll) s.calls.length msg (startLosses s)
        waiting := by
  have hstep := wsServerBroadcast_cases cfg s msg dropRoll jitterRoll
  rw [Reaches]
  generalize wsServerBroadcast cfg s msg dropRoll jitterRoll = t at hstep ⊢
  cases hstep with
  | closes hcut' => rw [hcut] at hcut'; cases hcut'
  | suppressed hcut' => rw [hcut] at hcut'; cases hcut'
  | dropped _ hdrop' => rw [hdrop] at hdrop'; cases hdrop'
  | sleeps => exact ⟨nofun, le_rfl, rfl⟩
  | walks =>
    refine ⟨nofun, le_rfl, rfl, fun k hk hlost => .inl ?_⟩
    refine hlisted.mem_of_not_hasLeft hknown hrunning (hwaiting k hk) ?_
    by_contra hgone
    rw [Bool.not_eq_false] at hgone
    simp [startLosses, hgone] at hlost

end TelemetryPlatform.BroadcastReach
