import TelemetryPlatform.WsRecords

/-!
# Release of client records

A record is freed by its own thread, by the accept thread where no thread was
created, by a broadcast and by the stop. The broadcast and the stop free
records whose threads are still running. As long as neither of them frees a
record, every record is freed at most once and by its last user.
-/

namespace TelemetryPlatform.RecordRelease

open CStrings GuardedRuns WsFrames WsServer WsSteps WsRecords

variable {cfg : WsConfig} {s t : Server} {a : Action}

/-- Neither the broadcast nor the stop frees a record: the broadcast visits no
dead record and no send of it fails, and the stop detaches an empty list. -/
def leavesRecords (s : Server) : Action → Bool
  | .caster .proceed =>
    match s.caster with
    | .passing _ _ (c :: _) => (s.client c).alive
    | _ => true
  | .caster .sendFailed => false
  | .stop =>
    match s.stopper with
    | .joining => s.clients.isEmpty
    | _ => true
  | _ => true

/-- The condition on a step that the broadcast and the stop free no record. -/
def LeavesRecords (s : Server) (a : Action) : Prop := leavesRecords s a = true

instance (s : Server) (a : Action) : Decidable (LeavesRecords s a) :=
  inferInstanceAs (Decidable (leavesRecords s a = true))

/-- Each record is listed and freed at most once, and its thread takes no step
after the free. -/
structure RecordsSafe (cfg : WsConfig) (s : Server) : Prop where
  /-- No record is in the list twice. -/
  nodup : s.clients.Nodup
  /-- No record is freed twice. -/
  once : ∀ i, (s.client i).freed ≤ 1
  /-- The thread of a freed record is at its end. -/
  unused : ∀ i, 0 < (s.client i).freed → ∀ input, clientStep cfg s i input = none

/-- Every record is released by its owner: a freed one has no thread any more,
and the accept thread registers fresh records only. -/
structure Owned (s : Server) : Prop where
  /-- No record is in the list twice. -/
  nodup : s.clients.Nodup
  /-- Only finished threads have freed records. -/
  freed : ∀ i, (s.client i).freed = 0 ∨ ((s.client i).freed = 1 ∧ (s.client i).pc = .finished)
  /-- A record to be registered is not listed yet. -/
  fresh : ∀ i, s.acceptor = .registering i → i ∉ s.clients
  /-- The stop has no records to free. -/
  detached : detached s.stopper = []

/-- Ownership keeps the records safe. -/
theorem Owned.recordsSafe (h : Owned s) : RecordsSafe cfg s where
  nodup := h.nodup
  once i := by
    rcases h.freed i with hzero | ⟨hone, -⟩ <;> omega
  unused i hi input := by
    rcases h.freed i with hzero | ⟨-, hpc⟩
    · omega
    · cases input <;> simp [clientStep, hpc]

/-- A step that keeps the list, the accept thread and the stop as they are,
and frees nothing. -/
theorem Owned.of_same (h : Owned s) (hclients : t.clients = s.clients)
    (hclient : ∀ j, (t.client j).freed = (s.client j).freed ∧ (t.client j).pc = (s.client j).pc)
    (hacceptor : t.acceptor = s.acceptor) (hstopper : t.stopper = s.stopper) : Owned t where
  nodup := hclients ▸ h.nodup
  freed i := by
    rw [(hclient i).1, (hclient i).2]
    exact h.freed i
  fresh i hi := by
    rw [hclients]
    exact h.fresh i (hacceptor ▸ hi)
  detached := hstopper ▸ h.detached

/-- A step of a client thread keeps the ownership. -/
theorem Owned.thread {i : ℕ} {c : Client} (h : Owned s) (hstep : ThreadStep s t i c) : Owned t := by
  obtain ⟨-, -, hacceptor, hstopper⟩ := hstep.rest
  have hsub : t.clients.Sublist s.clients := by
    rcases hstep.clients with hsame | ⟨-, -, herase⟩
    · rw [hsame]
    · rw [herase]
      exact List.erase_sublist
  refine ⟨h.nodup.sublist hsub, fun j => ?_, fun j hj => ?_, hstopper ▸ h.detached⟩
  · by_cases hj : j = i
    · rw [hj, hstep.client, Function.update_self]
      have hzero : (s.client i).freed = 0 :=
        (h.freed i).resolve_right fun hend => hstep.active.2 hend.2
      rcases hstep.freed with ⟨hsame, -⟩ | ⟨-, hone, hpc⟩
      · exact .inl (hsame.trans hzero)
      · exact .inr ⟨by omega, hpc⟩
    · rw [hstep.client, Function.update_of_ne hj]
      exact h.freed j
  · exact fun hmem => h.fresh j (hacceptor ▸ hj) (hsub.subset hmem)

/-- A step of the accept thread keeps the ownership. -/
theorem Owned.acceptor {input : AcceptInput} (h : Owned s) (hknown : Known s)
    (hstep : AcceptorStep s input t) : Owned t := by
  have hown : ∀ i, pending s.acceptor = some i → (s.client i).freed = 0 := by
    intro i hi
    refine (h.freed i).resolve_right fun hend => ?_
    rw [(hknown.pending i hi).2] at hend
    cases hend.2
  cases hstep with
  | enters => exact ⟨h.nodup, h.freed, nofun, h.detached⟩
  | returns => exact ⟨h.nodup, h.freed, nofun, h.detached⟩
  | retries => exact ⟨h.nodup, h.freed, nofun, h.detached⟩
  | accepts n hacceptor hfree =>
    refine ⟨h.nodup, fun j => ?_, fun j hj hmem => ?_, h.detached⟩
    · dsimp only
      by_cases hj : j = s.accepted
      · rw [hj, Function.update_self]
        exact .inl rfl
      · rw [Function.update_of_ne hj]
        exact h.freed j
    · cases hj
      exact absurd (hknown.listed _ hmem) (lt_irrefl _)
  | lists i hacceptor hmu =>
    exact ⟨List.nodup_cons.mpr ⟨h.fresh i hacceptor, h.nodup⟩, h.freed, nofun, h.detached⟩
  | creates i hacceptor =>
    refine ⟨h.nodup, fun j => ?_, nofun, h.detached⟩
    have hzero := hown i (by rw [hacceptor]; rfl)
    dsimp only
    by_cases hj : j = i
    · rw [hj, client_goto_self]
      exact .inl hzero
    · rw [client_goto_of_ne s _ hj]
      exact h.freed j
  | fails i hacceptor => exact ⟨h.nodup, h.freed, nofun, h.detached⟩
  | drops i hacceptor =>
    refine ⟨h.nodup, fun j => ?_, nofun, h.detached⟩
    dsimp only
    by_cases hj : j = i
    · rw [hj, client_setClient_self]
      exact h.freed i
    · rw [client_setClient_of_ne s _ hj]
      exact h.freed j
  | closes i hacceptor => exact ⟨h.nodup, h.freed, nofun, h.detached⟩
  | removes i hacceptor hmu =>
    exact ⟨h.nodup.sublist List.erase_sublist, h.freed, nofun, h.detached⟩
  | frees i hacceptor =>
    refine ⟨h.nodup, fun j => ?_, nofun, h.detached⟩
    have hzero := hown i (by rw [hacceptor]; rfl)
    dsimp only
    by_cases hj : j = i
    · rw [hj, client_setClient_self]
      exact .inr ⟨by dsimp only; omega, rfl⟩
    · rw [client_setClient_of_ne s _ hj]
      exact h.freed j

/-- The start of a broadcast keeps the ownership. -/
theorem Owned.broadcast {msg : Bytes} {dropRoll : ℕ} (h : Owned s)
    (hstep : BroadcastStep cfg s msg dropRoll t) : Owned t := by
  cases hstep with
  | closes hcut =>
    obtain ⟨heq, hkeep⟩ := wsCloseAllClients_frame s.clients { s with cutMsgs := s.cutMsgs + 1 }
    rw [heq]
    exact h.of_same rfl (fun j => ⟨(hkeep j).2.2, (hkeep j).1⟩) rfl rfl
  | suppressed => exact h.of_same rfl (fun _ => ⟨rfl, rfl⟩) rfl rfl
  | dropped => exact h.of_same rfl (fun _ => ⟨rfl, rfl⟩) rfl rfl
  | sleeps => exact h.of_same rfl (fun _ => ⟨rfl, rfl⟩) rfl rfl
  | walks => exact h.of_same rfl (fun _ => ⟨rfl, rfl⟩) rfl rfl

/-- A step of the broadcast that frees no record keeps the ownership. -/
theorem Owned.caster {input : CasterInput} (h : Owned s) (hok : LeavesRecords s (.caster input))
    (hstep : CasterStep s input t) : Owned t := by
  cases hstep with
  | wakes => exact h.of_same rfl (fun _ => ⟨rfl, rfl⟩) rfl rfl
  | ends => exact h.of_same rfl (fun _ => ⟨rfl, rfl⟩) rfl rfl
  | starts => exact h.of_same rfl (fun _ => ⟨rfl, rfl⟩) rfl rfl
  | releases msg visited c rest hcaster hdead => -- the visited record is alive
    have halive : (s.client c).alive = true := by
      simpa [LeavesRecords, leavesRecords, hcaster] using hok
    rw [hdead] at halive
    cases halive
  | completes => exact h.of_same rfl (fun _ => ⟨rfl, rfl⟩) rfl rfl
  | sends => exact h.of_same rfl (fun _ => ⟨rfl, rfl⟩) rfl rfl
  | fails => cases hok

/-- A step of the stop that detaches no record keeps the ownership. -/
theorem Owned.stop (h : Owned s) (hok : LeavesRecords s .stop) (hstep : StopStep s t) : Owned t := by
  have hdetached := h.detached
  cases hstep with
  | called => exact ⟨h.nodup, h.freed, h.fresh, rfl⟩
  | detaches hstopper =>
    have hempty : s.clients = [] := by
      simpa [LeavesRecords, leavesRecords, hstopper] using hok
    exact ⟨.nil, h.freed, fun i _ => List.not_mem_nil, by rw [hempty]; rfl⟩
  | frees c rest hstopper =>
    rw [hstopper] at hdetached
    cases hdetached

/-- A step by which neither the broadcast nor the stop frees a record keeps the
ownership. -/
theorem Owned.step (h : Owned s) (hknown : Known s) (hok : LeavesRecords s a)
    (hstep : serverStep cfg s a = some t) : Owned t := by
  cases serverStep_cases hstep with
  | clock now hle => exact h.of_same rfl (fun _ => ⟨rfl, rfl⟩) rfl rfl
  | acceptor input _ hacceptor => exact h.acceptor hknown hacceptor
  | client i input _ hclient =>
    obtain ⟨c, hthread⟩ := clientStep_threadStep hclient
    exact h.thread hthread
  | broadcast msg dropRoll jitterRoll _ hidle hbroadcast => exact h.broadcast hbroadcast
  | caster input _ hcaster => exact h.caster hok hcaster
  | stop _ hstop => exact h.stop hok hstop

/-- In every run in which neither the broadcast nor the stop frees a record,
each record is listed and freed at most once, and no step of its own thread
comes after the free. -/
theorem records_released_once {actions : List Action}
    (hrun : Run (serverStep cfg) LeavesRecords Server.init actions s) : RecordsSafe cfg s := by
  have howned : Owned s := by
    induction hrun with
    | nil => exact ⟨.nil, fun _ => .inl rfl, nofun, rfl⟩
    | snoc hrun hok hstep ih => exact ih.step (known_of_run hrun) hok hstep
  exact howned.recordsSafe

/-- A configuration without impairments. -/
def plainConfig : WsConfig where
  delayMs := 0
  jitterMs := 0
  dropPct := 0
  cutStartS := 0
  cutDurationS := 0
  reconnectModeClose := true
  expTag := ⟨⟨lit "default", by decide⟩, by decide⟩
  hasDb := true

/-- One client is accepted on descriptor 7 and its thread started. -/
def acceptOne : List Action :=
  [.acceptor .proceed, .acceptor (.accepted 7), .acceptor .proceed, .acceptor .proceed]

/-- The thread of the first client fails its handshake and returns. -/
def failHandshake : List Action :=
  [.client 0 .proceed, .client 0 (.request none), .client 0 .proceed, .client 0 .proceed,
    .client 0 .proceed, .client 0 .proceed, .client 0 .proceed]

/-- A broadcast visits the first client, and both of its sends succeed. -/
def visitFirst : List Action :=
  [.broadcast (lit "x") 0 0, .caster .proceed, .caster (.wrote 2), .caster (.wrote 1),
    .caster .proceed]

/-- The stop after the client has left: the accept thread returns, and the list
that is detached is empty. -/
def stopEmpty : List Action := [.stop, .acceptor .proceed, .stop]

/-- A broadcast visits a client before its handshake fails; its thread frees the
record, and the stop finds none. -/
theorem records_released_once_visitedClient :
    ∃ s, Run (serverStep plainConfig) LeavesRecords Server.init
        (acceptOne ++ visitFirst ++ failHandshake ++ stopEmpty) s ∧
      (s.stream 0).length = 2 ∧ (s.client 0).freed = 1 ∧ RecordsSafe plainConfig s := by
  have hexec : (exec (serverStep plainConfig) LeavesRecords Server.init
      (acceptOne ++ visitFirst ++ failHandshake ++ stopEmpty)).map
        (fun s => ((s.stream 0).length, (s.client 0).freed)) = some (2, 1) := by
    decide +kernel
  obtain ⟨s, hs, hfields⟩ := Option.map_eq_some_iff.mp hexec
  obtain ⟨hstream, hfreed⟩ := Prod.mk.inj hfields
  have hrun := run_of_exec hs
  exact ⟨s, hrun, hstream, hfreed, records_released_once hrun⟩

/-- A broadcast whose send fails frees the record, and its own thread goes on
with it and frees it again. -/
theorem record_freed_twice :
    ∃ s, Run (serverStep plainConfig) anyStep Server.init
        (acceptOne ++ [.broadcast (lit "x") 0 0, .caster .proceed, .caster .sendFailed,
          .caster .proceed] ++ failHandshake) s ∧
      (s.client 0).freed = 2 := by
  have hexec : ∃ s, exec (serverStep plainConfig) anyStep Server.init
      (acceptOne ++ [.broadcast (lit "x") 0 0, .caster .proceed, .caster .sendFailed,
        .caster .proceed] ++ failHandshake) = some s := ⟨_, rfl⟩
  obtain ⟨s, hs⟩ := hexec
  refine ⟨s, run_of_exec hs, ?_⟩
  cases hs
  rfl

end TelemetryPlatform.RecordRelease
