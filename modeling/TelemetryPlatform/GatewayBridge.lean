import TelemetryPlatform.BroadcastReach
import TelemetryPlatform.HandshakeOrder
import TelemetryPlatform.HistoryReply

/-!
# The gateway: storing, replaying and sending live

The writer thread commits a batch and then hands its samples to the broadcast
one by one, while clients connect and have their history requests answered
from the table. A sample that is committed after the snapshot of an answer is
still to be broadcast, or its broadcast was suppressed, or it was sent to the
client as a whole, or the client had left when the broadcast came to it, or a
send to it failed, or its connection was closed during the sends.
-/

namespace TelemetryPlatform.GatewayBridge

open CStrings CallStreams GuardedRuns StringBuilder SampleJson KeyedWindow WriterConnection
open WriterThread HistoryReply WsFrames WsServer WsSteps WsRecords WsSends WsCalls WsStreams BroadcastReach
open RecordRelease HandshakeOrder

/-- An order in which the select may return the rows of each table. -/
structure SelectOrder where
  /-- The rows in this order. -/
  sorted : List StoredRow → List StoredRow
  /-- Rows come by descending reception time. -/
  arranged : ∀ table, Arrangement receivedAt table (sorted table)

/-- What became of a sample that left the batch. -/
inductive CastResult where
  /-- No text was allocated and no broadcast made. -/
  | noText
  /-- The broadcast was suppressed in the cut window. -/
  | suppressed
  /-- The broadcast was dropped. -/
  | dropped
  /-- The broadcast walked the list, with calls numbered from first on, and
  lost some clients. -/
  | passed (first : ℕ) (msg : Bytes) (losses : ℕ → Option Loss)

/-- A sample that left the batch. -/
structure Cast where
  /-- The sample. -/
  row : StoredRow
  /-- What became of it. -/
  result : CastResult

/-- The broadcast in progress. -/
structure Casting where
  /-- The sample. -/
  row : StoredRow
  /-- Number of calls before the broadcast. -/
  first : ℕ
  /-- The text of the sample. -/
  msg : Bytes
  /-- The clients that it has lost so far. -/
  losses : ℕ → Option Loss

/-- An answered history request. -/
structure Answer where
  /-- The client that asked. -/
  client : ℕ
  /-- The table that the query read. -/
  snapshot : List StoredRow

/-- The gateway: the writer thread, the server, and what happened so far. -/
structure Gateway where
  /-- The writer thread with the database. -/
  writer : WriterState
  /-- The server. -/
  server : Server
  /-- Whether the writer thread has returned. -/
  ended : Bool
  /-- The broadcast that the writer thread is in. -/
  casting : Option Casting
  /-- The samples that left their batches. -/
  casts : List Cast
  /-- The table that the query of a client thread reads. -/
  snapshot : ℕ → Option (List StoredRow)
  /-- The answers so far. -/
  answers : List Answer

/-- The gateway after its start. -/
def Gateway.init : Gateway := ⟨.init, .init, false, none, [], fun _ => none, []⟩

/-- Steps of the gateway. -/
inductive GatewayAction where
  /-- The writer thread runs one turn of its loop up to the broadcasts. -/
  | batch (b : BatchRun)
  /-- The writer thread calls the broadcast for the next sample of the batch. -/
  | publish (dropRoll jitterRoll : ℕ)
  /-- The writer thread returns at the head of its loop. -/
  | writerEnds
  /-- The server takes a step. -/
  | server (a : Action)
  /-- The query of a client thread reads the table. -/
  | snapshot (i : ℕ)
  /-- The query of a client thread returns. -/
  | answer (i : ℕ) (call : HistoryCall) (order : SelectOrder)

variable (cfg : WsConfig)

/-- The gateway after a step of the server; the broadcast may lose clients and
may return. -/
def Gateway.advance (g : Gateway) (a : Action) (s : Server) : Gateway :=
  match g.casting with
  | none => { g with server := s }
  | some c =>
    let losses := lossesAfter g.server a c.losses
    match s.caster with
    | .idle =>
      { g with
        server := s
        casting := none
        casts := g.casts ++ [⟨c.row, .passed c.first c.msg losses⟩] }
    | _ => { g with server := s, casting := some { c with losses := losses } }

/-- The gateway after the call of the broadcast; it returns at once where it is
suppressed or dropped. -/
def Gateway.startCast (g : Gateway) (row : StoredRow) (msg : Bytes) (dropRoll : ℕ) (s : Server) :
    Gateway :=
  if impairmentCutActive cfg g.server = true then
    { g with server := s, casts := g.casts ++ [⟨row, .suppressed⟩] }
  else if impairmentShouldDrop cfg dropRoll = true then
    { g with server := s, casts := g.casts ++ [⟨row, .dropped⟩] }
  else
    { g with
      server := s
      casting := some ⟨row, g.server.calls.length, msg, startLosses g.server⟩ }

/-- Whether the server takes the step on its own: broadcasts are called by the
writer thread, history queries return in a step of the gateway, and the server
is stopped after the writer thread has returned. -/
def Gateway.allows (g : Gateway) : Action → Bool
  | .broadcast _ _ _ => false
  | .client _ (.answered _) => false
  | .stop => g.ended
  | _ => true

/-- One step of the gateway. -/
def gatewayStep (g : Gateway) : GatewayAction → Option Gateway
  | .batch b =>
    if g.ended = true ∨ g.casting.isSome = true then none
    else (writerStep g.writer (.batch b)).map fun w => { g with writer := w }
  | .publish dropRoll jitterRoll =>
    if g.ended = true ∨ g.casting.isSome = true then none
    else
      match g.writer.todo with
      | [] => none
      | (row, mallocOk) :: _ =>
        (writerStep g.writer .publish).bind fun w =>
          match telemetryStateToJsonAlloc mallocOk row.state with
          | .error _ => some { g with writer := w, casts := g.casts ++ [⟨row, .noText⟩] }
          | .ok json =>
            (serverStep cfg g.server (.broadcast json.bytes dropRoll jitterRoll)).map fun s =>
              Gateway.startCast cfg { g with writer := w } row json.bytes dropRoll s
  | .writerEnds =>
    if g.ended = true ∨ g.casting.isSome = true ∨ g.writer.todo ≠ [] then none
    else some { g with ended := true }
  | .server a =>
    if g.allows a = true then (serverStep cfg g.server a).map (g.advance a) else none
  | .snapshot i =>
    match g.snapshot i, (g.server.client i).pc with
    | none, .querying _ =>
      some { g with snapshot := Function.update g.snapshot i (some g.writer.conn.table) }
    | _, _ => none
  | .answer i call order =>
    match g.snapshot i, (g.server.client i).pc with
    | some table, .querying last =>
      let reply := dbReaderHistoryLastJson call last (historyQuery (order.sorted table))
      let a := Action.client i (.answered (reply.map StrBuf.content))
      (serverStep cfg g.server a).map fun s =>
        { g.advance a s with
          snapshot := Function.update g.snapshot i none
          answers := g.answers ++ [⟨i, table⟩] }
    | _, _ => none

/-- A table that was read for a client, by an answer or by a query in progress. -/
def Gateway.Seen (g : Gateway) (k : ℕ) (table : List StoredRow) : Prop :=
  g.snapshot k = some table ∨ ⟨k, table⟩ ∈ g.answers

/-- A sample is still to be broadcast, or its broadcast is not over. -/
def Gateway.Pending (g : Gateway) (row : StoredRow) : Prop :=
  row ∈ g.writer.todo.map Prod.fst ∨ ∃ c, g.casting = some c ∧ c.row = row

/-- What may become of a sample for a client that asked before its commit. -/
inductive LiveOutcome (g : Gateway) (k : ℕ) (row : StoredRow) : Prop
  /-- Its broadcast is still to come or not over. -/
  | pending (h : g.Pending row)
  /-- Its text could not be allocated. -/
  | noText (h : ⟨row, .noText⟩ ∈ g.casts)
  /-- Its broadcast was suppressed in the cut window. -/
  | suppressed (h : ⟨row, .suppressed⟩ ∈ g.casts)
  /-- Its broadcast lost the client: it had left before the broadcast came to it,
  a send to it failed, or its connection was closed during the sends. -/
  | lost (first : ℕ) (msg : Bytes) (losses : ℕ → Option Loss) (loss : Loss)
      (h : ⟨row, .passed first msg losses⟩ ∈ g.casts) (hloss : losses k = some loss)
  /-- Its broadcast sent it to the client as a whole. -/
  | sent (first : ℕ) (json : CString) (losses : ℕ → Option Loss)
      (h : ⟨row, .passed first json.bytes losses⟩ ∈ g.casts)
      (hjson : telemetryStateToJsonAlloc true row.state = .ok json)
      (hsent : SentWhole g.server first json.bytes k)

variable {cfg : WsConfig} {g g' : Gateway} {s : Server} {a : Action}

/-- A broadcast that is over has served a client that it did not lose. -/
def Covered (s : Server) (k : ℕ) : CastResult → Prop
  | .noText => True
  | .suppressed => True
  | .dropped => False
  | .passed first msg losses => losses k = none → SentWhole s first msg k

/-- A broadcast sends the text of its sample. -/
def TextOf (row : StoredRow) (msg : Bytes) : Prop :=
  ∃ json, telemetryStateToJsonAlloc true row.state = .ok json ∧ json.bytes = msg

/-- A client has had its answer from a table without the sample, and is to be
sent the sample live. -/
def Gateway.Waiting (g : Gateway) (row : StoredRow) (k : ℕ) : Prop :=
  ∃ table, g.Seen k table ∧ row ∈ g.writer.conn.table.drop table.length

/-- What holds between the writer thread, the server and the answers. -/
structure Bridged (g : Gateway) : Prop where
  /-- The writer thread returns when it has nothing to broadcast. -/
  ended : g.ended = true → g.writer.todo = [] ∧ g.casting = none
  /-- The server is not stopped before. -/
  stopper : g.ended = false → g.server.stopper = .running
  /-- Broadcasts are calls of the writer thread. -/
  idle : g.casting = none → g.server.caster = .idle
  /-- The broadcast in progress reaches all clients that wait and are not lost. -/
  casting : ∀ c, g.casting = some c → g.server.caster ≠ .idle ∧
    Reaches g.server c.first c.msg c.losses (g.Waiting c.row) ∧ TextOf c.row c.msg
  /-- Samples of the batch were popped. -/
  todoPopped : ∀ row, g.Pending row → row.arrival < g.writer.popped
  /-- So were those that left it. -/
  castPopped : ∀ cast ∈ g.casts, cast.row.arrival < g.writer.popped
  /-- Every stored sample is pending or left its batch. -/
  stored : ∀ row ∈ g.writer.conn.table, g.Pending row ∨ ∃ cast ∈ g.casts, cast.row = row
  /-- A broadcast sent the text of its sample. -/
  text : ∀ row first msg losses, ⟨row, .passed first msg losses⟩ ∈ g.casts → TextOf row msg
  /-- A table that was read is a front of the table. -/
  front : ∀ k table, g.Seen k table → table <+: g.writer.conn.table
  /-- It was read by a connected client. -/
  connected : ∀ k table, g.Seen k table → 2 ≤ (g.server.client k).pc.stage
  /-- Samples committed after it was read were broadcast to the client. -/
  covered : ∀ k table, g.Seen k table → ∀ cast ∈ g.casts,
    cast.row ∈ g.writer.conn.table.drop table.length → Covered g.server k cast.result

/-- At the start nothing is stored. -/
theorem bridged_init : Bridged Gateway.init where
  ended h := nomatch h
  stopper _ := rfl
  idle _ := rfl
  casting _ h := nomatch h
  todoPopped _ h := h.elim nofun fun ⟨_, hc, _⟩ => nomatch hc
  castPopped _ h := absurd h List.not_mem_nil
  stored _ h := absurd h List.not_mem_nil
  text _ _ _ _ h := absurd h List.not_mem_nil
  front _ _ h := h.elim nofun fun h => absurd h List.not_mem_nil
  connected _ _ h := h.elim nofun fun h => absurd h List.not_mem_nil
  covered _ _ _ _ h := absurd h List.not_mem_nil

/-- A broadcast that served a client has served it for good. -/
theorem Covered.step {k : ℕ} {result : CastResult} (h : Covered g.server k result)
    (hknown : Known g.server) (hreg : Registered g.server) (htracked : Tracked g.server)
    (hstep : serverStep cfg g.server a = some s) : Covered s k result := by
  cases result with
  | noText => trivial
  | suppressed => trivial
  | dropped => exact h
  | passed first msg losses =>
    exact fun hkept => (h hkept).step hknown hreg htracked hstep

/-- What the server knows in every reachable state. -/
structure ServerFacts (s : Server) : Prop where
  /-- Which records the parties know. -/
  known : Known s
  /-- Operations and calls fit together. -/
  registered : Registered s
  /-- Operations account for the streams. -/
  tracked : Tracked s
  /-- Live records are listed. -/
  listed : Listed s

/-- Clients that wait are connected. -/
theorem Bridged.stage (h : Bridged g) (row : StoredRow) (k : ℕ) (hk : g.Waiting row k) :
    2 ≤ (g.server.client k).pc.stage :=
  have ⟨table, hseen, _⟩ := hk
  h.connected k table hseen

/-- While a broadcast is in progress the writer thread has not returned. -/
theorem Bridged.not_ended (h : Bridged g) {c : Casting} (hc : g.casting = some c) :
    g.ended = false := by
  by_contra hover
  rw [Bool.not_eq_false] at hover
  rw [(h.ended hover).2] at hc
  cases hc

/-- Until the writer thread returns the stop frees no records. -/
theorem Bridged.not_freeing (h : Bridged g) (hended : g.ended = false) (rest : List ℕ) :
    g.server.stopper ≠ .freeing rest := by
  rw [h.stopper hended]
  exact nofun

/-- Until the writer thread returns the server is not stopped. -/
theorem Bridged.stopper_step (h : Bridged g) (hstep : serverStep cfg g.server a = some s)
    (hstop : a = .stop → g.ended = true) (hended : g.ended = false) : s.stopper = .running := by
  rw [← h.stopper hended]
  refine stopper_of_step (fun heq => ?_) hstep
  have hover := hstop heq
  rw [hended] at hover
  cases hover

/-- A step of the server leaves the broadcast in progress with what is left of it. -/
theorem Bridged.reaches_step (h : Bridged g) (hfacts : ServerFacts g.server)
    (hstep : serverStep cfg g.server a = some s) {c : Casting} (hc : g.casting = some c) :
    Reaches s c.first c.msg (lossesAfter g.server a c.losses) (g.Waiting c.row) := by
  obtain ⟨hbusy, hreaches, -⟩ := h.casting c hc
  exact hreaches.step hfacts.listed hfacts.known hfacts.registered hfacts.tracked hbusy
    (h.not_freeing (h.not_ended hc)) (h.stage c.row) hstep

/-- The gateway after a step of the server while no broadcast is in progress. -/
theorem Bridged.server_quiet (h : Bridged g) (hfacts : ServerFacts g.server)
    (hstep : serverStep cfg g.server a = some s) (hstop : a = .stop → g.ended = true)
    (hcasting : g.casting = none) (hidle : s.caster = .idle) : Bridged { g with server := s } := by
  have heffect := serverStep_effect hfacts.known hstep
  refine ⟨h.ended, h.stopper_step hstep hstop, fun _ => hidle, fun c hc => ?_, h.todoPopped,
    h.castPopped, h.stored, h.text, h.front, fun k table hk => ?_, fun k table hk cast hcast hrow => ?_⟩
  · rw [hcasting] at hc
    cases hc
  · exact (h.connected k table hk).trans (stage_le_of_effect heffect k)
  · exact (h.covered k table hk cast hcast hrow).step hfacts.known hfacts.registered hfacts.tracked
      hstep

/-- The gateway after a step of the server that leaves a broadcast in progress. -/
theorem Bridged.server_busy (h : Bridged g) (hfacts : ServerFacts g.server)
    (hstep : serverStep cfg g.server a = some s) {c : Casting} (hc : g.casting = some c)
    (hstop : a = .stop → g.ended = true) (hbusy : s.caster ≠ .idle) :
    Bridged { g with
      server := s
      casting := some { c with losses := lossesAfter g.server a c.losses } } := by
  have heffect := serverStep_effect hfacts.known hstep
  have hended := h.not_ended hc
  have hpending : ∀ row, Gateway.Pending { g with
      server := s
      casting := some { c with losses := lossesAfter g.server a c.losses } } row ↔
        g.Pending row := by
    intro row
    refine or_congr_right ⟨?_, ?_⟩
    · rintro ⟨c', hc', heq⟩
      cases hc'
      exact ⟨c, hc, heq⟩
    · rintro ⟨c', hc', heq⟩
      rw [hc] at hc'
      cases hc'
      exact ⟨_, rfl, heq⟩
  refine ⟨fun heq => ?_, h.stopper_step hstep hstop, nofun, fun c' hc' => ?_, fun row hrow => ?_,
    h.castPopped, fun row hrow => ?_, h.text, h.front, fun k table hk => ?_,
    fun k table hk cast hcast hrow => ?_⟩
  · dsimp only at heq
    rw [hended] at heq
    cases heq
  · cases hc'
    exact ⟨hbusy, h.reaches_step hfacts hstep hc, (h.casting c hc).2.2⟩
  · exact h.todoPopped row ((hpending row).mp hrow)
  · exact (h.stored row hrow).imp_left (hpending row).mpr
  · exact (h.connected k table hk).trans (stage_le_of_effect heffect k)
  · exact (h.covered k table hk cast hcast hrow).step hfacts.known hfacts.registered hfacts.tracked
      hstep

/-- The gateway after the end of a broadcast. -/
theorem Bridged.server_end (h : Bridged g) (hfacts : ServerFacts g.server)
    (hstep : serverStep cfg g.server a = some s) {c : Casting} (hc : g.casting = some c)
    (hstop : a = .stop → g.ended = true) (hidle : s.caster = .idle) :
    Bridged { g with
      server := s
      casting := none
      casts := g.casts ++
        [⟨c.row, .passed c.first c.msg (lossesAfter g.server a c.losses)⟩] } := by
  have heffect := serverStep_effect hfacts.known hstep
  have hended := h.not_ended hc
  have hstage : ∀ k table, g.Seen k table → 2 ≤ (s.client k).pc.stage := fun k table hk =>
    (h.connected k table hk).trans (stage_le_of_effect heffect k)
  refine ⟨fun heq => ?_, h.stopper_step hstep hstop, fun _ => hidle, nofun, fun row hrow => ?_,
    fun cast hcast => ?_, fun row hrow => ?_, fun row first msg losses hmem => ?_, h.front, hstage,
    fun k table hk cast hcast hrow => ?_⟩
  · dsimp only at heq
    rw [hended] at heq
    cases heq
  · refine h.todoPopped row (hrow.imp_right ?_)
    rintro ⟨c', hc', -⟩
    cases hc'
  · rcases List.mem_append.mp hcast with hold | hnew
    · exact h.castPopped cast hold
    · rw [List.mem_singleton.mp hnew]
      exact h.todoPopped c.row (.inr ⟨c, hc, rfl⟩)
  · rcases h.stored row hrow with hpending | ⟨cast, hcast, heq⟩
    · rcases hpending with htodo | ⟨c', hc', heq⟩
      · exact .inl (.inl htodo)
      · rw [hc] at hc'
        cases hc'
        exact .inr ⟨_, List.mem_append_right _ (List.mem_singleton_self _), heq⟩
    · exact .inr ⟨cast, List.mem_append_left _ hcast, heq⟩
  · rcases List.mem_append.mp hmem with hold | hnew
    · exact h.text row first msg losses hold
    · cases List.mem_singleton.mp hnew
      exact (h.casting c hc).2.2
  · rcases List.mem_append.mp hcast with hold | hnew
    · exact (h.covered k table hk cast hold hrow).step hfacts.known hfacts.registered
        hfacts.tracked hstep
    · rw [List.mem_singleton.mp hnew] at hrow ⊢
      obtain ⟨-, hall⟩ := h.reaches_step hfacts hstep hc
      rw [hidle] at hall
      exact hall k ⟨table, hk, hrow⟩

/-- A step of the server, with a broadcast in progress or without. -/
theorem Bridged.server (h : Bridged g) (hfacts : ServerFacts g.server)
    (hstep : serverStep cfg g.server a = some s)
    (hstart : ∀ msg dropRoll jitterRoll, a ≠ .broadcast msg dropRoll jitterRoll)
    (hstop : a = .stop → g.ended = true) : Bridged (g.advance a s) := by
  unfold Gateway.advance
  split
  · rename_i hnone
    have hidle := h.idle hnone
    have hcaster : ∀ input, a ≠ .caster input := by
      rintro input rfl
      cases input <;> simp [serverStep, casterStep, hidle] at hstep
    refine h.server_quiet hfacts hstep hstop hnone ?_
    rw [← hidle]
    exact caster_of_step hcaster (fun msg dropRoll jitterRoll heq =>
      absurd heq (hstart msg dropRoll jitterRoll)) hstep
  · rename_i c hc
    dsimp only
    split
    · rename_i hidle
      exact h.server_end hfacts hstep hc hstop hidle
    · rename_i hbusy
      exact h.server_busy hfacts hstep hc hstop hbusy

/-- Forgetting a query and recording its answer. -/
theorem Bridged.reseen (h : Bridged g) {snapshot : ℕ → Option (List StoredRow)} {answers : List Answer}
    (hseen : ∀ k table, snapshot k = some table ∨ ⟨k, table⟩ ∈ answers → g.Seen k table) :
    Bridged { g with snapshot := snapshot, answers := answers } where
  ended := h.ended
  stopper := h.stopper
  idle := h.idle
  casting c hc :=
    have ⟨hbusy, hreaches, htext⟩ := h.casting c hc
    ⟨hbusy, hreaches.mono fun k ⟨table, hk, hrow⟩ => ⟨table, hseen k table hk, hrow⟩, htext⟩
  todoPopped := h.todoPopped
  castPopped := h.castPopped
  stored := h.stored
  text := h.text
  front k table hk := h.front k table (hseen k table hk)
  connected k table hk := h.connected k table (hseen k table hk)
  covered k table hk := h.covered k table (hseen k table hk)

/-- A query that begins reads the whole table. -/
theorem Bridged.snapshot {i : ℕ} {last : ℤ} (h : Bridged g)
    (hpc : (g.server.client i).pc = .querying last) :
    Bridged { g with snapshot := Function.update g.snapshot i (some g.writer.conn.table) } := by
  have hseen : ∀ k table, (Function.update g.snapshot i (some g.writer.conn.table) k = some table ∨
      ⟨k, table⟩ ∈ g.answers) → g.Seen k table ∨ (k = i ∧ table = g.writer.conn.table) := by
    intro k table hk
    by_cases hki : k = i
    · rw [hki, Function.update_self] at hk
      rcases hk with hnew | hold
      · exact .inr ⟨hki, (Option.some.inj hnew).symm⟩
      · exact .inl (.inr (hki ▸ hold))
    · rw [Function.update_of_ne hki] at hk
      exact .inl hk
  refine ⟨h.ended, h.stopper, h.idle, fun c hc => ?_, h.todoPopped, h.castPopped, h.stored, h.text,
    fun k table hk => ?_, fun k table hk => ?_, fun k table hk cast hcast hrow => ?_⟩
  · obtain ⟨hbusy, hreaches, htext⟩ := h.casting c hc
    refine ⟨hbusy, hreaches.mono fun k ⟨table, hk, hrow⟩ => ?_, htext⟩
    rcases hseen k table hk with hold | ⟨-, hnew⟩
    · exact ⟨table, hold, hrow⟩
    · rw [hnew, List.drop_length] at hrow
      exact absurd hrow List.not_mem_nil
  · rcases hseen k table hk with hold | ⟨-, hnew⟩
    · exact h.front k table hold
    · exact hnew ▸ List.prefix_rfl
  · rcases hseen k table hk with hold | ⟨hki, -⟩
    · exact h.connected k table hold
    · rw [hki, hpc]
      exact le_rfl
  · rcases hseen k table hk with hold | ⟨-, hnew⟩
    · exact h.covered k table hold cast hcast hrow
    · rw [hnew, List.drop_length] at hrow
      exact absurd hrow List.not_mem_nil

/-- A turn of the writer thread stores samples that are new and pending. -/
theorem Bridged.batch {b : BatchRun} {w : WriterState} (h : Bridged g) (hended : g.ended ≠ true)
    (hcasting : g.casting = none) (hstep : writerStep g.writer (.batch b) = some w) :
    Bridged { g with writer := w } := by
  obtain ⟨-, hnumbers, extra, htable, hextra⟩ := writerStep_batch_rows hstep
  have hpopped := writerStep_batch_popped hstep
  refine ⟨fun heq => absurd heq hended, h.stopper, h.idle, fun c hc => ?_, fun row hrow => ?_,
    fun cast hcast => ?_, fun row hrow => ?_, h.text, fun k table hk => ?_, h.connected,
    fun k table hk cast hcast hrow => ?_⟩
  · rw [hcasting] at hc
    cases hc
  · rcases hrow with htodo | ⟨c, hc, -⟩
    · exact (hnumbers row htodo).2
    · rw [hcasting] at hc
      cases hc
  · have hold := h.castPopped cast hcast
    dsimp only
    omega
  · dsimp only at hrow
    rw [htable, List.mem_append] at hrow
    rcases hrow with hold | hnew
    · rcases h.stored row hold with hpending | hcast
      · rcases hpending with htodo | ⟨c, hc, -⟩
        · rw [(writerStep_batch_rows hstep).1] at htodo
          exact absurd htodo List.not_mem_nil
        · rw [hcasting] at hc
          cases hc
      · exact .inr hcast
    · exact .inl (.inl (hextra row hnew))
  · dsimp only
    rw [htable]
    exact (h.front k table hk).trans (List.prefix_append _ _)
  · -- the samples that left earlier batches are older than the new rows
    have hfront := (h.front k table hk).length_le
    dsimp only at hrow
    rw [htable, List.drop_append_of_le_length hfront, List.mem_append] at hrow
    rcases hrow with hold | hnew
    · exact h.covered k table hk cast hcast hold
    · have hless := h.castPopped cast hcast
      have hmore := (hnumbers cast.row (hextra cast.row hnew)).1
      omega

/-- The writer thread returns. -/
theorem Bridged.writerEnds (h : Bridged g) (hcasting : g.casting = none) (htodo : g.writer.todo = []) :
    Bridged { g with ended := true } :=
  { h with
    ended := fun _ => ⟨htodo, hcasting⟩
    stopper := nofun }

/-- What a publish step of the writer thread does to the batch. -/
theorem publish_frame {w w' : WriterState} {row : StoredRow} {mallocOk : Bool}
    {rest : List (StoredRow × Bool)} (htodo : w.todo = (row, mallocOk) :: rest)
    (hstep : writerStep w .publish = some w') :
    w'.todo = rest ∧ w'.conn = w.conn ∧ w'.popped = w.popped := by
  obtain ⟨row', mallocOk', htodo', hconn, -, -⟩ := writerStep_publish_cases hstep
  rw [htodo] at htodo'
  cases htodo'
  exact ⟨rfl, hconn, writerStep_publish_popped hstep⟩

/-- A sample leaves the batch without a walk over the list. -/
theorem Bridged.leave {w : WriterState} {row : StoredRow} {mallocOk : Bool}
    {rest : List (StoredRow × Bool)} {result : CastResult} (h : Bridged g) (hended : g.ended ≠ true)
    (hcasting : g.casting = none) (htodo : g.writer.todo = (row, mallocOk) :: rest)
    (hstep : writerStep g.writer .publish = some w)
    (hresult : ∀ k, Covered g.server k result)
    (htext : ∀ first msg losses, result ≠ .passed first msg losses) :
    Bridged { g with writer := w, casts := g.casts ++ [⟨row, result⟩] } := by
  obtain ⟨hrest, hconn, hpopped⟩ := publish_frame htodo hstep
  have hhead : row ∈ g.writer.todo.map Prod.fst := by
    rw [htodo]
    exact List.mem_cons_self
  have hpending : ∀ row', Gateway.Pending { g with
      writer := w
      casts := g.casts ++ [⟨row, result⟩] } row' → g.Pending row' := by
    intro row' hrow
    refine hrow.imp_left fun hmem => ?_
    rw [htodo]
    dsimp only at hmem
    rw [hrest] at hmem
    exact List.mem_cons_of_mem _ hmem
  refine ⟨fun heq => absurd heq hended, h.stopper, h.idle, fun c hc => ?_, fun row' hrow => ?_,
    fun cast hcast => ?_, fun row' hrow => ?_, fun row' first msg losses hmem => ?_,
    fun k table hk => ?_, h.connected, fun k table hk cast hcast hrow => ?_⟩
  · rw [hcasting] at hc
    cases hc
  · dsimp only
    rw [hpopped]
    exact h.todoPopped row' (hpending row' hrow)
  · dsimp only
    rw [hpopped]
    rcases List.mem_append.mp hcast with hold | hnew
    · exact h.castPopped cast hold
    · rw [List.mem_singleton.mp hnew]
      exact h.todoPopped row (.inl hhead)
  · dsimp only at hrow
    rw [hconn] at hrow
    rcases h.stored row' hrow with (hmem | hcasting) | ⟨cast, hcast, heq⟩
    · rw [htodo, List.map_cons, List.mem_cons] at hmem
      rcases hmem with hfirst | hlater
      · exact .inr ⟨_, List.mem_append_right _ (List.mem_singleton_self _), hfirst.symm⟩
      · refine .inl (.inl ?_)
        dsimp only
        rw [hrest]
        exact hlater
    · exact .inl (.inr hcasting)
    · exact .inr ⟨cast, List.mem_append_left _ hcast, heq⟩
  · rcases List.mem_append.mp hmem with hold | hnew
    · exact h.text row' first msg losses hold
    · cases List.mem_singleton.mp hnew
      exact absurd rfl (htext first msg losses)
  · dsimp only
    rw [hconn]
    exact h.front k table hk
  · dsimp only at hrow
    rw [hconn] at hrow
    rcases List.mem_append.mp hcast with hold | hnew
    · exact h.covered k table hk cast hold hrow
    · rw [List.mem_singleton.mp hnew]
      exact hresult k

/-- A broadcast starts to walk the list. -/
theorem Bridged.start {w : WriterState} {row : StoredRow} {mallocOk : Bool} {msg : Bytes}
    {dropRoll jitterRoll : ℕ} {rest : List (StoredRow × Bool)} (h : Bridged g)
    (hfacts : ServerFacts g.server) (hended : g.ended ≠ true)
    (htodo : g.writer.todo = (row, mallocOk) :: rest)
    (hwriter : writerStep g.writer .publish = some w)
    (hstep : serverStep cfg g.server (.broadcast msg dropRoll jitterRoll) = some s)
    (hbusy : s.caster ≠ .idle)
    (hreaches : Reaches s g.server.calls.length msg (startLosses g.server) (g.Waiting row))
    (htext : TextOf row msg) :
    Bridged { g with
      writer := w
      server := s
      casting := some ⟨row, g.server.calls.length, msg, startLosses g.server⟩ } := by
  obtain ⟨hrest, hconn, hpopped⟩ := publish_frame htodo hwriter
  have heffect := serverStep_effect hfacts.known hstep
  have hhead : row ∈ g.writer.todo.map Prod.fst := by
    rw [htodo]
    exact List.mem_cons_self
  refine ⟨fun heq => absurd heq hended, fun hrunning => ?_, nofun, fun c hc => ?_,
    fun row' hrow => ?_, fun cast hcast => ?_, fun row' hrow => ?_, h.text, fun k table hk => ?_,
    fun k table hk => ?_, fun k table hk cast hcast hrow => ?_⟩
  · rw [← h.stopper hrunning]
    exact stopper_of_step (a := .broadcast msg dropRoll jitterRoll) nofun hstep
  · cases hc
    refine ⟨hbusy, hreaches.mono fun k ⟨table, hk, hmem⟩ => ⟨table, hk, ?_⟩, htext⟩
    rwa [← hconn]
  · dsimp only
    rw [hpopped]
    rcases hrow with hmem | ⟨c, hc, heq⟩
    · refine h.todoPopped row' (.inl ?_)
      dsimp only at hmem
      rw [hrest] at hmem
      rw [htodo]
      exact List.mem_cons_of_mem _ hmem
    · cases hc
      rw [← heq]
      exact h.todoPopped row (.inl hhead)
  · dsimp only
    rw [hpopped]
    exact h.castPopped cast hcast
  · dsimp only at hrow
    rw [hconn] at hrow
    rcases h.stored row' hrow with (hmem | ⟨c, hc, -⟩) | hcast
    · rw [htodo, List.map_cons, List.mem_cons] at hmem
      rcases hmem with hfirst | hlater
      · exact .inl (.inr ⟨_, rfl, hfirst.symm⟩)
      · refine .inl (.inl ?_)
        dsimp only
        rw [hrest]
        exact hlater
    · -- no other broadcast is in progress
      cases serverStep_cases hstep with
      | broadcast _ _ _ _ hidle => exact absurd hidle (h.casting c hc).1
    · exact .inr hcast
  · dsimp only
    rw [hconn]
    exact h.front k table hk
  · exact (h.connected k table hk).trans (stage_le_of_effect heffect k)
  · dsimp only at hrow
    rw [hconn] at hrow
    exact (h.covered k table hk cast hcast hrow).step hfacts.known hfacts.registered hfacts.tracked
      hstep

/-- What a text is where it is allocated. -/
theorem textOf_ok {row : StoredRow} {mallocOk : Bool} {json : CString}
    (h : telemetryStateToJsonAlloc mallocOk row.state = .ok json) : TextOf row json.bytes := by
  cases mallocOk with
  | true => exact ⟨json, h, rfl⟩
  | false => cases h

/-- The writer thread hands a sample to the broadcast; without a drop
percentage nothing is dropped. -/
theorem Bridged.publish {w : WriterState} {row : StoredRow} {mallocOk : Bool} {msg : Bytes}
    {dropRoll jitterRoll : ℕ} {rest : List (StoredRow × Bool)} (h : Bridged g)
    (hfacts : ServerFacts g.server) (hdrop : cfg.dropPct = 0) (hended : g.ended ≠ true)
    (hcasting : g.casting = none) (htodo : g.writer.todo = (row, mallocOk) :: rest)
    (hwriter : writerStep g.writer .publish = some w)
    (hstep : serverStep cfg g.server (.broadcast msg dropRoll jitterRoll) = some s)
    (htext : TextOf row msg) :
    Bridged (Gateway.startCast cfg { g with writer := w } row msg dropRoll s) := by
  have hkept : impairmentShouldDrop cfg dropRoll = false := by
    simp [impairmentShouldDrop, hdrop]
  have hserver : s = wsServerBroadcast cfg g.server msg dropRoll jitterRoll := by
    rw [serverStep] at hstep
    split at hstep
    · exact (Option.some.inj hstep).symm
    · cases hstep
  unfold Gateway.startCast
  dsimp only
  rw [if_neg (show ¬ impairmentShouldDrop cfg dropRoll = true by rw [hkept]; exact Bool.false_ne_true)]
  split_ifs with hcut
  · -- the cut window suppresses the broadcast
    have hframe := broadcastStep_frame (wsServerBroadcast_cases cfg g.server msg dropRoll jitterRoll)
    have hstop : Action.broadcast msg dropRoll jitterRoll = .stop → g.ended = true := by
      intro hstop
      cases hstop
    have hidle : s.caster = .idle := by
      rw [hserver, hframe.2 (.inl hcut)]
      exact h.idle hcasting
    have htext : ∀ first msg losses, CastResult.suppressed ≠ .passed first msg losses := by
      intro first msg losses hpassed
      cases hpassed
    exact (h.server_quiet hfacts hstep hstop hcasting hidle).leave hended hcasting htodo hwriter
      (fun _ => trivial) htext
  · have hrunning := h.not_freeing (Bool.eq_false_of_not_eq_true hended)
    obtain ⟨hbusy, hreaches⟩ := reaches_wsServerBroadcast hfacts.listed hfacts.known hrunning
      (h.stage row) msg jitterRoll (Bool.eq_false_of_not_eq_true hcut) hkept
    rw [← hserver] at hbusy hreaches
    exact h.start hfacts hended htodo hwriter hstep hbusy hreaches htext

/-- The server of the gateway takes server steps only. -/
theorem gatewayStep_server {a : GatewayAction} (hstep : gatewayStep cfg g a = some g') :
    g'.server = g.server ∨ ∃ b, serverStep cfg g.server b = some g'.server := by
  have hadvance : ∀ b s, (g.advance b s).server = s := by
    intro b s
    unfold Gateway.advance
    split
    · rfl
    · dsimp only
      split <;> rfl
  cases a with
  | batch b =>
    rw [gatewayStep] at hstep
    split_ifs at hstep
    obtain ⟨w, -, rfl⟩ := Option.map_eq_some_iff.mp hstep
    exact .inl rfl
  | publish dropRoll jitterRoll =>
    rw [gatewayStep] at hstep
    split_ifs at hstep
    split at hstep
    · cases hstep
    · obtain ⟨w, -, hnext⟩ := Option.bind_eq_some_iff.mp hstep
      split at hnext
      · cases hnext
        exact .inl rfl
      · rename_i json _
        obtain ⟨s, hs, rfl⟩ := Option.map_eq_some_iff.mp hnext
        refine .inr ⟨.broadcast json.bytes dropRoll jitterRoll, ?_⟩
        rw [hs, Gateway.startCast]
        split_ifs <;> rfl
  | writerEnds =>
    rw [gatewayStep] at hstep
    split_ifs at hstep
    cases hstep
    exact .inl rfl
  | server b =>
    rw [gatewayStep] at hstep
    split_ifs at hstep
    obtain ⟨s, hs, rfl⟩ := Option.map_eq_some_iff.mp hstep
    exact .inr ⟨b, by rw [hadvance]; exact hs⟩
  | snapshot i =>
    rw [gatewayStep] at hstep
    split at hstep
    · cases hstep
      exact .inl rfl
    · cases hstep
  | answer i call order =>
    rw [gatewayStep] at hstep
    split at hstep
    · obtain ⟨s, hs, rfl⟩ := Option.map_eq_some_iff.mp hstep
      exact .inr ⟨_, by dsimp only; rw [hadvance]; exact hs⟩
    · cases hstep

/-- What happens to the server in a run of the gateway is a run of the server. -/
theorem server_run {actions : List GatewayAction} {ok : Gateway → GatewayAction → Prop}
    (hrun : Run (gatewayStep cfg) ok Gateway.init actions g) :
    ∃ steps, Run (serverStep cfg) anyStep Server.init steps g.server := by
  induction hrun with
  | nil => exact ⟨[], .nil⟩
  | snoc _ _ hstep ih =>
    obtain ⟨steps, hsteps⟩ := ih
    rcases gatewayStep_server hstep with hsame | ⟨b, hb⟩
    · rw [hsame]
      exact ⟨steps, hsteps⟩
    · exact ⟨steps ++ [b], .snoc hsteps trivial hb⟩

/-- What the server knows in every reachable state of the gateway. -/
theorem serverFacts_of_run {actions : List GatewayAction} {ok : Gateway → GatewayAction → Prop}
    (hrun : Run (gatewayStep cfg) ok Gateway.init actions g) : ServerFacts g.server := by
  obtain ⟨steps, hsteps⟩ := server_run hrun
  exact ⟨known_of_run hsteps, registered_of_run hsteps, tracked_of_run hsteps, listed_of_run hsteps⟩

/-- Every step of the gateway keeps the bridge. -/
theorem Bridged.step {a : GatewayAction} (h : Bridged g) (hfacts : ServerFacts g.server)
    (hdrop : cfg.dropPct = 0) (hstep : gatewayStep cfg g a = some g') : Bridged g' := by
  cases a with
  | batch b =>
    rw [gatewayStep] at hstep
    split_ifs at hstep with hbusy
    obtain ⟨w, hw, rfl⟩ := Option.map_eq_some_iff.mp hstep
    rw [not_or] at hbusy
    exact h.batch hbusy.1 (by simpa using hbusy.2) hw
  | publish dropRoll jitterRoll =>
    rw [gatewayStep] at hstep
    split_ifs at hstep with hbusy
    rw [not_or] at hbusy
    split at hstep
    · cases hstep
    · rename_i row mallocOk rest htodo
      obtain ⟨w, hw, hnext⟩ := Option.bind_eq_some_iff.mp hstep
      split at hnext
      · cases hnext
        exact h.leave hbusy.1 (by simpa using hbusy.2) htodo hw (fun _ => trivial) nofun
      · rename_i json hjson
        obtain ⟨s, hs, rfl⟩ := Option.map_eq_some_iff.mp hnext
        exact h.publish hfacts hdrop hbusy.1 (by simpa using hbusy.2) htodo hw hs (textOf_ok hjson)
  | writerEnds =>
    rw [gatewayStep] at hstep
    split_ifs at hstep with hbusy
    cases hstep
    rw [not_or, not_or, not_not] at hbusy
    exact h.writerEnds (by simpa using hbusy.2.1) hbusy.2.2
  | server b =>
    rw [gatewayStep] at hstep
    split_ifs at hstep with hallowed
    obtain ⟨s, hs, rfl⟩ := Option.map_eq_some_iff.mp hstep
    refine h.server hfacts hs ?_ ?_
    · rintro msg dropRoll jitterRoll rfl
      cases hallowed
    · rintro rfl
      exact hallowed
  | snapshot i =>
    rw [gatewayStep] at hstep
    split at hstep
    · rename_i last _ hpc
      cases hstep
      exact h.snapshot hpc
    · cases hstep
  | answer i call order =>
    rw [gatewayStep] at hstep
    split at hstep
    · rename_i table last htable _
      obtain ⟨s, hs, rfl⟩ := Option.map_eq_some_iff.mp hstep
      refine (h.server hfacts hs nofun nofun).reseen fun k table' hk => ?_
      have hsame : ∀ b, (g.advance b s).snapshot = g.snapshot ∧
          (g.advance b s).answers = g.answers := by
        intro b
        unfold Gateway.advance
        split
        · exact ⟨rfl, rfl⟩
        · dsimp only
          split <;> exact ⟨rfl, rfl⟩
      rw [Gateway.Seen, (hsame _).1, (hsame _).2]
      rcases hk with hopen | hdone
      · by_cases hki : k = i
        · rw [hki, Function.update_self] at hopen
          cases hopen
        · rw [Function.update_of_ne hki] at hopen
          exact .inl hopen
      · rcases List.mem_append.mp hdone with hold | hnew
        · exact .inr hold
        · cases List.mem_singleton.mp hnew
          exact .inl htable
    · cases hstep

/-- Without a drop percentage, in every run of the gateway every sample that
was committed after the snapshot of an answer is still to be broadcast, or had
no text, or its broadcast was suppressed in the cut window, or it was sent to
the client as a whole, or its broadcast lost the client: it had left before the
broadcast came to it, a send to it failed, or its connection was closed during
the sends. -/
theorem sent_live_or_left {actions : List GatewayAction} (hdrop : cfg.dropPct = 0)
    (hrun : Run (gatewayStep cfg) anyStep Gateway.init actions g) :
    ∀ answer ∈ g.answers, answer.snapshot <+: g.writer.conn.table ∧
      ∀ row ∈ g.writer.conn.table.drop answer.snapshot.length, LiveOutcome g answer.client row := by
  have hbridged : Bridged g := by
    induction hrun with
    | nil => exact bridged_init
    | snoc hrun _ hstep ih => exact ih.step (serverFacts_of_run hrun) hdrop hstep
  intro answer hanswer
  have hseen : g.Seen answer.client answer.snapshot := .inr hanswer
  refine ⟨hbridged.front _ _ hseen, fun row hrow => ?_⟩
  rcases hbridged.stored row (List.mem_of_mem_drop hrow) with hpending | ⟨⟨row', result⟩, hcast, rfl⟩
  · exact .pending hpending
  · have hcovered := hbridged.covered _ _ hseen _ hcast hrow
    cases result with
    | noText => exact .noText hcast
    | suppressed => exact .suppressed hcast
    | dropped => exact absurd hcovered id
    | passed first msg losses =>
      cases hloss : losses answer.client with
      | some loss => exact .lost first msg losses loss hcast hloss
      | none =>
        obtain ⟨json, hjson, rfl⟩ := hbridged.text _ _ _ _ hcast
        exact .sent first json losses hcast hjson (hcovered hloss)

/-- The order of a stable sort. -/
def stableOrder : SelectOrder where
  sorted table := table.mergeSort (keyGe receivedAt)
  arranged := arrangement_mergeSort receivedAt

/-- The first client connects, is greeted and asks for the history. -/
def connectAndAsk : List Action :=
  acceptOne ++ shakeHands ++
    [.client 0 .proceed, .client 0 (.wrote 2), .client 0 (.wrote 55), .client 0 .proceed,
      .client 0 (.frame (some (0x1, lit "\x7b\"type\":\"history\"\x7d")))]

/-- The history request of the first client is answered. -/
def answered : List GatewayAction :=
  connectAndAsk.map .server ++ [.snapshot 0, .answer 0 .flawless stableOrder]

/-- One sample is committed and its broadcast walks over the first client. -/
def storeAndCast : List GatewayAction :=
  [.batch (oneSampleRun .done .done), .publish 0 0, .server (.caster .proceed),
    .server (.caster (.wrote 4)), .server (.caster (.wrote 517)), .server (.caster .proceed)]

/-- A sample that is committed after the answer is broadcast to the client. -/
theorem sent_live_or_left_history :
    ∃ g, Run (gatewayStep plainConfig) anyStep Gateway.init (answered ++ storeAndCast) g ∧
      g.answers.map Answer.client = [0] ∧ g.writer.conn.table.length = 1 ∧ g.casting.isSome = false ∧
      ∀ answer ∈ g.answers, answer.snapshot <+: g.writer.conn.table ∧
        ∀ row ∈ g.writer.conn.table.drop answer.snapshot.length,
          LiveOutcome g answer.client row := by
  have hexec : (exec (gatewayStep plainConfig) anyStep Gateway.init
      (answered ++ storeAndCast)).map (fun g =>
        (g.answers.map Answer.client, g.writer.conn.table.length, g.casting.isSome)) =
      some ([0], 1, false) := by decide +kernel
  obtain ⟨g, hg, hfacts⟩ := Option.map_eq_some_iff.mp hexec
  simp only [Prod.mk.injEq] at hfacts
  obtain ⟨hanswers, htable, hcasting⟩ := hfacts
  have hrun := run_of_exec hg
  exact ⟨g, hrun, hanswers, htable, hcasting, sent_live_or_left rfl hrun⟩

/-- Without a drop percentage a client misses a sample that was committed after
the snapshot of its answer: its connection is open when the sample is handed
over, and in the end the sample is not pending and no broadcast has sent a
message to the client. -/
def MissesLive (cfg : WsConfig) (before after : List GatewayAction) : Prop :=
  cfg.dropPct = 0 ∧ ∃ g g', Run (gatewayStep cfg) anyStep Gateway.init before g ∧
    Run (gatewayStep cfg) anyStep Gateway.init (before ++ after) g' ∧
      ∃ answer ∈ g'.answers, ∃ row ∈ g'.writer.conn.table.drop answer.snapshot.length,
        FdOpen g.server answer.client ∧ ¬ g'.Pending row ∧
          ∀ first msg, ¬ SentWhole g'.server first msg answer.client

/-- No call of the broadcast for the first client has written its whole message. -/
def nothingWhole (s : Server) : Bool :=
  s.calls.zipIdx.all fun (call, r) =>
    decide (call.caller = .thread) || writtenBy r (s.stream 0) != call.unit.encode

/-- Then no broadcast has sent a message to that client as a whole. -/
theorem not_sentWhole_of_nothingWhole (h : nothingWhole s = true) (first : ℕ) (msg : Bytes) :
    ¬ SentWhole s first msg 0 := by
  rintro ⟨r, -, hr, hwhole⟩
  have hmem : (Call.mk .broadcast 0 (.text msg), r) ∈ s.calls.zipIdx :=
    List.mem_zipIdx_iff_getElem?.mpr hr
  have hnot := List.all_eq_true.mp h _ hmem
  simp [hwhole] at hnot

/-- How runs are checked that answer the first client on an empty table and
store one sample, and in which no broadcast sends it a whole message. -/
theorem missesLive_of_exec {before after : List GatewayAction} (hdrop : cfg.dropPct = 0)
    (hbefore : (exec (gatewayStep cfg) anyStep Gateway.init before).map (fun g =>
      decide (g.server.fds (g.server.client 0).desc = some 0)) = some true)
    (hafter : (exec (gatewayStep cfg) anyStep Gateway.init (before ++ after)).map (fun g =>
      (g.answers.map (fun answer => (answer.client, answer.snapshot.length)),
        g.writer.conn.table.length, g.writer.todo.length, g.casting.isSome,
        nothingWhole g.server)) =
      some ([(0, 0)], 1, 0, false, true)) : MissesLive cfg before after := by
  obtain ⟨g, hg, hopen⟩ := Option.map_eq_some_iff.mp hbefore
  obtain ⟨g', hg', hfacts⟩ := Option.map_eq_some_iff.mp hafter
  simp only [Prod.mk.injEq] at hfacts
  obtain ⟨hanswers, htable, htodo, hcasting, hnothing⟩ := hfacts
  obtain ⟨answer, hall, hanswer⟩ := List.map_eq_singleton_iff.mp hanswers
  obtain ⟨hclient, hsnapshot⟩ := Prod.mk.inj hanswer
  obtain ⟨row, hrow⟩ := List.length_eq_one_iff.mp htable
  refine ⟨hdrop, g, g', run_of_exec hg, run_of_exec hg', answer, ?_, row, ?_, ?_, ?_, ?_⟩
  · rw [hall]
    exact List.mem_singleton_self _
  · rw [hsnapshot, hrow]
    exact List.mem_singleton_self _
  · rw [hclient]
    rw [decide_eq_true_iff] at hopen
    exact hopen
  · rintro (hmem | ⟨c, hc, -⟩)
    · rw [List.length_eq_zero_iff.mp htodo] at hmem
      exact absurd hmem List.not_mem_nil
    · rw [hc] at hcasting
      cases hcasting
  · rw [hclient]
    exact not_sentWhole_of_nothingWhole hnothing

/-- A cut window of ten seconds that leaves the clients connected. -/
def dropModeConfig : WsConfig := { plainConfig with cutDurationS := 10, reconnectModeClose := false }

/-- A turn with one sample whose text is not allocated. -/
def noTextRun : BatchRun :=
  { oneSampleRun .done .done with samples := [⟨blankState, .done, false⟩] }

/-- The thread of the first client gives its reply up, receives nothing more
and clears the alive flag. -/
def leaveLoop : List Action :=
  [.client 0 .sendFailed, .client 0 .proceed, .client 0 (.frame none), .client 0 .proceed]

/-- The broadcast comes to the first client and sends four bytes of the header. -/
def beginCast : List GatewayAction :=
  [.publish 0 0, .server (.caster .proceed), .server (.caster (.wrote 4))]

/-- The thread of the first client closes its connection, and a new one is
accepted on the descriptor. -/
def reuseDescriptor : List Action :=
  leaveLoop ++ [.client 0 .proceed, .acceptor .proceed, .acceptor (.accepted 7)]

/-- A client with an open connection misses a sample that is suppressed in the
cut window, one whose text is not allocated, one that is handed over after its
thread has cleared the alive flag, one of which a send to it fails, and one
during the sends of which its thread closes the connection. -/
theorem live_samples_missed :
    MissesLive dropModeConfig (answered ++ [.batch (oneSampleRun .done .done)]) [.publish 0 0] ∧
      MissesLive plainConfig (answered ++ [.batch noTextRun]) [.publish 0 0] ∧
      MissesLive plainConfig
        (answered ++ leaveLoop.map .server ++ [.batch (oneSampleRun .done .done)])
        [.publish 0 0, .server (.caster .proceed), .server (.caster .proceed)] ∧
      MissesLive plainConfig (answered ++ [.batch (oneSampleRun .done .done)])
        (beginCast ++ [.server (.caster .sendFailed), .server (.caster .proceed)]) ∧
      MissesLive plainConfig (answered ++ [.batch (oneSampleRun .done .done)])
        (beginCast ++ reuseDescriptor.map .server ++
          [.server (.caster (.wrote 517)), .server (.caster .proceed)]) :=
  ⟨missesLive_of_exec rfl (by decide +kernel) (by decide +kernel),
    missesLive_of_exec rfl (by decide +kernel) (by decide +kernel),
    missesLive_of_exec rfl (by decide +kernel) (by decide +kernel),
    missesLive_of_exec rfl (by decide +kernel) (by decide +kernel),
    missesLive_of_exec rfl (by decide +kernel) (by decide +kernel)⟩

end TelemetryPlatform.GatewayBridge
