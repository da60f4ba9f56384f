import TelemetryPlatform.AutoReconnect
import TelemetryPlatform.ClientDialogue
import TelemetryPlatform.FormattedJson
import TelemetryPlatform.HistoryRequests
import TelemetryPlatform.RequestBoundary

/-!
# The requests of the interface as the server reads them

The interface asks for samples by a JSON text with the number that it logs; the
server searches the text for words and a number. For the texts that the
interface writes the two agree, through the frames and their masks: the server
queries for exactly the numbers that were sent, in their order, and the log of
the interface shows the requests since it was last emptied.
-/

namespace TelemetryPlatform.UiRequests

open AutoReconnect ClientDialogue CStrings FormattedJson FormattedText GuardedRuns HistoryReply
open HistoryRequests ReceivedSegments RequestBoundary UiChanges UiSession WsFrames WsReceive

/-- The text of a request before its number. -/
def requestHead : Bytes := lit "\x7b\"type\":\"history\",\"last\":"

/-- The text that the interface sends for a number of samples. -/
def requestText (n : ℕ) : Bytes := requestHead ++ (decimal n ++ lit "\x7d")

/-- The numbers sent on a socket. -/
def sentOn (u : Ui) (i : ℕ) : List ℕ := (u.sent.filter fun r => decide (r.1 = i)).map Prod.snd

/-- One more digit behind some digits. -/
theorem decimalFrom_snoc (v : ℕ) (digits : Bytes) (d : UInt8) :
    decimalFrom v (digits ++ [d]) = decimalFrom v digits * 10 + (d.toNat - 48) := by
  rw [decimalFrom, List.foldl_append]
  rfl

/-- The last digit of a number has its value. -/
theorem toNat_digitAt_one (n : ℕ) : (digitAt n 1).toNat - 48 = n % 10 := by
  have hall : ∀ d < 10, (UInt8.ofNat (48 + d)).toNat - 48 = d := by decide
  rw [digitAt, Nat.div_one]
  exact hall _ (Nat.mod_lt n (by decide))

/-- The digits of a number have its value. -/
theorem decimalFrom_decimal (n : ℕ) : decimalFrom 0 (decimal n) = n := by
  induction n using Nat.strong_induction_on with
  | h n ih =>
    by_cases hsmall : n < 10
    · have hdigit := toNat_digitAt_one n
      rw [decimal_of_lt hsmall, ← List.nil_append [digitAt n 1], decimalFrom_snoc, hdigit]
      exact (Nat.zero_add _).trans (Nat.mod_eq_of_lt hsmall)
    · have hlarge := Nat.le_of_not_lt hsmall
      rw [decimal_of_le hlarge, decimalFrom_snoc, ih (n / 10) (by omega), toNat_digitAt_one]
      omega

/-- A request is text without a terminator. -/
theorem zero_notMem_requestText (n : ℕ) : 0 ∉ requestText n := by
  have hhead : 0 ∉ requestHead := by decide
  have hbrace : (0 : UInt8) ∉ lit "\x7d" := by decide
  simp only [requestText, List.mem_append, not_or]
  exact ⟨hhead, zero_notMem_decimal n, hbrace⟩

/-- The server reads the whole text. -/
theorem payloadText_requestText (n : ℕ) : (payloadText (requestText n)).bytes = requestText n :=
  congrArg CString.bytes (CString.ofMemory_terminated ⟨requestText n, zero_notMem_requestText n⟩ [])

/-- The server recognises a request. -/
theorem isHistoryRequest_requestText (n : ℕ) :
    isHistoryRequest (payloadText (requestText n)) = true := by
  have htype : strstr (lit "\"type\"") requestHead = some (requestHead.drop 1) := by decide
  refine (isHistoryRequest_iff _).mpr ⟨requestHead.drop 1 ++ (decimal n ++ lit "\x7d"), ?_, ?_⟩
  · rw [payloadText_requestText, requestText, strstr_append htype, Option.some_or]
  · have hword : lit "history" <:+: requestHead.drop 1 := by decide
    exact hword.trans (List.prefix_append _ _).isInfix

/-- The server reads the number of a request up to its limit. -/
theorem clampLimit_requestText (n : ℕ) :
    clampLimit (jsonFindInt (payloadText (requestText n)) (lit "\"last\"") 300) = limitOf n := by
  have hlast : strstr (lit "\"last\"") requestHead = some (lit "\"last\"" ++ lit ":") := by decide
  have hfound : strstr (lit "\"last\"") (payloadText (requestText n)).bytes =
      some (lit "\"last\"" ++ (lit ":" ++ (decimal n ++ lit "\x7d"))) := by
    rw [payloadText_requestText, requestText, strstr_append hlast, List.append_assoc]
  obtain ⟨d, rest, hcons, -⟩ := decimal_eq_cons n
  have hdigits : ∀ b ∈ decimal n, isDigit b = true := fun b hb => by
    have hrange := mem_decimal hb
    unfold isDigit
    rw [Bool.and_eq_true, decide_eq_true_eq, decide_eq_true_eq]
    exact hrange
  have hliteral : IntLiteral (decimal n) n := by
    have hvalue := IntLiteral.nonneg (hcons ▸ List.cons_ne_nil d rest) hdigits
    rwa [decimalFrom_decimal] at hvalue
  rw [clampLimit_eq]
  refine limitOf_jsonFindInt hfound ⟨[], [], decimal n, lit "\x7d", rfl, List.not_mem_nil,
    fun b hb => absurd hb List.not_mem_nil, hliteral, fun b hb => ?_⟩
  cases hb
  decide

/-- A text that the interface sent is answered by a query for its number. -/
theorem limits_requestText (n : ℕ) :
    (limits true [(1, requestText n)]).map clampLimit = [limitOf n] := by
  have hquery : reaction true (1, requestText n) =
      .query (jsonFindInt (payloadText (requestText n)) (lit "\"last\"") 300) := by
    have hclose : ¬ (1 : UInt8) = 0x8 := by decide
    have hping : ¬ (1 : UInt8) = 0x9 := by decide
    unfold reaction
    dsimp only
    rw [if_neg hclose, if_neg hping, if_pos ⟨rfl, isHistoryRequest_requestText n⟩]
    rfl
  simp only [limits, List.filterMap_cons, hquery, List.filterMap_nil, List.map_cons, List.map_nil,
    clampLimit_requestText]

/-- The server queries for the numbers of all requests in their order. -/
theorem limits_requestTexts {counts : List ℕ} (hcounts : ∀ n ∈ counts, 1 ≤ n ∧ n ≤ 5000) :
    (limits true (counts.map fun n => (1, requestText n))).map clampLimit = counts := by
  induction counts with
  | nil => rfl
  | cons n counts ih =>
    obtain ⟨⟨hlow, hhigh⟩, hrest⟩ := List.forall_mem_cons.mp hcounts
    have hlimit : limitOf n = n := by
      unfold limitOf
      split_ifs <;> omega
    have hsplit : limits true ((n :: counts).map fun n => (1, requestText n)) =
        limits true [(1, requestText n)] ++ limits true (counts.map fun n => (1, requestText n)) :=
      List.filterMap_append (l := [_])
    rw [hsplit, List.map_append, limits_requestText, ih hrest, hlimit]
    rfl

/-- What is logged and what is sent. -/
structure Logged (u : Ui) : Prop where
  /-- The log shows the last requests with their numbers. -/
  logged : (requestRows u).map UiRow.last <:+ u.sent.map fun r => some (r.2 : ℚ)
  /-- Every request is for some samples, and not for too many. -/
  bounded : ∀ r ∈ u.sent, 1 ≤ r.2 ∧ r.2 ≤ 5000

variable {u v : Ui}

/-- A request is logged and sent together. -/
theorem Logged.request (h : Logged u) {i n : ℕ} (hlow : 1 ≤ n) (hhigh : n ≤ 5000) :
    Logged { logUiEvent u { UiRow.plain .historyRequest with last := some (n : ℚ) } with
      sent := u.sent ++ [(i, n)] } := by
  refine ⟨?_, fun r hr => ?_⟩
  · obtain ⟨front, hfront⟩ := h.logged
    refine ⟨front, ?_⟩
    simp only [requestRows, logUiEvent, List.filter_append, List.map_append]
    rw [← hfront, List.append_assoc]
    rfl
  · rcases List.mem_append.mp hr with hold | hnew
    · exact h.bounded r hold
    · rw [List.mem_singleton.mp hnew]
      exact ⟨hlow, hhigh⟩

/-- What only shows or logs something makes no request. -/
theorem Logged.of_shows (h : Logged u) (hshows : Shows u v) : Logged v := by
  obtain ⟨_, log, _, _, _, rfl, hlog⟩ := hshows
  refine ⟨?_, h.bounded⟩
  rw [requestRows, List.filter_append, hlog, List.append_nil]
  exact h.logged

/-- Every change of the interface keeps what is logged and what is sent together. -/
theorem Logged.change {k : Kind} (h : Logged u) (hc : Change u k v) : Logged v := by
  cases hc with
  | note row hrow => exact h.of_shows (shows_note hrow)
  | live s => exact h.of_shows (shows_live u s)
  | replay s => exact h.of_shows (shows_replay u s)
  | request hlow hhigh => exact h.request hlow hhigh
  | reset latest reconnectCount pendingRecovery => exact ⟨List.nil_suffix, h.bounded⟩
  | _ => exact ⟨h.logged, h.bounded⟩

/-- In every run of the interface, whatever is clicked, typed and received: the
log shows in order the numbers of the last requests that were sent, all of
them since it was emptied, and every number is between 1 and 5000. And however
the requests of a socket are masked and cut on their way, the server receives
them, takes each for a history request, and queries for exactly the numbers
that were sent, in their order. -/
theorem requests_understood {actions : List UiAction} (hrun : Run uiStep anyStep Ui.init actions u) :
    ((requestRows u).map UiRow.last <:+ u.sent.map fun r => some (r.2 : ℚ)) ∧
      (∀ r ∈ u.sent, 1 ≤ r.2 ∧ r.2 ≤ 5000) ∧
      ∀ (i : ℕ) (frames : List PeerFrame) (segs : Segments UInt8) (tail : Bytes),
        frames.map PeerFrame.content = (sentOn u i).map (fun n => (1, requestText n)) →
        segs.flatten = frames.flatMap PeerFrame.encode ++ tail →
        ∃ received left, wsRecvFrames frames.length segs = (received.map some, left) ∧
          (limits true received).map clampLimit = sentOn u i := by
  have hstart : Logged Ui.init := ⟨List.nil_suffix, fun r hr => absurd hr List.not_mem_nil⟩
  have hlogged : Logged u :=
    hrun.invariant hstart fun s a t _ hstep hs =>
      (changes_of_step hstep).keeps hs fun k _ s t hc hs => hs.change hc
  refine ⟨hlogged.logged, hlogged.bounded, fun i frames segs tail hframes hstream => ?_⟩
  obtain ⟨left, hreceived, -⟩ := wsRecvFrames_encode frames hstream
  refine ⟨frames.map PeerFrame.content, left, ?_, ?_⟩
  · rw [hreceived, List.map_map]
    rfl
  · rw [hframes]
    refine limits_requestTexts fun n hn => ?_
    obtain ⟨r, hr, rfl⟩ := List.mem_map.mp hn
    exact hlogged.bounded r (List.mem_of_mem_filter hr)

/-- The user connects and asks for samples by hand. -/
def askOnce : List UiAction := [.clickConnect true, .socketOpen 0, .clickHistory]

/-- The request for 300 samples in a masked frame. -/
def maskedRequest : PeerFrame :=
  { textFrame (requestText 300) (by decide +kernel) with
    maskKey := maskedPing.maskKey
    maskKey_length := maskedPing.maskKey_length }

/-- A click on the history button. -/
theorem requests_understood_askOnce :
    ∃ u, Run uiStep anyStep Ui.init askOnce u ∧ u.sent = [(0, 300)] ∧
      ((requestRows u).map UiRow.last <:+ [some 300]) ∧
      ∃ received left, wsRecvFrames 1 [maskedRequest.encode] = (received.map some, left) ∧
        (limits true received).map clampLimit = [300] := by
  have hexec : (exec uiStep anyStep Ui.init askOnce).map Ui.sent = some [(0, 300)] := by
    decide +kernel
  obtain ⟨u, hu, hsent⟩ := Option.map_eq_some_iff.mp hexec
  have hrun := run_of_exec hu
  obtain ⟨hlogged, -, hreceived⟩ := requests_understood hrun
  have hsentOn : sentOn u 0 = [300] := by rw [sentOn, hsent]; rfl
  rw [hsent] at hlogged
  obtain ⟨received, left, hframes, hlimits⟩ := hreceived 0 [maskedRequest] [maskedRequest.encode] []
    (by rw [hsentOn]; rfl) (by simp)
  rw [hsentOn] at hlimits
  exact ⟨u, hrun, hsent, by simpa using hlogged, received, left, hframes, hlimits⟩

end TelemetryPlatform.UiRequests
