import TelemetryPlatform.LossAnalysis
import TelemetryPlatform.UiChanges

/-!
# The gap column of the log and the analysis

The interface logs with each live sample its distance from the live sample
before. The analysis computes distances of its own, from the identifiers in the
log. Whatever happens to the interface, the positive distances are the same, so
the nominal step and the missing samples of the analysis can be read off the gap
column.
-/

namespace TelemetryPlatform.GapColumn

open GuardedRuns LossAnalysis UiChanges UiSession

/-- The rows of the live samples. -/
def liveRows (log : List UiRow) : List UiRow := log.filter fun row => decide (row.event = .telemetryLive)

/-- The live identifiers in the log. -/
def liveIds (log : List UiRow) : List ℤ := (liveRows log).filterMap UiRow.seq

/-- The positive entries of the gap column. -/
def gapsShown (log : List UiRow) : List ℤ :=
  ((liveRows log).filterMap UiRow.gapFromPrev).filter fun d => decide (0 < d)

/-- The positive distances of successive identifiers. -/
def idDistances : List ℤ → List ℤ
  | [] => []
  | prev :: rest => positiveDiffs prev rest

/-- The most common of distances, the first of them where several are equally common. -/
def mostCommon (diffs : List ℤ) : ℤ := (diffs.argmax fun d => diffs.count d).getD 1

/-- One more identifier. -/
theorem positiveDiffs_snoc (prev : ℤ) (ids : List ℤ) (x : ℤ) :
    positiveDiffs prev (ids ++ [x]) = positiveDiffs prev ids ++
      [x - (prev :: ids).getLastD 0].filter fun d => decide (0 < d) := by
  induction ids generalizing prev with
  | nil =>
    have hlast : [prev].getLastD 0 = prev := rfl
    rw [List.nil_append, positiveDiffs, positiveDiffs, positiveDiffs, hlast]
    split_ifs with hd
    · rw [List.filter_cons_of_pos (by simpa using hd)]
      rfl
    · rw [List.filter_cons_of_neg (by simpa using hd)]
      rfl
  | cons y rest ih =>
    have hlast : (prev :: y :: rest).getLastD 0 = (y :: rest).getLastD 0 := rfl
    rw [List.cons_append, positiveDiffs, positiveDiffs, ih, hlast]
    split_ifs
    · rfl
    · rfl

/-- One more identifier, after the last one. -/
theorem idDistances_snoc (ids : List ℤ) (x : ℤ) :
    idDistances (ids ++ [x]) = idDistances ids ++
      [liveGap ids.getLast? (some x)].filter fun d => decide (0 < d) := by
  cases ids with
  | nil => rfl
  | cons prev rest =>
    have hlast : (prev :: rest).getLast? = some ((prev :: rest).getLastD 0) := by
      rw [List.getLast?_eq_some_getLast (List.cons_ne_nil _ _), List.getLastD_eq_getLast?,
        List.getLast?_eq_some_getLast (List.cons_ne_nil _ _)]
      rfl
    rw [List.cons_append, idDistances, positiveDiffs_snoc, idDistances, hlast, liveGap]
    congr 1
    split_ifs with hlt
    · rfl
    · rw [List.filter_cons_of_neg (by simpa using hlt)]
      rfl

/-- The distances are positive. -/
theorem positiveDiffs_pos {prev : ℤ} {ids : List ℤ} {d : ℤ} (hd : d ∈ positiveDiffs prev ids) :
    0 < d := by
  induction ids generalizing prev with
  | nil => exact absurd hd List.not_mem_nil
  | cons y rest ih =>
    rw [positiveDiffs] at hd
    split_ifs at hd with hpos
    · rcases List.mem_cons.1 hd with rfl | hrest
      · exact hpos
      · exact ih hrest
    · exact ih hd

/-- The nominal step is the most common distance. -/
theorem inferNominalSeqStep_eq (ids : List ℤ) :
    inferNominalSeqStep ids = mostCommon (idDistances ids) := by
  cases ids with
  | nil => rfl
  | cons prev rest =>
    cases rest with
    | nil => rfl
    | cons y rest =>
      rw [inferNominalSeqStep, mostCommon, idDistances]
      case cons.cons.x => exact List.cons_ne_nil y rest
      split
      · case _ hnone =>
        rw [hnone]
        rfl
      · case _ step hsome =>
        have hpos : 0 < step := positiveDiffs_pos (List.argmax_mem hsome)
        rw [hsome, if_pos hpos]
        rfl

/-- The gap column and the identifiers of a log belong together. -/
structure Gapped (u : Ui) : Prop where
  /-- The last live identifier is that of the log. -/
  last : u.lastLiveSeq = (liveIds u.uiLog).getLast?
  /-- The gaps are the distances. -/
  gaps : gapsShown u.uiLog = idDistances (liveIds u.uiLog)

variable {u v : Ui}

/-- Logging another event adds no live row. -/
theorem liveRows_snoc_other (log : List UiRow) {row : UiRow} (hother : row.event ≠ .telemetryLive) :
    liveRows (log ++ [row]) = liveRows log := by
  rw [liveRows, List.filter_append, List.filter_cons_of_neg (by simpa using hother),
    List.filter_nil, List.append_nil, liveRows]

/-- A change other than a live sample adds no live row, or begins a new log. -/
theorem liveRows_of_change {k : Kind} (hc : Change u k v) (hk : k ≠ .live) :
    (v.lastLiveSeq = u.lastLiveSeq ∧ liveRows v.uiLog = liveRows u.uiLog) ∨
      (v.lastLiveSeq = none ∧ liveRows v.uiLog = []) := by
  cases hc with
  | note row hrow => exact .inl ⟨rfl, liveRows_snoc_other u.uiLog (ne_of_isNote hrow rfl)⟩
  | live s => exact absurd rfl hk
  | replay s =>
    have hreplay : UiEvent.telemetryReplay ≠ .telemetryLive := by decide
    unfold handleHistoryItem pushSample
    exact .inl ⟨rfl, liveRows_snoc_other u.uiLog hreplay⟩
  | request hlow hhigh =>
    have hrequest : UiEvent.historyRequest ≠ .telemetryLive := by decide
    exact .inl ⟨rfl, liveRows_snoc_other u.uiLog hrequest⟩
  | reset latest reconnectCount pendingRecovery => exact .inr ⟨rfl, rfl⟩
  | _ => exact .inl ⟨rfl, rfl⟩

/-- Only the message with a live sample handles one. -/
theorem live_or_notMem (a : UiAction) :
    (∃ i s, a = .socketMessage i (.telemetry s)) ∨ Kind.live ∉ kindsOf a := by
  cases a with
  | socketMessage i m =>
    cases m with
    | telemetry s => exact .inl ⟨i, s, rfl⟩
    | _ => exact .inr (by change Kind.live ∉ [Kind.replay, .note, .latest, .recovery]; decide)
  | clickConnect creates => exact .inr (by change Kind.live ∉ connectKinds false; decide)
  | timer id creates => exact .inr (by change Kind.live ∉ .recovery :: connectKinds true; decide)
  | _ => exact .inr (by simp [kindsOf])

/-- A live row adds its identifier to the log. -/
theorem liveIds_snoc (log : List UiRow) {row : UiRow} (hlive : row.event = .telemetryLive) :
    liveIds (log ++ [row]) = liveIds log ++ row.seq.toList := by
  rw [liveIds, liveRows, List.filter_append, List.filter_cons_of_pos (by simpa using hlive),
    List.filter_nil, List.filterMap_append, liveIds, liveRows]
  cases hseq : row.seq with
  | none => rw [List.filterMap_cons_none hseq, List.filterMap_nil, Option.toList_none]
  | some x => rw [List.filterMap_cons_some hseq, List.filterMap_nil, Option.toList_some]

/-- A live row adds its gap to the column. -/
theorem gapsShown_snoc (log : List UiRow) {row : UiRow} (hlive : row.event = .telemetryLive) {d : ℤ}
    (hgap : row.gapFromPrev = some d) :
    gapsShown (log ++ [row]) = gapsShown log ++ [d].filter fun d => decide (0 < d) := by
  rw [gapsShown, liveRows, List.filter_append, List.filter_cons_of_pos (by simpa using hlive),
    List.filter_nil, List.filterMap_append, List.filter_append, gapsShown, liveRows,
    List.filterMap_cons_some hgap, List.filterMap_nil]

/-- A live sample is logged with its distance. -/
theorem Gapped.handleTelemetry (h : Gapped u) (s : Sample) : Gapped (handleTelemetry u s) := by
  unfold UiSession.handleTelemetry
  split_ifs
  · exact h
  · refine ⟨Eq.trans ?_ (congrArg List.getLast? (liveIds_snoc _ rfl).symm),
      (gapsShown_snoc _ rfl rfl).trans
        (Eq.trans ?_ (congrArg idDistances (liveIds_snoc _ rfl).symm))⟩
    · change s.seq.or u.lastLiveSeq = (liveIds u.uiLog ++ s.seq.toList).getLast?
      cases s.seq with
      | none =>
        rw [Option.toList_none, List.append_nil, Option.none_or]
        exact h.last
      | some x =>
        rw [Option.toList_some, List.getLast?_append, List.getLast?_singleton]
        rfl
    · change gapsShown u.uiLog ++ [liveGap u.lastLiveSeq s.seq].filter (fun d => decide (0 < d)) =
        idDistances (liveIds u.uiLog ++ s.seq.toList)
      rw [h.gaps, h.last]
      cases s.seq with
      | none =>
        have hgap : liveGap (liveIds u.uiLog).getLast? none = 0 := by
          cases (liveIds u.uiLog).getLast? <;> rfl
        rw [hgap, Option.toList_none, List.append_nil, List.filter_cons_of_neg (by decide),
          List.filter_nil, List.append_nil]
      | some x => rw [Option.toList_some, idDistances_snoc]

/-- One change keeps the gap column. -/
theorem Gapped.change {k : Kind} (h : Gapped u) (hc : Change u k v) : Gapped v := by
  by_cases hk : k = .live
  · subst hk
    cases hc
    exact h.handleTelemetry _
  · rcases liveRows_of_change hc hk with ⟨hlast, hrows⟩ | ⟨hlast, hrows⟩
    · exact ⟨by rw [hlast, liveIds, hrows]; exact h.last,
        by rw [gapsShown, liveIds, hrows]; exact h.gaps⟩
    · exact ⟨by rw [hlast, liveIds, hrows]; rfl, by rw [gapsShown, liveIds, hrows]; rfl⟩

end TelemetryPlatform.GapColumn
