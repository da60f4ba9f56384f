import Mathlib.Data.List.Sort
import TelemetryPlatform.LossAnalysis

/-!
# The log of the interface and its analysis

A log row carries its wall time in milliseconds, its event, its source and its
sequence identifier; cells that hold no number count as missing. The rows are
sorted by wall time with missing times last, where rows of equal time may end up
in any order. The planned disconnection is the pair of a close and the next open
whose duration is closest to the planned outage.
-/

namespace TelemetryPlatform.UiLog

open LossAnalysis

/-- The events that the analysis tells apart. -/
inductive LogEvent where
  /-- A sample. -/
  | telemetry
  /-- The socket was closed. -/
  | wsClose
  /-- The socket was opened. -/
  | wsOpen
  /-- Any other event. -/
  | other
  deriving DecidableEq

/-- The sources of samples. -/
inductive LogSource where
  /-- The live stream. -/
  | live
  /-- A history reply. -/
  | replay
  /-- Any other source. -/
  | other
  deriving DecidableEq

/-- A row of the log. -/
structure LogRow where
  /-- Wall time in milliseconds. -/
  wallMs : Option ℤ
  /-- What happened. -/
  event : LogEvent
  /-- Where it comes from. -/
  source : LogSource
  /-- Sequence identifier of a sample. -/
  seq : Option ℤ

/-- Whether a row is a sample of the given source. -/
def LogRow.isSample (source : LogSource) (r : LogRow) : Bool :=
  decide (r.event = .telemetry) && decide (r.source = source)

/-- The rows that the interface has logged. Live samples carry the unsigned
32-bit identifiers that the gateway sends. -/
structure ExportedLog where
  /-- The rows in the order of logging. -/
  rows : List LogRow
  /-- Live identifiers are in range. -/
  live_range : ∀ r ∈ rows, r.isSample .live = true → ∀ x, r.seq = some x → 0 ≤ x ∧ x < 2 ^ 32

/-- The order of sort_values: by wall time, missing times last. -/
def WallLe (a b : LogRow) : Prop :=
  match a.wallMs, b.wallMs with
  | some x, some y => x ≤ y
  | none, some _ => False
  | _, none => True

instance (a b : LogRow) : Decidable (WallLe a b) :=
  match ha : a.wallMs, hb : b.wallMs with
  | some x, some y => decidable_of_iff (x ≤ y) (by rw [WallLe, ha, hb])
  | none, some _ => .isFalse (by rw [WallLe, ha, hb]; exact id)
  | _, none => .isTrue (by rw [WallLe, hb]; split <;> trivial)

/-- What sort_values may return for these rows. -/
structure SortedByWall (rows sorted : List LogRow) : Prop where
  /-- The same rows. -/
  perm : sorted.Perm rows
  /-- In the order of wall time. -/
  ordered : sorted.Pairwise WallLe

/-- A live sample with its wall time. -/
structure LiveSample where
  /-- Wall time in milliseconds. -/
  wallMs : Option ℤ
  /-- Sequence identifier. -/
  seq : ℤ

/-- Whether a live sample was logged before a time. -/
def LiveSample.before (x : LiveSample) (time : ℤ) : Bool := x.wallMs.any fun wall => decide (wall < time)

/-- Whether a live sample was logged at a time or later. -/
def LiveSample.follows (x : LiveSample) (time : ℤ) : Bool := x.wallMs.any fun wall => decide (time ≤ wall)

/-- The live samples with an identifier, in the order of the rows. -/
def liveSamples (rows : List LogRow) : List LiveSample :=
  (rows.filter (LogRow.isSample .live)).filterMap fun r => r.seq.map fun x => ⟨r.wallMs, x⟩

/-- The identifiers received live. -/
def liveSeqs (rows : List LogRow) : List ℤ := (liveSamples rows).map LiveSample.seq

/-- The identifiers received by replay. -/
def replaySeqs (rows : List LogRow) : Finset ℤ :=
  ((rows.filter (LogRow.isSample .replay)).filterMap LogRow.seq).toFinset

/-- The sequence metrics of a run, for its sorted rows. -/
def analyzeOneFile (reconnectOnly : Bool) (sorted : List LogRow) : SeqMetrics :=
  analyzeSeqs reconnectOnly (liveSeqs sorted) (replaySeqs sorted)

/-- What the analysis may raise. -/
inductive AnalysisError where
  /-- An index out of range. -/
  | indexError

/-- The closes of the sorted rows with their next opens: the distance from the
planned duration, the time of the close and the time of the open. -/
def plannedCandidates (targetMs : ℤ) : List LogRow → Except AnalysisError (List (ℤ × ℤ × ℤ))
  | [] => .ok []
  | row :: after =>
    if row.event ≠ .wsClose then plannedCandidates targetMs after
    else
      match row.wallMs with
      | none => plannedCandidates targetMs after
      | some closeT =>
        let openRows := after.filter fun r => r.event = .wsOpen
        if openRows.isEmpty = true then plannedCandidates targetMs after
        else
          match openRows.filterMap LogRow.wallMs with
          | [] => .error .indexError
          | openT :: _ =>
            let duration := openT - closeT
            if duration ≤ 0 then plannedCandidates targetMs after
            else
              (plannedCandidates targetMs after).map fun rest =>
                (|duration - targetMs|, closeT, openT) :: rest

/-- The pair whose duration is closest to the planned outage, the first of them
where several are equally close. -/
def plannedDisconnectPair (outageS : ℤ) (temp : List LogRow) :
    Except AnalysisError (Option (ℤ × ℤ)) :=
  (plannedCandidates (outageS * 1000) temp).map fun candidates =>
    match candidates.mergeSort fun a b => decide (a.1 ≤ b.1) with
    | [] => none
    | (_, closeT, openT) :: _ => some (closeT, openT)

/-- A close and a later open of the log. -/
def IsDisconnection (rows : List LogRow) (closeT openT : ℤ) : Prop :=
  closeT < openT ∧ (∃ r ∈ rows, r.event = .wsClose ∧ r.wallMs = some closeT) ∧
    ∃ r ∈ rows, r.event = .wsOpen ∧ r.wallMs = some openT

/-- More rows before those of a disconnection. -/
theorem IsDisconnection.cons {rows : List LogRow} {closeT openT : ℤ} (row : LogRow)
    (h : IsDisconnection rows closeT openT) : IsDisconnection (row :: rows) closeT openT := by
  obtain ⟨hlt, ⟨r, hr, hclose⟩, q, hq, hopen⟩ := h
  exact ⟨hlt, ⟨r, List.mem_cons_of_mem _ hr, hclose⟩, q, List.mem_cons_of_mem _ hq, hopen⟩

/-- The order of the rows does not matter. -/
theorem IsDisconnection.of_perm {rows rows' : List LogRow} {closeT openT : ℤ}
    (h : IsDisconnection rows closeT openT) (hperm : rows.Perm rows') :
    IsDisconnection rows' closeT openT := by
  obtain ⟨hlt, ⟨r, hr, hclose⟩, q, hq, hopen⟩ := h
  exact ⟨hlt, ⟨r, hperm.mem_iff.mp hr, hclose⟩, q, hperm.mem_iff.mp hq, hopen⟩

/-- Every candidate is a close and a later open. -/
theorem plannedCandidates_logged {targetMs : ℤ} {rows : List LogRow}
    {candidates : List (ℤ × ℤ × ℤ)} (h : plannedCandidates targetMs rows = .ok candidates) :
    ∀ c ∈ candidates, IsDisconnection rows c.2.1 c.2.2 := by
  induction rows generalizing candidates with
  | nil =>
    cases h
    exact fun c hc => absurd hc List.not_mem_nil
  | cons row after ih =>
    have hskip : ∀ {rest}, plannedCandidates targetMs after = .ok rest →
        ∀ c ∈ rest, IsDisconnection (row :: after) c.2.1 c.2.2 :=
      fun hrest c hc => (ih hrest c hc).cons row
    rw [plannedCandidates] at h
    split_ifs at h with hevent
    · exact hskip h
    · rw [not_not] at hevent
      split at h
      · exact hskip h
      · rename_i closeT hclose
        dsimp only at h
        split_ifs at h
        · exact hskip h
        · split at h
          · cases h
          · rename_i openT others hopen
            split_ifs at h with hduration
            · exact hskip h
            · cases hrest : plannedCandidates targetMs after with
              | error e =>
                rw [hrest] at h
                cases h
              | ok rest =>
                rw [hrest] at h
                cases h
                intro c hc
                rcases List.mem_cons.mp hc with rfl | hc
                · have hfirst : openT ∈ (after.filter fun r => r.event = .wsOpen).filterMap
                      LogRow.wallMs := by
                    rw [hopen]
                    exact List.mem_cons_self
                  obtain ⟨q, hq, hwall⟩ := List.mem_filterMap.mp hfirst
                  obtain ⟨hmem, hwsOpen⟩ := List.mem_filter.mp hq
                  exact ⟨by dsimp only; omega, ⟨row, List.mem_cons_self, hevent, hclose⟩, q,
                    List.mem_cons_of_mem _ hmem, of_decide_eq_true hwsOpen, hwall⟩
                · exact hskip hrest c hc

/-- The planned disconnection is a close and a later open of the sorted rows. -/
theorem plannedDisconnectPair_logged {outageS : ℤ} {temp : List LogRow} {closeT openT : ℤ}
    (h : plannedDisconnectPair outageS temp = .ok (some (closeT, openT))) :
    IsDisconnection temp closeT openT := by
  unfold plannedDisconnectPair at h
  cases hcandidates : plannedCandidates (outageS * 1000) temp with
  | error e =>
    rw [hcandidates] at h
    cases h
  | ok candidates =>
    rw [hcandidates] at h
    have hpair := Except.ok.inj h
    dsimp only at hpair
    split at hpair
    · cases hpair
    · rename_i d c o rest hsorted
      cases hpair
      have hmem : (d, closeT, openT) ∈ candidates := by
        have hin : (d, closeT, openT) ∈ candidates.mergeSort fun a b => decide (a.1 ≤ b.1) := by
          rw [hsorted]
          exact List.mem_cons_self
        exact (List.mergeSort_perm _ _).mem_iff.mp hin
      exact plannedCandidates_logged hcandidates _ hmem

/-- The live samples of the sorted rows are those of the log in another order. -/
theorem SortedByWall.liveSeqs_perm {rows sorted : List LogRow} (h : SortedByWall rows sorted) :
    (liveSeqs sorted).Perm (liveSeqs rows) :=
  (((h.perm.filter _).filterMap _).map _)

/-- The successive pairs of an increasing list are different. -/
theorem consecutivePairs_nodup {live : List ℤ} (hlive : live.Pairwise (· < ·)) :
    (consecutivePairs live).Nodup := by
  refine List.Nodup.of_map Prod.snd ?_
  rw [consecutivePairs, List.map_snd_zip (by simp)]
  exact (hlive.imp ne_of_lt).sublist (List.tail_sublist _)

/-- Live identifiers are in range. -/
theorem ExportedLog.liveSeqs_range (log : ExportedLog) {sorted : List LogRow}
    (hsorted : SortedByWall log.rows sorted) : ∀ x ∈ liveSeqs sorted, 0 ≤ x ∧ x < 2 ^ 32 := by
  intro x hx
  have hlog : x ∈ liveSeqs log.rows := hsorted.liveSeqs_perm.mem_iff.mp hx
  obtain ⟨sample, hsample, rfl⟩ := List.mem_map.mp hlog
  obtain ⟨r, hr, hseq⟩ := List.mem_filterMap.mp hsample
  obtain ⟨hmem, hlive⟩ := List.mem_filter.mp hr
  obtain ⟨y, hy, rfl⟩ := Option.map_eq_some_iff.mp hseq
  exact log.live_range r hmem hlive y hy

/-- Successive live identifiers are less than 2 ^ 52 apart. -/
theorem ExportedLog.gap_small (log : ExportedLog) {sorted : List LogRow}
    (hsorted : SortedByWall log.rows sorted) :
    ∀ p ∈ consecutivePairs (liveSeqs sorted), p.2 - p.1 < 2 ^ 52 := by
  intro p hp
  obtain ⟨hp1, hp2⟩ := mem_of_consecutive hp
  have hlow := log.liveSeqs_range hsorted p.1 hp1
  have hhigh := log.liveSeqs_range hsorted p.2 hp2
  omega

end TelemetryPlatform.UiLog
