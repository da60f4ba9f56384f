import TelemetryPlatform.UiLog

/-!
# Which gaps are counted as loss

The analysis fills every gap of the live identifiers, wherever it lies. A
difference between two live samples that were both logged before the planned
disconnection, or both after the first live sample that follows its end, adds
nothing to the loss exactly where it is less than one and a half steps.
-/

namespace TelemetryPlatform.OutageInterval

open Binary64 LossAnalysis UiLog

/-- A difference between two consecutive live samples. -/
structure Difference where
  /-- Whether it lies outside of the disconnection and the recovery. -/
  outside : Bool
  /-- The earlier identifier. -/
  prev : ℤ
  /-- The later identifier. -/
  cur : ℤ

/-- The differences of the live samples. One is outside where both samples were
logged before the close, or behind a live sample that follows the open. -/
def differences (closeT openT : ℤ) (recovered : Bool) : List LiveSample → List Difference
  | [] => []
  | [_] => []
  | a :: b :: rest =>
    ⟨recovered || (a.before closeT && b.before closeT), a.seq, b.seq⟩ ::
      differences closeT openT (recovered || a.follows openT) (b :: rest)

/-- All differences of a sorted log. -/
def logDifferences (closeT openT : ℤ) (sorted : List LogRow) : List Difference :=
  differences closeT openT false (liveSamples sorted)

/-- The missing identifiers of some differences. -/
def missingOf (step : ℤ) (ds : List Difference) : Finset ℤ :=
  expandMissingExpectedValues (ds.flatMap fun d => missingRange d.prev d.cur step) step

/-- The four loss metrics of a run. -/
structure LossMetrics where
  /-- Number of missing identifiers. -/
  liveMissingTotal : ℕ
  /-- Missing identifiers that were received by replay. -/
  recoveredByReplay : ℕ
  /-- Missing identifiers that were not. -/
  unrecoveredContext : ℤ
  /-- Share of the recovered ones. -/
  replayRecoveryRatio : Double

/-- The loss metrics that the analysis reports. -/
def reportedLoss (reconnectOnly : Bool) (sorted : List LogRow) : LossMetrics :=
  let m := analyzeOneFile reconnectOnly sorted
  ⟨m.liveMissingTotal, m.recoveredByReplay, m.unrecoveredContext, m.replayRecoveryRatio⟩

/-- The loss metrics of a set of missing identifiers. -/
def lossOf (reconnectOnly : Bool) (missing replay : Finset ℤ) : LossMetrics :=
  let recovered := if reconnectOnly = true then 0 else (missing ∩ replay).card
  ⟨missing.card, recovered, if missing = ∅ then 0 else missing.card - recovered,
    if missing = ∅ then .nan false
    else if reconnectOnly = true then .zero else roundQuotient false recovered missing.card⟩

/-- The differences are those of the successive identifiers. -/
theorem differences_pairs (closeT openT : ℤ) (recovered : Bool) (samples : List LiveSample) :
    (differences closeT openT recovered samples).map (fun d => (d.prev, d.cur)) =
      consecutivePairs (samples.map LiveSample.seq) := by
  induction samples generalizing recovered with
  | nil => rfl
  | cons a rest ih =>
    cases rest with
    | nil => rfl
    | cons b rest => exact congrArg ((a.seq, b.seq) :: ·) (ih _)

/-- A difference of a log is a successive pair of its identifiers. -/
theorem pair_of_mem_differences {closeT openT : ℤ} {sorted : List LogRow} {d : Difference}
    (hd : d ∈ logDifferences closeT openT sorted) :
    (d.prev, d.cur) ∈ consecutivePairs (liveSeqs sorted) := by
  rw [liveSeqs, ← differences_pairs closeT openT false]
  exact List.mem_map_of_mem hd

/-- All differences together give the missing identifiers of the log. -/
theorem missingOf_logDifferences (closeT openT : ℤ) (sorted : List LogRow) :
    missingOf (inferNominalSeqStep (liveSeqs sorted)) (logDifferences closeT openT sorted) =
      missingExpected (liveSeqs sorted) := by
  rw [missingExpected, computeMissingRangesWithStep_eq, missingOf]
  congr 1
  conv_rhs => rw [liveSeqs, ← differences_pairs closeT openT false, List.flatMap_map]
  rfl

/-- The reported loss is that of the missing identifiers of the log. -/
theorem reportedLoss_eq (reconnectOnly : Bool) (sorted : List LogRow) :
    reportedLoss reconnectOnly sorted =
      lossOf reconnectOnly (missingExpected (liveSeqs sorted)) (replaySeqs sorted) := rfl

/-- A difference adds no missing range where it is less than one and a half steps. -/
theorem missingRange_eq_nil_iff {a b step : ℤ} (hstep : 0 < step) (hsmall : b - a < 2 ^ 52) :
    missingRange a b step = [] ↔ 2 * (b - a) < 3 * step := by
  unfold missingRange
  dsimp only
  by_cases hgap : step < b - a
  · rw [if_pos hgap, roundedUnits_eq hstep hgap hsmall]
    have hone := nearestEven_gap_eq_iff hstep (d := b - a) (by omega) 1
    have hzero := nearestEven_gap_eq_iff hstep (d := b - a) (by omega) 0
    simp only [Nat.cast_one, one_mul, Nat.cast_zero, zero_mul] at hone hzero
    split_ifs with hcount
    · simp only [false_iff]
      omega
    · simp only [true_iff]
      omega
  · rw [if_neg hgap]
    simp only [true_iff]
    omega

/-- Every difference outside of the disconnection and the recovery is less than
one and a half steps. -/
def SmallOutside (closeT openT : ℤ) (sorted : List LogRow) : Prop :=
  ∀ d ∈ logDifferences closeT openT sorted, d.outside = true →
    2 * (d.cur - d.prev) < 3 * inferNominalSeqStep (liveSeqs sorted)

instance (closeT openT : ℤ) (sorted : List LogRow) : Decidable (SmallOutside closeT openT sorted) :=
  inferInstanceAs (Decidable (∀ d ∈ _, _))

/-- The missing identifiers of the disconnection and the recovery. -/
def insideMissing (closeT openT : ℤ) (sorted : List LogRow) : Finset ℤ :=
  missingOf (inferNominalSeqStep (liveSeqs sorted))
    ((logDifferences closeT openT sorted).filter fun d => !d.outside)

/-- Differences that add no range can be left out. -/
theorem missingOf_filter {step : ℤ} {ds : List Difference}
    (h : ∀ d ∈ ds, d.outside = true → missingRange d.prev d.cur step = []) :
    missingOf step (ds.filter fun d => !d.outside) = missingOf step ds := by
  have hranges : ((ds.filter fun d => !d.outside).flatMap fun d => missingRange d.prev d.cur step) =
      ds.flatMap fun d => missingRange d.prev d.cur step := by
    induction ds with
    | nil => rfl
    | cons d ds ih =>
      have hrest := ih fun e he => h e (List.mem_cons_of_mem _ he)
      cases houtside : d.outside with
      | true =>
        rw [List.filter_cons_of_neg (by simp [houtside]), List.flatMap_cons,
          h d List.mem_cons_self houtside, List.nil_append, hrest]
      | false =>
        rw [List.filter_cons_of_pos (by simp [houtside]), List.flatMap_cons, List.flatMap_cons, hrest]
  rw [missingOf, hranges, missingOf]

/-- In an increasing log the loss inside is the whole loss only where no
difference outside adds to it. -/
theorem small_of_card_eq {closeT openT : ℤ} {sorted : List LogRow}
    (hsmall : ∀ p ∈ consecutivePairs (liveSeqs sorted), p.2 - p.1 < 2 ^ 52)
    (hincreasing : (liveSeqs sorted).Pairwise (· < ·))
    (hcard : (missingExpected (liveSeqs sorted)).card = (insideMissing closeT openT sorted).card) :
    SmallOutside closeT openT sorted := by
  have hstep := inferNominalSeqStep_pos (liveSeqs sorted)
  have hsub : insideMissing closeT openT sorted ⊆ missingExpected (liveSeqs sorted) := by
    rw [← missingOf_logDifferences closeT openT sorted, insideMissing, missingOf, missingOf]
    intro x hx
    simp only [expandMissingExpectedValues, List.mem_toFinset, List.mem_flatMap,
      List.mem_filter] at hx ⊢
    obtain ⟨r, ⟨d, ⟨hd, -⟩, hr⟩, hx⟩ := hx
    exact ⟨r, ⟨d, hd, hr⟩, hx⟩
  have hsame := Finset.eq_of_subset_of_card_le hsub hcard.le
  intro d hd houtside
  have hpair := pair_of_mem_differences hd
  have hlt := (consecutive_gap hincreasing hpair).1
  rw [← missingRange_eq_nil_iff hstep (hsmall _ hpair)]
  by_contra hne
  -- the first point of the gap is missing, so another difference would have to add it
  obtain ⟨r, hr⟩ := List.exists_mem_of_ne_nil _ hne
  have hpoint : ∃ i : ℕ, i < missingCount (inferNominalSeqStep (liveSeqs sorted)) d.prev d.cur := by
    have hfirst : r.1 ∈ expandRange (inferNominalSeqStep (liveSeqs sorted)) r.1 r.2.1 := by
      refine (mem_expandRange hstep).mpr ⟨0, by simp, ?_⟩
      unfold missingRange at hr
      dsimp only at hr
      split_ifs at hr with hgap hcount
      · rw [List.mem_singleton.mp hr]
        nlinarith
      · exact absurd hr List.not_mem_nil
      · exact absurd hr List.not_mem_nil
    obtain ⟨i, hi, -⟩ := (mem_expand_missingRange hstep (hsmall _ hpair)).mp ⟨r, hr, hfirst⟩
    exact ⟨i, hi⟩
  obtain ⟨i, hi⟩ := hpoint
  have hmissing := (mem_missingExpected hsmall).mpr ⟨(d.prev, d.cur), hpair, i, hi, rfl⟩
  have hinside := grid_between hstep hlt hi
  rw [← hsame, insideMissing, missingOf, expandMissingExpectedValues, List.mem_toFinset] at hmissing
  obtain ⟨q, hq, hx⟩ := List.mem_flatMap.mp hmissing
  obtain ⟨e, he, hqe⟩ := List.mem_flatMap.mp hq
  obtain ⟨hein, hkept⟩ := List.mem_filter.mp he
  have hpair' := pair_of_mem_differences hein
  obtain ⟨j, hj, heq⟩ := (mem_expand_missingRange hstep (hsmall _ hpair')).mp ⟨q, hqe, hx⟩
  have hinside' := grid_between hstep (consecutive_gap hincreasing hpair').1 hj
  dsimp only at hinside'
  rw [← heq] at hinside'
  have hunique := consecutive_unique hincreasing hpair hpair' hinside hinside'
  have hnodup : ((logDifferences closeT openT sorted).map fun d => (d.prev, d.cur)).Nodup := by
    rw [logDifferences, differences_pairs]
    exact consecutivePairs_nodup hincreasing
  have hde : d = e := List.inj_on_of_nodup_map hnodup hd hein hunique
  rw [← hde, houtside] at hkept
  cases hkept

/-- For every log with a planned disconnection: the differences outside of it
and of the recovery add nothing to the loss exactly where each of them is less
than one and a half steps. Then all loss metrics are those of the disconnection
and the recovery, and in an increasing log they are so only then. -/
theorem outage_only_iff (log : ExportedLog) {sorted temp : List LogRow}
    (hsorted : SortedByWall log.rows sorted) (htemp : SortedByWall sorted temp)
    {outageS closeT openT : ℤ}
    (hplanned : plannedDisconnectPair outageS temp = .ok (some (closeT, openT)))
    (reconnectOnly : Bool) :
    IsDisconnection log.rows closeT openT ∧
      ((∀ d ∈ logDifferences closeT openT sorted, d.outside = true →
          missingRange d.prev d.cur (inferNominalSeqStep (liveSeqs sorted)) = []) ↔
        SmallOutside closeT openT sorted) ∧
      (SmallOutside closeT openT sorted → reportedLoss reconnectOnly sorted =
        lossOf reconnectOnly (insideMissing closeT openT sorted) (replaySeqs sorted)) ∧
      ((liveSeqs sorted).Pairwise (· < ·) →
        (reportedLoss reconnectOnly sorted).liveMissingTotal =
          (insideMissing closeT openT sorted).card → SmallOutside closeT openT sorted) := by
  have hsmall := log.gap_small hsorted
  have hiff : (∀ d ∈ logDifferences closeT openT sorted, d.outside = true →
      missingRange d.prev d.cur (inferNominalSeqStep (liveSeqs sorted)) = []) ↔
        SmallOutside closeT openT sorted := by
    refine forall_congr' fun d => forall_congr' fun hd => imp_congr_right fun _ => ?_
    exact missingRange_eq_nil_iff (inferNominalSeqStep_pos _) (hsmall _ (pair_of_mem_differences hd))
  refine ⟨?_, hiff, fun hcond => ?_, fun hincreasing hcard => ?_⟩
  · exact (plannedDisconnectPair_logged hplanned).of_perm (htemp.perm.trans hsorted.perm)
  · rw [reportedLoss_eq, insideMissing, missingOf_filter (hiff.mpr hcond), missingOf_logDifferences]
  · exact small_of_card_eq hsmall hincreasing hcard

/-- A live sample of the log. -/
def liveRow (wallMs seq : ℤ) : LogRow := ⟨some wallMs, .telemetry, .live, some seq⟩

/-- Samples before an outage of three seconds, the outage, and samples behind it. -/
def outageRows (beforeSeqs afterSeqs : List ℤ) : List LogRow :=
  beforeSeqs.map (liveRow 0) ++ [⟨some 100, .wsClose, .other, none⟩, ⟨some 3100, .wsOpen, .other, none⟩] ++
    afterSeqs.map (liveRow 3200)

/-- The log of an outage in which the samples 4 and 5 are lost. -/
def lossyLog : ExportedLog := ⟨outageRows [1, 2, 3] [6, 7, 8], by decide⟩

/-- The log of an outage in which no sample is lost; sample 4 was lost before it. -/
def jumpLog : ExportedLog := ⟨outageRows [1, 2, 3, 5, 6] [7, 8], by decide⟩

/-- Samples lost inside of the outage only. -/
theorem outage_only_iff_lossyLog :
    reportedLoss false lossyLog.rows =
      lossOf false (insideMissing 100 3100 lossyLog.rows) (replaySeqs lossyLog.rows) := by
  have hsorted : SortedByWall lossyLog.rows lossyLog.rows := ⟨.refl _, by decide⟩
  have hplanned : plannedDisconnectPair 3 lossyLog.rows = .ok (some (100, 3100)) := by
    simp [plannedDisconnectPair, plannedCandidates, lossyLog, outageRows, liveRow, Except.map]
  exact (outage_only_iff lossyLog hsorted hsorted hplanned false).2.2.1 (by decide +kernel)

/-- A sample that was lost before the outage is counted, and none was lost in it. -/
theorem loss_before_outage_counted :
    SortedByWall jumpLog.rows jumpLog.rows ∧
      plannedDisconnectPair 3 jumpLog.rows = .ok (some (100, 3100)) ∧
      (∃ d ∈ logDifferences 100 3100 jumpLog.rows, d.outside = true ∧
        missingRange d.prev d.cur (inferNominalSeqStep (liveSeqs jumpLog.rows)) = [(4, 4, 1)]) ∧
      (reportedLoss false jumpLog.rows).liveMissingTotal = 1 ∧
      (reportedLoss false jumpLog.rows).unrecoveredContext = 1 ∧
      insideMissing 100 3100 jumpLog.rows = ∅ := by
  refine ⟨⟨.refl _, by decide⟩, ?_, ⟨⟨true, 3, 5⟩, ?_, rfl, ?_⟩, ?_, ?_, ?_⟩
  · simp [plannedDisconnectPair, plannedCandidates, jumpLog, outageRows, liveRow, Except.map]
  · simp [logDifferences, liveSamples, jumpLog, outageRows, liveRow, LogRow.isSample, differences]
    decide
  · decide +kernel
  · decide +kernel
  · decide +kernel
  · decide +kernel

end TelemetryPlatform.OutageInterval
