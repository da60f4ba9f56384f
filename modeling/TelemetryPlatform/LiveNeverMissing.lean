import TelemetryPlatform.UiLog

/-!
# Whether a live sample is counted as missing

The sort by wall time may change the order of live rows that were logged in one
millisecond. The missing identifiers stay between neighbouring live ones, and
their number is the sum of the counts of the ranges, wherever no two neighbours
of the sorted list skip a live identifier. Where some do, one that is skipped is
counted as missing if it lies on the grid of the gap, and with the nominal step
one it always does.
-/

namespace TelemetryPlatform.LiveNeverMissing

open LossAnalysis UiLog

/-- What the missing identifiers of a sorted list are for the logged one. -/
structure NeverMissing (logged sorted : List ℤ) : Prop where
  /-- No identifier that was received live is missing. -/
  live_not_missing : ∀ x ∈ logged, x ∉ missingExpected sorted
  /-- Every missing identifier is between two neighbouring live ones. -/
  between : ∀ x ∈ missingExpected sorted, ∃ p ∈ consecutivePairs logged, p.1 < x ∧ x < p.2
  /-- Each is counted once. -/
  card_eq : ((missingExpected sorted).card : ℤ) =
    ((computeMissingRangesWithStep sorted (inferNominalSeqStep sorted)).map fun r => r.2.2).sum

/-- No live identifier inside a gap is on the grid of the gap. -/
def GridClear (sorted : List ℤ) : Prop :=
  ∀ p ∈ consecutivePairs sorted, ∀ x ∈ sorted, p.1 < x → x < p.2 →
    ∀ i : ℕ, i < missingCount (inferNominalSeqStep sorted) p.1 p.2 →
      x ≠ p.1 + (i + 1) * inferNominalSeqStep sorted

/-- The grid points of a gap. -/
def gridPoints (step : ℤ) (p : ℤ × ℤ) : List ℤ :=
  (List.range (missingCount step p.1 p.2)).map fun i : ℕ => p.1 + (i + 1) * step

/-- Membership in the grid of a gap. -/
theorem mem_gridPoints {step x : ℤ} {p : ℤ × ℤ} :
    x ∈ gridPoints step p ↔ ∃ i : ℕ, i < missingCount step p.1 p.2 ∧ x = p.1 + (i + 1) * step := by
  simp only [gridPoints, List.mem_map, List.mem_range, eq_comm]

/-- Only a difference that increases has a grid. -/
theorem lt_of_missingCount {step a b : ℤ} (hstep : 0 < step) {i : ℕ}
    (hi : i < missingCount step a b) : a < b := by
  unfold missingCount at hi
  split_ifs at hi with hgap
  · omega
  · omega

/-- The points of a grid are different. -/
theorem gridPoints_nodup {step : ℤ} (hstep : 0 < step) (p : ℤ × ℤ) :
    (gridPoints step p).Nodup := by
  refine List.Nodup.map (fun i j hij => ?_) List.nodup_range
  have hmul : ((i : ℤ) + 1) * step = ((j : ℤ) + 1) * step := by simpa using hij
  have hcancel := mul_right_cancel₀ hstep.ne' hmul
  omega

/-- The count of the range of a difference is the number of its grid points. -/
theorem sum_missingRange {step a b : ℤ} (hstep : 0 < step) (hsmall : b - a < 2 ^ 52) :
    ((missingRange a b step).map fun r => r.2.2).sum = missingCount step a b := by
  unfold missingRange missingCount
  dsimp only
  by_cases hgap : step < b - a
  · rw [if_pos hgap, if_pos hgap, roundedUnits_eq hstep hgap hsmall]
    split_ifs with hcount
    · simp only [List.map_cons, List.map_nil, List.sum_cons, List.sum_nil]
      omega
    · simp only [List.map_nil, List.sum_nil]
      omega
  · rw [if_neg hgap, if_neg hgap]
    rfl

/-- The first identifiers of the successive pairs are part of the list. -/
theorem consecutive_fst_sublist (live : List ℤ) :
    ((consecutivePairs live).map Prod.fst).Sublist live := by
  induction live with
  | nil => exact .slnil
  | cons a rest ih =>
    cases rest with
    | nil => exact List.nil_sublist _
    | cons b rest => exact ih.cons_cons a

/-- A value between two members of an increasing list is a member or between
two neighbours. -/
theorem exists_consecutive {live : List ℤ} (hlive : live.Pairwise (· < ·)) {a b x : ℤ}
    (ha : a ∈ live) (hb : b ∈ live) (hax : a < x) (hxb : x < b) (hx : x ∉ live) :
    ∃ p ∈ consecutivePairs live, p.1 < x ∧ x < p.2 := by
  induction live generalizing a with
  | nil => exact absurd ha List.not_mem_nil
  | cons prev rest ih =>
    obtain ⟨hprev, hrest⟩ := List.pairwise_cons.mp hlive
    have hprevx : prev < x := by
      rcases List.mem_cons.mp ha with rfl | ha
      · exact hax
      · exact (hprev a ha).trans hax
    cases rest with
    | nil =>
      rw [List.mem_singleton.mp hb] at hxb
      omega
    | cons cur rest =>
      by_cases hcur : x < cur
      · exact ⟨(prev, cur), List.mem_cons_self, hprevx, hcur⟩
      · have hne : x ≠ cur := fun h => hx (by simp [h])
        have hbrest : b ∈ cur :: rest := by
          rcases List.mem_cons.mp hb with rfl | hb
          · omega
          · exact hb
        obtain ⟨p, hp, hbetween⟩ := ih hrest List.mem_cons_self hbrest (by omega)
          fun h => hx (List.mem_cons_of_mem _ h)
        exact ⟨p, List.mem_cons_of_mem _ hp, hbetween⟩

/-- The missing identifiers are the grid points of all gaps. -/
theorem missingExpected_eq_toFinset {live : List ℤ}
    (hsmall : ∀ p ∈ consecutivePairs live, p.2 - p.1 < 2 ^ 52) :
    missingExpected live =
      ((consecutivePairs live).flatMap (gridPoints (inferNominalSeqStep live))).toFinset := by
  ext x
  rw [mem_missingExpected hsmall, List.mem_toFinset, List.mem_flatMap]
  exact exists_congr fun p => and_congr_right fun _ => mem_gridPoints.symm

/-- The grid of a gap does not reach the first identifier of another gap. -/
theorem GridClear.disjoint {live : List ℤ} (hclear : GridClear live) {p q : ℤ × ℤ}
    (hp : p ∈ consecutivePairs live) (hq : q ∈ consecutivePairs live) (hlt : p.1 < q.1) {x : ℤ}
    (hxp : x ∈ gridPoints (inferNominalSeqStep live) p)
    (hxq : x ∈ gridPoints (inferNominalSeqStep live) q) : False := by
  have hstep := inferNominalSeqStep_pos live
  obtain ⟨i, hi, hxi⟩ := mem_gridPoints.mp hxp
  obtain ⟨j, hj, hxj⟩ := mem_gridPoints.mp hxq
  have hoffset : q.1 = p.1 + ((i : ℤ) - j) * inferNominalSeqStep live := by
    rw [hxi] at hxj
    linarith
  have hji : (j : ℤ) < i := by
    by_contra hle
    have hnonpos : ((i : ℤ) - j) * inferNominalSeqStep live ≤ 0 :=
      mul_nonpos_of_nonpos_of_nonneg (by omega) hstep.le
    omega
  -- so the first identifier of the second gap is a grid point of the first gap
  obtain ⟨k, hk⟩ : ∃ k : ℕ, (i : ℤ) - j = k + 1 := ⟨i - j - 1, by omega⟩
  have hki : k < missingCount (inferNominalSeqStep live) p.1 p.2 := by omega
  have hinside := grid_between hstep (lt_of_missingCount hstep hki) hki
  rw [hk] at hoffset
  rw [← hoffset] at hinside
  exact hclear p hp q.1 (mem_of_consecutive hq).1 hinside.1 hinside.2 k hki hoffset

/-- Where no live identifier is on a grid, no grid point is counted twice. -/
theorem GridClear.nodup {live : List ℤ} (hclear : GridClear live) (hnodup : live.Nodup) :
    ((consecutivePairs live).flatMap (gridPoints (inferNominalSeqStep live))).Nodup := by
  have hfst : ((consecutivePairs live).map Prod.fst).Nodup :=
    hnodup.sublist (consecutive_fst_sublist live)
  refine List.nodup_flatMap.mpr ⟨fun p _ => gridPoints_nodup (inferNominalSeqStep_pos live) p, ?_⟩
  refine (List.Nodup.of_map _ hfst).pairwise_of_forall_ne fun p hp q hq hne => ?_
  intro x hxp hxq
  have hdifferent : p.1 ≠ q.1 := fun h => hne (List.inj_on_of_nodup_map hfst hp hq h)
  rcases lt_or_gt_of_ne hdifferent with hlt | hgt
  · exact hclear.disjoint hp hq hlt hxp hxq
  · exact hclear.disjoint hq hp hgt hxq hxp

/-- The counts of all ranges together are the number of all grid points. -/
theorem sum_missingRanges {live : List ℤ}
    (hsmall : ∀ p ∈ consecutivePairs live, p.2 - p.1 < 2 ^ 52) :
    ((computeMissingRangesWithStep live (inferNominalSeqStep live)).map fun r => r.2.2).sum =
      ((consecutivePairs live).flatMap (gridPoints (inferNominalSeqStep live))).length := by
  have hstep := inferNominalSeqStep_pos live
  rw [computeMissingRangesWithStep_eq]
  generalize consecutivePairs live = pairs at hsmall ⊢
  induction pairs with
  | nil => rfl
  | cons p pairs ih =>
    rw [List.flatMap_cons, List.flatMap_cons, List.map_append, List.sum_append, List.length_append,
      ih fun q hq => hsmall q (List.mem_cons_of_mem _ hq),
      sum_missingRange hstep (hsmall p List.mem_cons_self), gridPoints, List.length_map,
      List.length_range, Nat.cast_add]

/-- No two neighbours in a list have another of its identifiers between them. -/
def NoneSkipped (sorted : List ℤ) : Prop :=
  ∀ p ∈ consecutivePairs sorted, ∀ x ∈ sorted, p.1 < x → p.2 ≤ x

/-- An increasing list skips none. -/
theorem noneSkipped_of_increasing {live : List ℤ} (hlive : live.Pairwise (· < ·)) :
    NoneSkipped live := by
  intro p hp x hx hpx
  have hgap := (consecutive_gap hlive hp).2 x hx
  omega

/-- Where none is skipped, no gap has an identifier on its grid. -/
theorem NoneSkipped.gridClear {live : List ℤ} (h : NoneSkipped live) : GridClear live :=
  fun p hp x hx hpx hxp => absurd (h p hp x hx hpx) (not_le.mpr hxp)

/-- No live identifier is missing, every missing one is between two neighbours,
and each is counted once, exactly where no live identifier lies on the grid of a
gap of the sorted list. -/
theorem neverMissing_iff_gridClear (log : ExportedLog) {sorted : List LogRow}
    (hlogged : (liveSeqs log.rows).Pairwise (· < ·)) (hsorted : SortedByWall log.rows sorted) :
    NeverMissing (liveSeqs log.rows) (liveSeqs sorted) ↔ GridClear (liveSeqs sorted) := by
  have hsmall := log.gap_small hsorted
  have hperm := hsorted.liveSeqs_perm
  have hnodup : (liveSeqs sorted).Nodup := hperm.nodup_iff.mpr (hlogged.imp ne_of_lt)
  have hstep := inferNominalSeqStep_pos (liveSeqs sorted)
  constructor
  · intro h p hp x hx _ _ i hi heq
    exact h.live_not_missing x (hperm.mem_iff.mp hx)
      ((mem_missingExpected hsmall).mpr ⟨p, hp, i, hi, heq⟩)
  · intro hclear
    have hinside : ∀ x ∈ missingExpected (liveSeqs sorted), x ∉ liveSeqs sorted ∧
        ∃ p ∈ consecutivePairs (liveSeqs sorted), p.1 < x ∧ x < p.2 := by
      intro x hx
      obtain ⟨p, hp, i, hi, rfl⟩ := (mem_missingExpected hsmall).mp hx
      have hbetween := grid_between hstep (lt_of_missingCount hstep hi) hi
      exact ⟨fun hmem => hclear p hp _ hmem hbetween.1 hbetween.2 i hi rfl, p, hp, hbetween⟩
    refine ⟨fun x hx hmissing => ?_, fun x hx => ?_, ?_⟩
    · exact (hinside x hmissing).1 (hperm.mem_iff.mpr hx)
    · obtain ⟨hnot, p, hp, hax, hxb⟩ := hinside x hx
      obtain ⟨hp1, hp2⟩ := mem_of_consecutive hp
      exact exists_consecutive hlogged (hperm.mem_iff.mp hp1) (hperm.mem_iff.mp hp2) hax hxb
        fun h => hnot (hperm.mem_iff.mpr h)
    · rw [missingExpected_eq_toFinset hsmall, List.toFinset_card_of_nodup (hclear.nodup hnodup),
        sum_missingRanges hsmall]

/-- One is the most frequent positive difference of neighbours in a list. -/
def CountsByOne (sorted : List ℤ) : Prop :=
  let differences := (consecutivePairs sorted).map fun p => p.2 - p.1
  ∀ d, 0 < d → d ≠ 1 → differences.count d < differences.count 1

/-- The positive differences are counted as they stand among all of them. -/
theorem count_positiveDiffs {d : ℤ} (hd : 0 < d) (rest : List ℤ) :
    ∀ prev, (positiveDiffs prev rest).count d =
      ((consecutivePairs (prev :: rest)).map fun p => p.2 - p.1).count d := by
  induction rest with
  | nil => exact fun prev => rfl
  | cons cur rest ih =>
    intro prev
    have hpairs : consecutivePairs (prev :: cur :: rest) =
        (prev, cur) :: consecutivePairs (cur :: rest) := rfl
    rw [hpairs, positiveDiffs, List.map_cons, List.count_cons, ← ih cur]
    dsimp only
    by_cases hpos : 0 < cur - prev
    · rw [if_pos hpos, List.count_cons]
    · have hne : ¬(cur - prev == d) = true := by
        rw [beq_iff_eq]
        omega
      rw [if_neg hpos, if_neg hne, Nat.add_zero]

/-- All members of the positive differences are positive. -/
theorem pos_of_mem_positiveDiffs {d : ℤ} (rest : List ℤ) :
    ∀ prev, d ∈ positiveDiffs prev rest → 0 < d := by
  induction rest with
  | nil => exact fun prev h => absurd h List.not_mem_nil
  | cons cur rest ih =>
    intro prev h
    rw [positiveDiffs] at h
    split_ifs at h with hpos
    · rcases List.mem_cons.mp h with rfl | hlater
      · exact hpos
      · exact ih cur hlater
    · exact ih cur h

/-- The nominal step of such a list is one. -/
theorem CountsByOne.inferNominalSeqStep_eq {sorted : List ℤ} (h : CountsByOne sorted) :
    inferNominalSeqStep sorted = 1 := by
  unfold inferNominalSeqStep
  split
  · rfl
  · rfl
  · rename_i prev rest _
    dsimp only
    split
    · rfl
    · rename_i step hmost
      have hmem := List.argmax_mem hmost
      have hpos := pos_of_mem_positiveDiffs rest prev hmem
      rw [if_pos hpos]
      by_contra hne
      have hfewer : (positiveDiffs prev rest).count step < (positiveDiffs prev rest).count 1 := by
        rw [count_positiveDiffs hpos, count_positiveDiffs Int.one_pos]
        exact h step hpos hne
      have hone : (1 : ℤ) ∈ positiveDiffs prev rest := List.count_pos_iff.mp (by omega)
      have hmore := List.le_of_mem_argmax hone hmost
      omega

/-- With the step one, the grid of a gap is everything inside it. -/
theorem missingCount_one {a b : ℤ} (hab : a < b) : (missingCount 1 a b : ℤ) = b - a - 1 := by
  have hlast : a + ((b - a - 1).toNat : ℕ) * 1 < b := by omega
  have hcount := (missingCount_eq_iff Int.one_pos hlast).mpr (by unfold LastDistance; omega)
  omega

/-- With the step one, no grid has an identifier on it only where none is
skipped. -/
theorem GridClear.noneSkipped {live : List ℤ} (h : GridClear live) (hone : CountsByOne live) :
    NoneSkipped live := by
  intro p hp x hx hpx
  by_contra hxp
  have hcount := missingCount_one (show p.1 < p.2 by omega)
  rw [GridClear, hone.inferNominalSeqStep_eq] at h
  exact h p hp x hx hpx (not_le.mp hxp) (x - p.1 - 1).toNat (by omega) (by omega)

/-- For every log whose live rows were logged in increasing order and for every
order that the sort may leave: where no two neighbours skip a live identifier,
as is so in every increasing order, no live identifier is missing, every missing
one is between two neighbours, and each is counted once. Where the identifiers
count by one, this holds in no other order. -/
theorem live_never_missing (log : ExportedLog) {sorted : List LogRow}
    (hlogged : (liveSeqs log.rows).Pairwise (· < ·)) (hsorted : SortedByWall log.rows sorted) :
    (NoneSkipped (liveSeqs sorted) → NeverMissing (liveSeqs log.rows) (liveSeqs sorted)) ∧
      ((liveSeqs sorted).Pairwise (· < ·) → NoneSkipped (liveSeqs sorted)) ∧
      (CountsByOne (liveSeqs sorted) →
        (NeverMissing (liveSeqs log.rows) (liveSeqs sorted) ↔ NoneSkipped (liveSeqs sorted))) := by
  have hclear := neverMissing_iff_gridClear log hlogged hsorted
  refine ⟨fun hskipped => hclear.mpr hskipped.gridClear, noneSkipped_of_increasing,
    fun hone => ⟨fun hnever => ?_, ?_⟩⟩
  · exact (hclear.mp hnever).noneSkipped hone
  · exact fun hskipped => hclear.mpr hskipped.gridClear

/-- Live samples of one millisecond, with a gap before the last of them. -/
def burstLog : ExportedLog where
  rows := [(0, 1), (0, 2), (0, 3), (0, 7)].map fun (wall, seq) =>
    ⟨some wall, .telemetry, .live, some seq⟩
  live_range := by decide

/-- The same samples, the first one moved behind the others. -/
def rotatedRows : List LogRow :=
  [(0, 2), (0, 3), (0, 7), (0, 1)].map fun (wall, seq) =>
    ⟨some wall, .telemetry, .live, some seq⟩

/-- The sort may move the first sample behind the others without harm. -/
theorem live_never_missing_burstLog :
    NeverMissing [1, 2, 3, 7] [2, 3, 7, 1] ∧ missingExpected [2, 3, 7, 1] = {4, 5, 6} := by
  have hsorted : SortedByWall burstLog.rows rotatedRows := by
    refine ⟨?_, by decide⟩
    exact List.perm_append_singleton ⟨some 0, .telemetry, .live, some 1⟩ (rotatedRows.take 3)
  have hskipped : NoneSkipped (liveSeqs rotatedRows) := by
    have hpairs : consecutivePairs (liveSeqs rotatedRows) = [(2, 3), (3, 7), (7, 1)] := rfl
    have hseqs : liveSeqs rotatedRows = [2, 3, 7, 1] := rfl
    rw [NoneSkipped, hpairs, hseqs]
    simp
  exact ⟨(live_never_missing burstLog (by decide) hsorted).1 hskipped, by decide +kernel⟩

/-- Live samples that were logged two in a millisecond. -/
def tiedLog : ExportedLog where
  rows := [(0, 1), (10, 2), (10, 3), (20, 4), (30, 5), (40, 6), (50, 7)].map fun (wall, seq) =>
    ⟨some wall, .telemetry, .live, some seq⟩
  live_range := by decide

/-- The same samples, the two of one millisecond exchanged. -/
def exchangedRows : List LogRow :=
  [(0, 1), (10, 3), (10, 2), (20, 4), (30, 5), (40, 6), (50, 7)].map fun (wall, seq) =>
    ⟨some wall, .telemetry, .live, some seq⟩

/-- A live sample is counted as missing after the sort has exchanged two rows. -/
theorem live_sample_counted_missing :
    (liveSeqs tiedLog.rows).Pairwise (· < ·) ∧ SortedByWall tiedLog.rows exchangedRows ∧
      2 ∈ liveSeqs tiedLog.rows ∧ 2 ∈ missingExpected (liveSeqs exchangedRows) := by
  refine ⟨by decide, ⟨?_, by decide⟩, by decide, by decide +kernel⟩
  exact (List.Perm.swap _ _ _).cons _

end TelemetryPlatform.LiveNeverMissing
