import Mathlib.Data.Finset.Card
import Mathlib.Data.List.MinMax
import TelemetryPlatform.Binary64

/-!
# The gap analysis of the live sequence identifiers

The analysis sees the identifiers that were received live. It takes the most
common difference as the nominal step and fills each larger difference with the
points of a grid that starts at the identifier before the gap. The number of
points is the rounded quotient of difference and step, less one.
-/

namespace TelemetryPlatform.LossAnalysis

open Binary64

/-- The positive differences of successive identifiers. -/
def positiveDiffs (prev : ℤ) : List ℤ → List ℤ
  | [] => []
  | cur :: rest =>
    let d := cur - prev
    if 0 < d then d :: positiveDiffs cur rest else positiveDiffs cur rest

/-- The most common positive difference, the first of them in the list where
several are equally common. -/
def inferNominalSeqStep (seqs : List ℤ) : ℤ :=
  match seqs with
  | [] => 1
  | [_] => 1
  | prev :: rest =>
    let diffs := positiveDiffs prev rest
    match diffs.argmax fun d => diffs.count d with
    | none => 1
    | some step => if 0 < step then step else 1

/-- The rounded quotient of a positive difference and a positive step: the
true division gives a binary64 number, which is rounded to an integer. -/
def roundedUnits (d step : ℤ) : ℤ :=
  ((roundQuotient false d.toNat step.toNat).nearestScaled 1).getD 0

/-- The missing range between two successive identifiers, if there is one. -/
def missingRange (prev cur step : ℤ) : List (ℤ × ℤ × ℤ) :=
  let d := cur - prev
  if step < d then
    let approxUnits := roundedUnits d step
    let missingCount := max (approxUnits - 1) 0
    if 0 < missingCount then [(prev + step, prev + step * missingCount, missingCount)] else []
  else []

/-- The missing ranges after an identifier. -/
def missingRangesFrom (step prev : ℤ) : List ℤ → List (ℤ × ℤ × ℤ)
  | [] => []
  | cur :: rest => missingRange prev cur step ++ missingRangesFrom step cur rest

/-- All missing ranges: first value, last value and count of each. -/
def computeMissingRangesWithStep (seqs : List ℤ) (step : ℤ) : List (ℤ × ℤ × ℤ) :=
  match seqs with
  | [] => []
  | prev :: rest => missingRangesFrom step prev rest

/-- The values that the loop over one range adds. A step that is not positive
would loop forever in the source; the inferred step is positive. -/
def expandRange (step v last : ℤ) : List ℤ :=
  if 0 < step ∧ v ≤ last then v :: expandRange step (v + step) last else []
termination_by (last + 1 - v).toNat

/-- The set of all values of the missing ranges. -/
def expandMissingExpectedValues (ranges : List (ℤ × ℤ × ℤ)) (step : ℤ) : Finset ℤ :=
  (ranges.flatMap fun r => expandRange step r.1 r.2.1).toFinset

/-- The metrics of one run that rest on the sequence identifiers. -/
structure SeqMetrics where
  /-- The inferred step. -/
  nominalSeqStep : ℤ
  /-- Number of missing identifiers. -/
  liveMissingTotal : ℕ
  /-- Number of gaps. -/
  gapsCount : ℕ
  /-- Size of the largest gap. -/
  largestGap : ℤ
  /-- Missing identifiers that were received by replay. -/
  recoveredByReplay : ℕ
  /-- Missing identifiers that were not. -/
  unrecoveredContext : ℤ
  /-- Share of the recovered ones; not a number where none is missing. -/
  replayRecoveryRatio : Double

/-- The set of missing identifiers of a run. -/
def missingExpected (liveSeqs : List ℤ) : Finset ℤ :=
  let nominalStep := inferNominalSeqStep liveSeqs
  expandMissingExpectedValues (computeMissingRangesWithStep liveSeqs nominalStep) nominalStep

/-- The sequence part of analyze_one_file, for the identifiers received live in
their order and the set of those received by replay. In a reconnect-only run
replay counts for nothing. -/
def analyzeSeqs (reconnectOnly : Bool) (liveSeqs : List ℤ) (replaySeqs : Finset ℤ) : SeqMetrics :=
  let nominalStep := inferNominalSeqStep liveSeqs
  let missingRanges := computeMissingRangesWithStep liveSeqs nominalStep
  let missing := missingExpected liveSeqs
  let recovered := if reconnectOnly = true then 0 else (missing ∩ replaySeqs).card
  { nominalSeqStep := nominalStep
    liveMissingTotal := missing.card
    gapsCount := missingRanges.length
    largestGap := (missingRanges.map fun r => r.2.2).foldl max 0
    recoveredByReplay := recovered
    unrecoveredContext := if missing = ∅ then 0 else missing.card - recovered
    replayRecoveryRatio :=
      if missing = ∅ then .nan false
      else if reconnectOnly = true then .zero else roundQuotient false recovered missing.card }

/-- Successive identifiers of a list. -/
def consecutivePairs (seqs : List ℤ) : List (ℤ × ℤ) := seqs.zip seqs.tail

/-- The number of grid points that a pair of identifiers adds. -/
def missingCount (step a b : ℤ) : ℕ :=
  if step < b - a then nearestEven (b - a).toNat step.toNat - 1 else 0

/-- The step is positive. -/
theorem inferNominalSeqStep_pos (seqs : List ℤ) : 0 < inferNominalSeqStep seqs := by
  unfold inferNominalSeqStep
  split
  · decide
  · decide
  · dsimp only
    split
    · decide
    · split_ifs with hpos
      · exact hpos
      · decide

/-- The rounded quotient is the nearest-even integer of the exact one. -/
theorem roundedUnits_eq {d step : ℤ} (hstep : 0 < step) (hd : step < d) (hsmall : d < 2 ^ 52) :
    roundedUnits d step = nearestEven d.toNat step.toNat := by
  have hround : (roundQuotient false d.toNat step.toNat).nearestScaled 1 =
      some (nearestEven d.toNat step.toNat) :=
    nearestScaled_roundQuotient false (by omega) (by omega) (by omega)
  rw [roundedUnits, hround, Option.getD_some]

/-- The loop over a range adds the grid points from its start to its end. -/
theorem mem_expandRange {step v last x : ℤ} (hstep : 0 < step) :
    x ∈ expandRange step v last ↔ ∃ i : ℕ, x = v + i * step ∧ x ≤ last := by
  fun_induction expandRange step v last with
  | case1 v hloop ih =>
    rw [List.mem_cons, ih]
    constructor
    · rintro (rfl | ⟨i, rfl, hle⟩)
      · exact ⟨0, by simp, hloop.2⟩
      · exact ⟨i + 1, by push_cast; ring, hle⟩
    · rintro ⟨i, rfl, hle⟩
      cases i with
      | zero => exact .inl (by simp)
      | succ i => exact .inr ⟨i, by push_cast; ring, hle⟩
  | case2 v hstop =>
    constructor
    · exact fun h => absurd h List.not_mem_nil
    · rintro ⟨i, rfl, hle⟩
      have hpos : 0 ≤ (i : ℤ) * step := Int.mul_nonneg (by omega) hstep.le
      omega

/-- A pair of identifiers adds the grid points behind the first of them. -/
theorem mem_expand_missingRange {step a b x : ℤ} (hstep : 0 < step) (hsmall : b - a < 2 ^ 52) :
    (∃ r ∈ missingRange a b step, x ∈ expandRange step r.1 r.2.1) ↔
      ∃ i : ℕ, i < missingCount step a b ∧ x = a + (i + 1) * step := by
  unfold missingRange missingCount
  dsimp only
  by_cases hgap : step < b - a
  · rw [if_pos hgap, if_pos hgap, roundedUnits_eq hstep hgap hsmall]
    generalize nearestEven (b - a).toNat step.toNat = units
    have hmax : max ((units : ℤ) - 1) 0 = ((units - 1 : ℕ) : ℤ) := by omega
    rw [hmax]
    generalize units - 1 = count
    by_cases hcount : 0 < count
    · rw [if_pos (by omega)]
      simp only [List.mem_singleton, exists_eq_left, mem_expandRange hstep]
      refine exists_congr fun i => ?_
      constructor
      · rintro ⟨rfl, hle⟩
        have hmul : ((i : ℤ) + 1) * step ≤ count * step := by linarith
        exact ⟨by have := le_of_mul_le_mul_right hmul hstep; omega, by ring⟩
      · rintro ⟨hlt, rfl⟩
        have hmul : ((i : ℤ) + 1) * step ≤ count * step :=
          Int.mul_le_mul_of_nonneg_right (by omega) hstep.le
        exact ⟨by ring, by linarith⟩
    · rw [if_neg (by omega)]
      simp only [List.not_mem_nil, false_and, exists_false, false_iff, not_exists]
      omega
  · rw [if_neg hgap, if_neg hgap]
    simp

/-- The missing identifiers are those that the successive pairs add. -/
theorem mem_missingRangesFrom {step prev x : ℤ} (rest : List ℤ) :
    (∃ r ∈ missingRangesFrom step prev rest, x ∈ expandRange step r.1 r.2.1) ↔
      ∃ p ∈ consecutivePairs (prev :: rest), ∃ r ∈ missingRange p.1 p.2 step,
        x ∈ expandRange step r.1 r.2.1 := by
  induction rest generalizing prev with
  | nil => simp [missingRangesFrom, consecutivePairs]
  | cons cur rest ih =>
    have hpairs : consecutivePairs (prev :: cur :: rest) =
        (prev, cur) :: consecutivePairs (cur :: rest) := rfl
    rw [hpairs, missingRangesFrom]
    simp only [List.mem_append, or_and_right, exists_or, List.mem_cons, exists_eq_left, ih]

/-- The ranges of a list are those of its successive pairs. -/
theorem computeMissingRangesWithStep_eq (seqs : List ℤ) (step : ℤ) :
    computeMissingRangesWithStep seqs step =
      (consecutivePairs seqs).flatMap fun p => missingRange p.1 p.2 step := by
  have hfrom : ∀ rest prev, missingRangesFrom step prev rest =
      (consecutivePairs (prev :: rest)).flatMap fun p => missingRange p.1 p.2 step := by
    intro rest
    induction rest with
    | nil => exact fun prev => rfl
    | cons cur rest ih =>
      intro prev
      rw [missingRangesFrom, ih cur]
      rfl
  cases seqs with
  | nil => rfl
  | cons prev rest => exact hfrom rest prev

/-- Membership in the set of missing identifiers. -/
theorem mem_missingExpected {live : List ℤ} {x : ℤ}
    (hsmall : ∀ p ∈ consecutivePairs live, p.2 - p.1 < 2 ^ 52) :
    x ∈ missingExpected live ↔ ∃ p ∈ consecutivePairs live,
      ∃ i : ℕ, i < missingCount (inferNominalSeqStep live) p.1 p.2 ∧
        x = p.1 + (i + 1) * inferNominalSeqStep live := by
  have hexpand : x ∈ missingExpected live ↔ ∃ p ∈ consecutivePairs live,
      ∃ r ∈ missingRange p.1 p.2 (inferNominalSeqStep live),
        x ∈ expandRange (inferNominalSeqStep live) r.1 r.2.1 := by
    simp only [missingExpected, expandMissingExpectedValues, List.mem_toFinset, List.mem_flatMap]
    cases live with
    | nil => simp [computeMissingRangesWithStep, consecutivePairs]
    | cons prev rest => exact mem_missingRangesFrom rest
  rw [hexpand]
  refine exists_congr fun p => and_congr_right fun hp => ?_
  exact mem_expand_missingRange (inferNominalSeqStep_pos live) (hsmall p hp)

/-- The defining property of the rounded quotient of a gap, over the integers. -/
theorem nearestEven_gap_eq_iff {step d : ℤ} (hstep : 0 < step) (hd : 0 < d) (k : ℕ) :
    nearestEven d.toNat step.toNat = k ↔
      (2 * (k * step) < 2 * d + step ∧ 2 * d < 2 * (k * step) + step) ∨
        ((2 * (k * step) = 2 * d + step ∨ 2 * d = 2 * (k * step) + step) ∧ k % 2 = 0) := by
  obtain ⟨den, rfl⟩ := Int.eq_ofNat_of_zero_le hstep.le
  obtain ⟨num, rfl⟩ := Int.eq_ofNat_of_zero_le hd.le
  rw [Int.toNat_natCast, Int.toNat_natCast, nearestEven_eq_iff (by omega), IsNearestEven]
  norm_cast

/-- The distance from the last regular identifier of a gap to its end, for
which the rounded quotient counts the regular identifiers and the end. -/
def LastDistance (step : ℤ) (k : ℕ) (r : ℤ) : Prop :=
  (step < 2 * r ∧ 2 * r < 3 * step) ∨
    (k % 2 = 1 ∧ (2 * r = step ∨ 2 * r = 3 * step)) ∨
    (k = 0 ∧ 2 * r ≤ step)

/-- When the grid of a gap has k points. -/
theorem missingCount_eq_iff {step a b : ℤ} (hstep : 0 < step) {k : ℕ}
    (hlast : a + k * step < b) :
    missingCount step a b = k ↔ LastDistance step k (b - (a + k * step)) := by
  have hk : 0 ≤ (k : ℤ) * step := Int.mul_nonneg (by omega) hstep.le
  have hcast : ((k + 1 : ℕ) : ℤ) * step = k * step + step := by push_cast; ring
  unfold missingCount LastDistance
  by_cases hgap : step < b - a
  · rw [if_pos hgap]
    have hspec := nearestEven_gap_eq_iff hstep (d := b - a) (by omega) (k + 1)
    have hzero := nearestEven_gap_eq_iff hstep (d := b - a) (by omega) 0
    rw [hcast] at hspec
    simp only [Nat.cast_zero, Int.zero_mul] at hzero
    have hcount : nearestEven (b - a).toNat step.toNat - 1 = k ↔
        nearestEven (b - a).toNat step.toNat = k + 1 := by omega
    rw [hcount, hspec]
    rcases Nat.eq_zero_or_pos k with rfl | hpos
    · simp only [Nat.cast_zero, Int.zero_mul] at *
      omega
    · omega
  · rw [if_neg hgap]
    rcases Nat.eq_zero_or_pos k with rfl | hpos
    · rw [Nat.cast_zero, Int.zero_mul] at hlast ⊢
      refine iff_of_true rfl ?_
      omega
    · have hge : step ≤ k * step := by
        have := Int.mul_le_mul_of_nonneg_right (show (1 : ℤ) ≤ k by omega) hstep.le
        omega
      omega

/-- The grid of a gap ends before the gap does. -/
theorem missingCount_lt {step a b : ℤ} (hstep : 0 < step) (hab : a < b) :
    a + missingCount step a b * step < b := by
  unfold missingCount
  split_ifs with hgap
  · have hspec := (nearestEven_gap_eq_iff hstep (by omega) _).mp
      (rfl : nearestEven (b - a).toNat step.toNat = nearestEven (b - a).toNat step.toNat)
    generalize nearestEven (b - a).toNat step.toNat = units at hspec ⊢
    cases units with
    | zero => simpa using hab
    | succ units =>
      have hexpand : ((units + 1 : ℕ) : ℤ) * step = units * step + step := by push_cast; ring
      rw [hexpand] at hspec
      rw [Nat.add_sub_cancel]
      omega
  · simpa using hab

/-- The points of a grid are inside their gap. -/
theorem grid_between {step a b : ℤ} (hstep : 0 < step) (hab : a < b) {i : ℕ}
    (hi : i < missingCount step a b) : a < a + (i + 1) * step ∧ a + (i + 1) * step < b := by
  have hlast := missingCount_lt hstep hab
  have hpos : 0 < ((i : ℤ) + 1) * step := Int.mul_pos (by omega) hstep
  have hle : ((i : ℤ) + 1) * step ≤ missingCount step a b * step :=
    Int.mul_le_mul_of_nonneg_right (by omega) hstep.le
  omega

/-- Successive identifiers are members of the list. -/
theorem mem_of_consecutive {live : List ℤ} {p : ℤ × ℤ} (hp : p ∈ consecutivePairs live) :
    p.1 ∈ live ∧ p.2 ∈ live :=
  ⟨(List.of_mem_zip hp).1, List.mem_of_mem_tail (List.of_mem_zip hp).2⟩

/-- Successive identifiers of an increasing list increase, and no identifier of
the list lies between them. -/
theorem consecutive_gap {live : List ℤ} (hlive : live.Pairwise (· < ·)) {p : ℤ × ℤ}
    (hp : p ∈ consecutivePairs live) : p.1 < p.2 ∧ ∀ y ∈ live, y ≤ p.1 ∨ p.2 ≤ y := by
  induction live with
  | nil => exact absurd hp List.not_mem_nil
  | cons prev rest ih =>
    cases rest with
    | nil => exact absurd hp List.not_mem_nil
    | cons cur rest =>
      obtain ⟨hprev, hrest⟩ := List.pairwise_cons.mp hlive
      rcases List.mem_cons.mp hp with rfl | hlater
      · refine ⟨hprev cur List.mem_cons_self, fun y hy => ?_⟩
        rcases List.mem_cons.mp hy with rfl | hy
        · exact .inl le_rfl
        · rcases List.mem_cons.mp hy with rfl | hy
          · exact .inr le_rfl
          · exact .inr (List.rel_of_pairwise_cons hrest hy).le
      · obtain ⟨hlt, hgap⟩ := ih hrest hlater
        refine ⟨hlt, fun y hy => ?_⟩
        rcases List.mem_cons.mp hy with rfl | hy
        · exact .inl (hprev p.1 (mem_of_consecutive hlater).1).le
        · exact hgap y hy

/-- Two gaps of an increasing list that share an inner point are one gap. -/
theorem consecutive_unique {live : List ℤ} (hlive : live.Pairwise (· < ·)) {p q : ℤ × ℤ}
    (hp : p ∈ consecutivePairs live) (hq : q ∈ consecutivePairs live) {x : ℤ}
    (hpx : p.1 < x ∧ x < p.2) (hqx : q.1 < x ∧ x < q.2) : p = q := by
  have hq1 := (consecutive_gap hlive hp).2 q.1 (mem_of_consecutive hq).1
  have hq2 := (consecutive_gap hlive hp).2 q.2 (mem_of_consecutive hq).2
  have hp1 := (consecutive_gap hlive hq).2 p.1 (mem_of_consecutive hp).1
  have hp2 := (consecutive_gap hlive hq).2 p.2 (mem_of_consecutive hp).2
  exact Prod.ext (by omega) (by omega)

/-- The identifiers that a source publishes: strictly increasing, in the range
of an unsigned 32-bit number. -/
structure Published (seqs : List ℤ) : Prop where
  /-- They increase. -/
  increasing : seqs.Pairwise (· < ·)
  /-- They are in range. -/
  range : ∀ x ∈ seqs, 0 ≤ x ∧ x < 2 ^ 32

/-- The published identifiers between two identifiers a and b are the regular
ones a + step up to a + k * step, and the distance from there to b rounds to
one step. -/
def RegularGap (published : List ℤ) (step a b : ℤ) : Prop :=
  ∃ k : ℕ, a + k * step < b ∧ LastDistance step k (b - (a + k * step)) ∧
    ∀ x, a < x → x < b → (x ∈ published ↔ ∃ i : ℕ, i < k ∧ x = a + (i + 1) * step)

/-- For identifiers in range, the missing ones are the grid points of all gaps. -/
theorem mem_missingExpected_of_published {published live : List ℤ}
    (hpublished : Published published) (hlive : live.Sublist published) {x : ℤ} :
    x ∈ missingExpected live ↔ ∃ p ∈ consecutivePairs live,
      ∃ i : ℕ, i < missingCount (inferNominalSeqStep live) p.1 p.2 ∧
        x = p.1 + (i + 1) * inferNominalSeqStep live := by
  refine mem_missingExpected fun p hp => ?_
  obtain ⟨hp1, hp2⟩ := mem_of_consecutive hp
  have hlow := hpublished.range p.1 (hlive.subset hp1)
  have hhigh := hpublished.range p.2 (hlive.subset hp2)
  omega

/-- Inside a gap the missing identifiers are the grid points of that gap. -/
theorem mem_missingExpected_between {published live : List ℤ} (hpublished : Published published)
    (hlive : live.Sublist published) {p : ℤ × ℤ} (hp : p ∈ consecutivePairs live) {x : ℤ}
    (hpx : p.1 < x ∧ x < p.2) :
    x ∈ missingExpected live ↔
      ∃ i : ℕ, i < missingCount (inferNominalSeqStep live) p.1 p.2 ∧
        x = p.1 + (i + 1) * inferNominalSeqStep live := by
  have hincreasing := hpublished.increasing.sublist hlive
  have hstep := inferNominalSeqStep_pos live
  rw [mem_missingExpected_of_published hpublished hlive]
  constructor
  · rintro ⟨q, hq, i, hi, rfl⟩
    have hinside := grid_between hstep (consecutive_gap hincreasing hq).1 hi
    cases consecutive_unique hincreasing hp hq hpx hinside
    exact ⟨i, hi, rfl⟩
  · rintro ⟨i, hi, rfl⟩
    exact ⟨p, hp, i, hi, rfl⟩

/-- Inside a gap the missing identifiers are the published ones exactly when
the gap is regular. -/
theorem missing_between_iff {published live : List ℤ} (hpublished : Published published)
    (hlive : live.Sublist published) {p : ℤ × ℤ} (hp : p ∈ consecutivePairs live) :
    (∀ x, p.1 < x → x < p.2 → (x ∈ missingExpected live ↔ x ∈ published)) ↔
      RegularGap published (inferNominalSeqStep live) p.1 p.2 := by
  have hstep := inferNominalSeqStep_pos live
  have hlt := (consecutive_gap (hpublished.increasing.sublist hlive) hp).1
  constructor
  · intro hsame
    have hlast := missingCount_lt hstep hlt
    refine ⟨_, hlast, (missingCount_eq_iff hstep hlast).mp rfl, fun x hax hxb => ?_⟩
    rw [← hsame x hax hxb, mem_missingExpected_between hpublished hlive hp ⟨hax, hxb⟩]
  · rintro ⟨k, hlast, hdistance, hregular⟩ x hax hxb
    rw [mem_missingExpected_between hpublished hlive hp ⟨hax, hxb⟩, hregular x hax hxb,
      (missingCount_eq_iff hstep hlast).mpr hdistance]

/-- The published identifiers that were missed: those between successive live ones. -/
def trulyMissed (published live : List ℤ) : Finset ℤ :=
  published.toFinset.filter fun x => ∃ p ∈ consecutivePairs live, p.1 < x ∧ x < p.2

/-- Where every gap is regular, the missing identifiers are the missed ones. -/
theorem missingExpected_eq_trulyMissed {published live : List ℤ} (hpublished : Published published)
    (hlive : live.Sublist published)
    (hregular : ∀ p ∈ consecutivePairs live,
      RegularGap published (inferNominalSeqStep live) p.1 p.2) :
    missingExpected live = trulyMissed published live := by
  have hincreasing := hpublished.increasing.sublist hlive
  ext x
  rw [trulyMissed, Finset.mem_filter, List.mem_toFinset]
  constructor
  · intro hx
    have hgrid := hx
    rw [mem_missingExpected_of_published hpublished hlive] at hgrid
    obtain ⟨p, hp, i, hi, heq⟩ := hgrid
    have hinside := grid_between (inferNominalSeqStep_pos live)
      (consecutive_gap hincreasing hp).1 hi
    rw [← heq] at hinside
    have hsame := (missing_between_iff hpublished hlive hp).mpr (hregular p hp)
    exact ⟨(hsame x hinside.1 hinside.2).mp hx, p, hp, hinside⟩
  · rintro ⟨hx, p, hp, hax, hxb⟩
    exact ((missing_between_iff hpublished hlive hp).mpr (hregular p hp) x hax hxb).mpr hx

/-- For every published list and every part of it received live: inside each
gap the missing identifiers are the published ones exactly when the gap is
regular; and where every gap is regular, replay recovers the missed
identifiers that it delivers, and nothing stays unrecovered if it delivers
them all. -/
theorem missing_ids_real_iff {published live : List ℤ} (hpublished : Published published)
    (hlive : live.Sublist published) (replay : Finset ℤ) :
    (∀ p ∈ consecutivePairs live,
        ((∀ x, p.1 < x → x < p.2 → (x ∈ missingExpected live ↔ x ∈ published)) ↔
          RegularGap published (inferNominalSeqStep live) p.1 p.2)) ∧
      ((∀ p ∈ consecutivePairs live,
          RegularGap published (inferNominalSeqStep live) p.1 p.2) →
        (analyzeSeqs false live replay).recoveredByReplay =
            (trulyMissed published live ∩ replay).card ∧
          (trulyMissed published live ⊆ replay →
            (analyzeSeqs false live replay).unrecoveredContext = 0)) := by
  constructor
  · exact fun p hp => missing_between_iff hpublished hlive hp
  · intro hregular
    have hmissing := missingExpected_eq_trulyMissed hpublished hlive hregular
    constructor
    · simp only [analyzeSeqs, hmissing, Bool.false_eq_true, if_false]
    · intro hcover
      simp only [analyzeSeqs, hmissing, Bool.false_eq_true, if_false,
        Finset.inter_eq_left.mpr hcover, Int.sub_self, ite_self]

/-- One identifier lost between regular ones, and replayed. -/
theorem missing_ids_real_iff_regular :
    (∀ x, 4 < x → x < 12 → (x ∈ missingExpected [0, 4, 12] ↔ x ∈ [0, 4, 8, 12])) ∧
      (analyzeSeqs false [0, 4, 12] {8}).unrecoveredContext = 0 := by
  have hpublished : Published [0, 4, 8, 12] := ⟨by decide, by decide⟩
  have hstep : inferNominalSeqStep [0, 4, 12] = 4 := by decide
  have hfirst : RegularGap [0, 4, 8, 12] 4 0 4 :=
    ⟨0, by decide, .inl (by decide), fun x _ _ => by simp; omega⟩
  have hsecond : RegularGap [0, 4, 8, 12] 4 4 12 := by
    refine ⟨1, by decide, .inl (by decide), fun x _ _ => ?_⟩
    simp only [Nat.lt_one_iff, exists_eq_left, List.mem_cons, List.not_mem_nil, or_false]
    omega
  obtain ⟨hgaps, hrecovered⟩ := missing_ids_real_iff hpublished
    (show [0, 4, 12].Sublist [0, 4, 8, 12] by decide) {8}
  rw [hstep] at hgaps hrecovered
  have hall : ∀ p ∈ consecutivePairs [0, 4, 12], RegularGap [0, 4, 8, 12] 4 p.1 p.2 := by
    intro p hp
    rcases List.mem_cons.mp hp with rfl | hp
    · exact hfirst
    · rw [List.mem_singleton.mp hp]
      exact hsecond
  exact ⟨(hgaps (4, 12) (by decide)).mpr hsecond, (hrecovered hall).2 (by decide)⟩

/-- A grid point that was never published is counted as missing. -/
theorem missing_id_never_published :
    Published [0, 4, 8, 11, 16] ∧ [0, 4, 8, 16].Sublist [0, 4, 8, 11, 16] ∧
      (8, 16) ∈ consecutivePairs [0, 4, 8, 16] ∧
      12 ∈ missingExpected [0, 4, 8, 16] ∧ 12 ∉ [0, 4, 8, 11, 16] := by
  refine ⟨⟨by decide, by decide⟩, by decide, by decide, by decide +kernel, by decide⟩

end TelemetryPlatform.LossAnalysis
