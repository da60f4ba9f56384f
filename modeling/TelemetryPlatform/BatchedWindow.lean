import Mathlib.Data.List.Pairwise
import TelemetryPlatform.KeyedWindow

/-!
# A window over batches

Batches that are ordered in themselves arrive one after the other, and a window
keeps the last entries. The window is ordered and free of repetitions with the
largest key last, after every batch, exactly if each batch follows what has
arrived before it.
-/

namespace TelemetryPlatform.BatchedWindow

open KeyedWindow

variable {α κ : Type*} [LinearOrder κ] (key : α → κ) (k : ℕ)

/-- No entry has a smaller key than an earlier one. -/
def Ordered (entries : List α) : Prop := entries.Pairwise fun a b => key a ≤ key b

/-- The window is in order and free of repetitions, and what arrived last has the
largest key of all. -/
structure UpToDate (entries : List α) : Prop where
  /-- The window is in order. -/
  ordered : Ordered key (lastEntries k entries)
  /-- No entry is in it twice. -/
  nodup : (lastEntries k entries).Nodup
  /-- The last entry has the largest key. -/
  greatest : ∀ b ∈ entries.getLast?, ∀ a ∈ entries, key a ≤ key b

/-- A batch that starts at the largest key before it and brings nothing twice,
nor anything that stays in the window. Of a batch that fills the window only the
last entry has to come up to the largest key. -/
def Follows (entries batch : List α) : Prop :=
  if batch.length < k then
    (∀ b ∈ batch.head?, ∀ a ∈ entries, key a ≤ key b) ∧ batch.Nodup ∧
      List.Disjoint batch (lastEntries (k - batch.length) entries)
  else
    (∀ b ∈ batch.getLast?, ∀ a ∈ entries, key a ≤ key b) ∧ (lastEntries k batch).Nodup

variable {key k}

/-- The window over a short batch keeps some of the earlier entries. -/
theorem lastEntries_append_of_lt (entries : List α) {batch : List α} (hlt : batch.length < k) :
    lastEntries k (entries ++ batch) = lastEntries (k - batch.length) entries ++ batch := by
  have hdrop : (entries ++ batch).length - k = entries.length - (k - batch.length) := by
    rw [List.length_append]
    omega
  rw [lastEntries, hdrop, List.drop_append_of_le_length (Nat.sub_le _ _), lastEntries]

/-- The window over a long batch keeps none. -/
theorem lastEntries_append_of_le (entries : List α) {batch : List α} (hle : k ≤ batch.length) :
    lastEntries k (entries ++ batch) = lastEntries k batch := by
  have hdrop : (entries ++ batch).length - k = entries.length + (batch.length - k) := by
    rw [List.length_append]
    omega
  rw [lastEntries, hdrop, List.drop_append, List.drop_eq_nil_of_le (Nat.le_add_right _ _),
    List.nil_append, Nat.add_sub_cancel_left, lastEntries]

/-- What has left the window does not come back into it. -/
theorem lastEntries_lastEntries_append (entries batch : List α) :
    lastEntries k (lastEntries k entries ++ batch) = lastEntries k (entries ++ batch) := by
  by_cases hlt : batch.length < k
  · rw [lastEntries_append_of_lt _ hlt, lastEntries_append_of_lt _ hlt]
    congr 1
    rw [lastEntries, length_lastEntries, lastEntries, lastEntries, List.drop_drop]
    congr 1
    omega
  · rw [lastEntries_append_of_le _ (not_lt.mp hlt), lastEntries_append_of_le _ (not_lt.mp hlt)]

/-- A smaller window is the end of a larger one. -/
theorem lastEntries_suffix {j : ℕ} (hj : j ≤ k) (entries : List α) :
    lastEntries j entries <:+ lastEntries k entries := by
  have hdrop : entries.length - j = (entries.length - k) + (entries.length - j - (entries.length - k)) := by
    omega
  rw [lastEntries, lastEntries, hdrop, ← List.drop_drop]
  exact List.drop_suffix _ _

/-- What arrived last is in the window. -/
theorem getLast?_lastEntries (hk : 0 < k) (entries : List α) :
    (lastEntries k entries).getLast? = entries.getLast? := by
  rw [lastEntries, List.getLast?_drop]
  split_ifs with hlen
  · have hnil : entries = [] := List.eq_nil_of_length_eq_zero (by omega)
    rw [hnil]
    rfl
  · rfl

/-- In an ordered batch the first entry has the smallest key. -/
theorem Ordered.head_le {batch : List α} (h : Ordered key batch) :
    ∀ a ∈ batch.head?, ∀ b ∈ batch, key a ≤ key b := by
  cases batch with
  | nil => exact fun a ha => absurd ha (Option.not_mem_none a)
  | cons c batch =>
    intro a ha b hb
    cases ha
    rcases List.mem_cons.mp hb with rfl | hb
    · exact le_rfl
    · exact List.rel_of_pairwise_cons h hb

/-- The last entry has the largest. -/
theorem Ordered.le_getLast {batch : List α} (h : Ordered key batch) :
    ∀ b ∈ batch.getLast?, ∀ a ∈ batch, key a ≤ key b := by
  rcases List.eq_nil_or_concat batch with rfl | ⟨front, c, rfl⟩
  · exact fun b hb => absurd hb (Option.not_mem_none b)
  · rw [List.concat_eq_append] at h ⊢
    intro b hb a ha
    rw [List.getLast?_append, List.getLast?_singleton, Option.some_or] at hb
    cases hb
    rcases List.mem_append.mp ha with ha | ha
    · exact (List.pairwise_append.mp h).2.2 a ha c List.mem_cons_self
    · rw [List.mem_singleton.mp ha]

/-- What has the largest key behind a batch that comes up to it. -/
theorem greatest_append {entries batch : List α}
    (hentries : ∀ b ∈ entries.getLast?, ∀ a ∈ entries, key a ≤ key b) (hbatch : Ordered key batch)
    (hlast : ∀ b ∈ batch.getLast?, ∀ a ∈ entries, key a ≤ key b) :
    ∀ b ∈ (entries ++ batch).getLast?, ∀ a ∈ entries ++ batch, key a ≤ key b := by
  intro b hb a ha
  rw [List.getLast?_append] at hb
  cases hlastB : batch.getLast? with
  | none =>
    have hnil : batch = [] := List.getLast?_eq_none_iff.mp hlastB
    rw [hlastB, Option.none_or] at hb
    rw [hnil, List.append_nil] at ha
    exact hentries b hb a ha
  | some c =>
    rw [hlastB, Option.some_or] at hb
    cases hb
    rcases List.mem_append.mp ha with ha | ha
    · exact hlast b hlastB a ha
    · exact hbatch.le_getLast b hlastB a ha

/-- A short batch keeps the window up to date exactly if it follows what arrived
before it. -/
theorem upToDate_append_of_lt {entries batch : List α} (h : UpToDate key k entries)
    (hbatch : Ordered key batch) (hlt : batch.length < k) : UpToDate key k (entries ++ batch) ↔
      (∀ b ∈ batch.head?, ∀ a ∈ entries, key a ≤ key b) ∧ batch.Nodup ∧
        List.Disjoint batch (lastEntries (k - batch.length) entries) := by
  have hwindow := lastEntries_append_of_lt entries hlt
  have hsuffix : lastEntries (k - batch.length) entries <:+ lastEntries k entries :=
    lastEntries_suffix (Nat.sub_le _ _) entries
  constructor
  · rintro ⟨hordered, hnodup, -⟩
    rw [hwindow] at hordered hnodup
    refine ⟨fun b hb a ha => ?_, hnodup.of_append_right,
      List.disjoint_symm (List.disjoint_of_nodup_append hnodup)⟩
    obtain ⟨c, hc⟩ := Option.ne_none_iff_exists'.mp
      (mt List.getLast?_eq_none_iff.mp (List.ne_nil_of_mem ha))
    have hwithin : c ∈ lastEntries (k - batch.length) entries := by
      refine List.mem_of_getLast? ?_
      rw [getLast?_lastEntries (by omega), hc]
    exact (h.greatest c hc a ha).trans
      ((List.pairwise_append.mp hordered).2.2 c hwithin b (List.mem_of_head? hb))
  · rintro ⟨hhead, hnodup, hdisjoint⟩
    have hafter (a : α) (ha : a ∈ entries) (b : α) (hb : b ∈ batch) : key a ≤ key b := by
      obtain ⟨c, hc⟩ := Option.ne_none_iff_exists'.mp
        (mt List.head?_eq_none_iff.mp (List.ne_nil_of_mem hb))
      exact (hhead c hc a ha).trans (hbatch.head_le c hc b hb)
    refine ⟨?_, ?_, greatest_append h.greatest hbatch fun b hb a ha =>
      hafter a ha b (List.mem_of_getLast? hb)⟩
    · rw [hwindow]
      exact List.pairwise_append.mpr ⟨h.ordered.sublist hsuffix.sublist, hbatch,
        fun a ha b hb => hafter a (List.mem_of_mem_drop ha) b hb⟩
    · rw [hwindow]
      exact (h.nodup.sublist hsuffix.sublist).append hnodup (List.disjoint_symm hdisjoint)

/-- A batch keeps the window up to date exactly if it follows what arrived
before it. -/
theorem upToDate_append_iff {entries batch : List α} (h : UpToDate key k entries)
    (hbatch : Ordered key batch) : UpToDate key k (entries ++ batch) ↔ Follows key k entries batch := by
  unfold Follows
  split_ifs with hlt
  · exact upToDate_append_of_lt h hbatch hlt
  · have hwindow := lastEntries_append_of_le entries (not_lt.mp hlt)
    constructor
    · rintro ⟨-, hnodup, hgreatest⟩
      rw [hwindow] at hnodup
      refine ⟨fun b hb a ha => hgreatest b ?_ a (List.mem_append_left _ ha), hnodup⟩
      rw [List.getLast?_append, hb, Option.some_or]
      exact Option.mem_some_self b
    · rintro ⟨hlast, hnodup⟩
      refine ⟨?_, by rw [hwindow]; exact hnodup, greatest_append h.greatest hbatch hlast⟩
      rw [hwindow]
      exact hbatch.sublist (List.drop_sublist _ _)

/-- Before anything has arrived the window is up to date. -/
theorem upToDate_nil : UpToDate key k [] := by
  have hwindow : lastEntries k ([] : List α) = [] := List.drop_nil
  exact ⟨by rw [hwindow]; exact .nil, by rw [hwindow]; exact .nil,
    fun b hb => absurd hb (Option.not_mem_none b)⟩

/-- After every batch the window is up to date, exactly if each batch follows
those before it. -/
theorem upToDate_batches_iff {batches : List (List α)}
    (hordered : ∀ batch ∈ batches, Ordered key batch) :
    (∀ earlier, earlier <+: batches → UpToDate key k earlier.flatten) ↔
      ∀ earlier batch, earlier ++ [batch] <+: batches → Follows key k earlier.flatten batch := by
  have hlast {earlier : List (List α)} {batch : List α} (hfirst : earlier ++ [batch] <+: batches) :
      (earlier ++ [batch]).flatten = earlier.flatten ++ batch ∧ Ordered key batch := by
    refine ⟨by rw [List.flatten_append, List.flatten_singleton], hordered batch (hfirst.subset ?_)⟩
    exact List.mem_append_right _ List.mem_cons_self
  constructor
  · intro hall earlier batch hfirst
    obtain ⟨hflatten, hbatch⟩ := hlast hfirst
    have hbefore := hall earlier ((List.prefix_append _ _).trans hfirst)
    have hafter := hall (earlier ++ [batch]) hfirst
    rw [hflatten] at hafter
    exact (upToDate_append_iff hbefore hbatch).mp hafter
  · intro hall earlier hfirst
    induction earlier using List.reverseRecOn with
    | nil => exact upToDate_nil
    | append_singleton earlier batch ih =>
      obtain ⟨hflatten, hbatch⟩ := hlast hfirst
      rw [hflatten]
      exact (upToDate_append_iff (ih ((List.prefix_append _ _).trans hfirst)) hbatch).mpr
        (hall earlier batch hfirst)

end TelemetryPlatform.BatchedWindow
