import Mathlib.Data.List.Basic
import Mathlib.Data.List.Induction
import Mathlib.Data.List.Nodup
import Mathlib.Data.List.Perm.Basic
import Mathlib.Order.Lattice

/-!
# The window of the largest keys

A list in the order of arrival is arranged by descending keys, equal keys in
any order, and the first entries are kept and reversed. For every arrangement
this is the window of the last arrivals exactly when each entry of that window
has a larger key than all entries before it.
-/

namespace TelemetryPlatform.KeyedWindow

variable {α κ : Type*} [LinearOrder κ]

/-- An arrangement of the entries by descending keys. -/
structure Arrangement (key : α → κ) (entries sorted : List α) : Prop where
  /-- The same entries, each as often. -/
  perm : sorted.Perm entries
  /-- Keys never increase. -/
  descending : sorted.Pairwise fun a b => key b ≤ key a

/-- The last entries in the order of arrival. -/
def lastEntries (n : ℕ) (entries : List α) : List α := entries.drop (entries.length - n)

/-- The entries before the last ones. -/
def earlierEntries (n : ℕ) (entries : List α) : List α := entries.take (entries.length - n)

/-- Each of the last entries has a larger key than all entries before it. -/
structure LastDominate (key : α → κ) (n : ℕ) (entries : List α) : Prop where
  /-- The last entries against the earlier ones. -/
  earlier : ∀ a ∈ earlierEntries n entries, ∀ b ∈ lastEntries n entries, key a < key b
  /-- The last entries among themselves. -/
  increasing : (lastEntries n entries).Pairwise fun a b => key a < key b

/-- Earlier and last entries together are all entries. -/
theorem earlierEntries_append_lastEntries (n : ℕ) (entries : List α) :
    earlierEntries n entries ++ lastEntries n entries = entries :=
  List.take_append_drop _ _

/-- There are as many last entries as asked for, or all. -/
theorem length_lastEntries (n : ℕ) (entries : List α) :
    (lastEntries n entries).length = min n entries.length := by
  rw [lastEntries, List.length_drop]
  omega

/-- The order of descending keys. -/
def keyGe (key : α → κ) (a b : α) : Bool := decide (key b ≤ key a)

/-- The order of descending keys is transitive. -/
theorem keyGe_trans (key : α → κ) (a b c : α) (hab : keyGe key a b = true)
    (hbc : keyGe key b c = true) : keyGe key a c = true :=
  decide_eq_true (le_trans (of_decide_eq_true hbc) (of_decide_eq_true hab))

/-- The order of descending keys compares any two entries. -/
theorem keyGe_total (key : α → κ) (a b : α) : (keyGe key a b || keyGe key b a) = true := by
  rw [keyGe, keyGe, Bool.or_eq_true, decide_eq_true_iff, decide_eq_true_iff]
  exact le_total _ _

/-- The arrangement that a stable sort makes. -/
theorem arrangement_mergeSort (key : α → κ) (entries : List α) :
    Arrangement key entries (entries.mergeSort (keyGe key)) := by
  constructor
  · exact List.mergeSort_perm _ _
  · have hsorted := List.pairwise_mergeSort (keyGe_trans key) (keyGe_total key) entries
    exact hsorted.imp fun h => of_decide_eq_true h

/-- An entry whose key is larger than all others comes first. -/
theorem Arrangement.cons_of_max {key : α → κ} {entries sorted : List α} {top : α}
    (h : Arrangement key (entries ++ [top]) sorted) (htop : ∀ a ∈ entries, key a < key top) :
    ∃ rest, sorted = top :: rest ∧ Arrangement key entries rest := by
  have hmem : top ∈ sorted := h.perm.mem_iff.mpr (by simp)
  cases sorted with
  | nil => exact absurd hmem List.not_mem_nil
  | cons head rest =>
    have hhead : head = top := by
      rcases List.mem_cons.mp hmem with heq | hrest
      · exact heq.symm
      · have hle : key top ≤ key head := List.rel_of_pairwise_cons h.descending hrest
        have hin : head ∈ entries ++ [top] := h.perm.mem_iff.mp List.mem_cons_self
        rcases List.mem_append.mp hin with hold | hlast
        · exact absurd (htop head hold) (not_lt.mpr hle)
        · exact List.mem_singleton.mp hlast
    subst hhead
    refine ⟨rest, rfl, ?_, h.descending.tail⟩
    have hperm : (head :: rest).Perm (head :: entries) :=
      h.perm.trans (List.perm_append_singleton head entries)
    exact hperm.cons_inv

/-- A dominating tail is the reversed front of every arrangement. -/
theorem Arrangement.take_eq_of_dominate {key : α → κ} {earlier last sorted : List α}
    (h : Arrangement key (earlier ++ last) sorted)
    (hearlier : ∀ a ∈ earlier, ∀ b ∈ last, key a < key b)
    (hincreasing : last.Pairwise fun a b => key a < key b) :
    sorted.take last.length = last.reverse := by
  induction last using List.reverseRecOn generalizing sorted with
  | nil => rfl
  | append_singleton front top ih =>
    rw [List.pairwise_append] at hincreasing
    obtain ⟨hfront, -, hcross⟩ := hincreasing
    rw [← List.append_assoc] at h
    obtain ⟨rest, rfl, hrest⟩ := h.cons_of_max fun a ha => by
      rcases List.mem_append.mp ha with hold | hin
      · exact hearlier a hold top (by simp)
      · exact hcross a hin top (by simp)
    have htake := ih hrest (fun a ha b hb => hearlier a ha b (List.mem_append_left _ hb)) hfront
    rw [List.length_append, List.length_singleton, List.take_succ_cons, htake,
      List.reverse_append, List.reverse_singleton, List.singleton_append]

/-- In a list without repetitions two entries stand in one order only. -/
theorem not_pair_sublist_both {entries : List α} (hnodup : entries.Nodup) {a b : α}
    (hab : [a, b].Sublist entries) : ¬ [b, a].Sublist entries := by
  intro hba
  induction entries with
  | nil => exact absurd hab.length_le (by simp)
  | cons x rest ih =>
    obtain ⟨hx, hrest⟩ := List.nodup_cons.mp hnodup
    rcases List.sublist_cons_iff.mp hab with hab' | ⟨r, hr, hab'⟩
    · rcases List.sublist_cons_iff.mp hba with hba' | ⟨r, hr, hba'⟩
      · exact ih hrest hab' hba'
      · cases hr
        exact hx (hab'.subset (by simp))
    · cases hr
      rcases List.sublist_cons_iff.mp hba with hba' | ⟨r, hr, hba'⟩
      · exact hx (hba'.subset (by simp))
      · cases hr
        exact hx (hab'.subset (by simp))

/-- An entry kept in the front keeps the entries before it. -/
theorem pair_sublist_take {sorted : List α} (hnodup : sorted.Nodup) {a b : α} {n : ℕ}
    (hab : [a, b].Sublist sorted) (hb : b ∈ sorted.take n) : [a, b].Sublist (sorted.take n) := by
  induction sorted generalizing n with
  | nil => exact absurd hab.length_le (by simp)
  | cons x rest ih =>
    obtain ⟨hx, hrest⟩ := List.nodup_cons.mp hnodup
    cases n with
    | zero => exact absurd hb (by simp)
    | succ n =>
      rw [List.take_succ_cons] at hb ⊢
      rcases List.sublist_cons_iff.mp hab with hab' | ⟨r, hr, hab'⟩
      · have hne : b ≠ x := fun heq => hx (heq ▸ hab'.subset (by simp))
        exact (ih hrest hab' ((List.mem_cons.mp hb).resolve_left hne)).cons x
      · cases hr
        have hne : b ≠ a := fun heq => hx (heq ▸ hab'.subset (by simp))
        exact (List.singleton_sublist.mpr ((List.mem_cons.mp hb).resolve_left hne)).cons_cons a

/-- An entry of the window and an earlier arrival with no smaller key: a
stable arrangement keeps them in the order of arrival, so their reversal is not
the window. -/
theorem key_lt_of_window {key : α → κ} {n : ℕ} {entries : List α} (hnodup : entries.Nodup)
    (hwindow : ∀ sorted, Arrangement key entries sorted →
      (sorted.take n).reverse = lastEntries n entries)
    {a b : α} (hab : [a, b].Sublist entries) (hb : b ∈ lastEntries n entries) :
    key a < key b := by
  by_contra hcon
  have hle : key b ≤ key a := not_lt.mp hcon
  have hstable : [a, b].Sublist (entries.mergeSort (keyGe key)) :=
    List.pair_sublist_mergeSort (keyGe_trans key) (keyGe_total key) (decide_eq_true hle) hab
  have harranged := arrangement_mergeSort key entries
  have hlast := hwindow _ harranged
  generalize entries.mergeSort (keyGe key) = sorted at hstable harranged hlast
  have htake : [a, b].Sublist (sorted.take n) :=
    pair_sublist_take (harranged.perm.nodup_iff.mpr hnodup) hstable
      (List.mem_reverse.mp (hlast ▸ hb))
  have hback : [b, a].Sublist (lastEntries n entries) := by
    rw [← hlast]
    exact htake.reverse
  exact not_pair_sublist_both hnodup hab (hback.trans (List.drop_sublist _ _))

/-- For every arrangement the reversed front is the window of the last
arrivals, exactly when these dominate all entries before them. -/
theorem window_eq_lastEntries_iff {key : α → κ} {n : ℕ} {entries : List α}
    (hnodup : entries.Nodup) :
    (∀ sorted, Arrangement key entries sorted →
        (sorted.take n).reverse = lastEntries n entries) ↔ LastDominate key n entries := by
  constructor
  · intro hwindow
    have hsplit := earlierEntries_append_lastEntries n entries
    constructor
    · intro a ha b hb
      refine key_lt_of_window hnodup hwindow ?_ hb
      rw [← hsplit]
      exact (List.singleton_sublist.mpr ha).append (List.singleton_sublist.mpr hb)
    · refine List.pairwise_iff_forall_sublist.mpr fun {a b} hab => ?_
      exact key_lt_of_window hnodup hwindow (hab.trans (List.drop_sublist _ _))
        (hab.subset (by simp))
  · intro hdominate sorted hsorted
    rw [← earlierEntries_append_lastEntries n entries] at hsorted
    have htake := hsorted.take_eq_of_dominate hdominate.earlier hdominate.increasing
    have hlength : sorted.length = entries.length := by
      rw [hsorted.perm.length_eq, earlierEntries_append_lastEntries]
    have hsame : sorted.take n = sorted.take (lastEntries n entries).length := by
      rw [length_lastEntries, List.take_eq_take_iff]
      omega
    rw [hsame, htake, List.reverse_reverse]

end TelemetryPlatform.KeyedWindow
