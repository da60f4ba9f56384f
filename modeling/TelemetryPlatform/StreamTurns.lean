import Mathlib.Data.List.Induction
import Mathlib.Data.List.Perm.Subperm
import Mathlib.Data.List.Sort
import TelemetryPlatform.CallStreams

/-!
# Streams whose calls take turns

A stream of whole texts is cut into the turns of its calls: each call writes its
whole text before the next one begins, and the call behind them has written a
proper part of its text. The calls that had their turn stand in the order of
their writes.
-/

namespace TelemetryPlatform.StreamTurns

open CallStreams

variable {β : Type*} {text : ℕ → List β}

/-- A stream in which the listed calls have written their whole texts, one
after the other. -/
inductive Turns (text : ℕ → List β) : Stream β → List ℕ → Prop
  /-- Nothing is written. -/
  | nil : Turns text [] []
  /-- One more call has written its text. -/
  | turn {s : Stream β} {done : List ℕ} {c : ℕ} {own : Stream β} (hfront : Turns text s done)
      (hnew : c ∉ done) (hown : ∀ w ∈ own, w.call = c) (hne : own ≠ [])
      (htext : contents own = text c) : Turns text (s ++ own) (done ++ [c])

/-- The listed calls are the calls of the stream. -/
theorem Turns.mem_iff {s : Stream β} {done : List ℕ} (h : Turns text s done) (c : ℕ) :
    c ∈ done ↔ ∃ w ∈ s, w.call = c := by
  induction h with
  | nil => simp
  | @turn s done d own _ _ hown hne _ ih =>
    rw [List.mem_append, ih, List.mem_singleton]
    constructor
    · rintro (⟨w, hw, hcall⟩ | rfl)
      · exact ⟨w, List.mem_append_left _ hw, hcall⟩
      · obtain ⟨w, hw⟩ := List.exists_mem_of_ne_nil own hne
        exact ⟨w, List.mem_append_right _ hw, hown w hw⟩
    · rintro ⟨w, hw, rfl⟩
      rcases List.mem_append.mp hw with hw | hw
      · exact .inl ⟨w, hw, rfl⟩
      · exact .inr (hown w hw)

/-- No call has two turns. -/
theorem Turns.nodup {s : Stream β} {done : List ℕ} (h : Turns text s done) : done.Nodup := by
  induction h with
  | nil => exact .nil
  | @turn s done c own _ hnew _ _ _ ih =>
    rw [← List.concat_eq_append]
    exact (List.nodup_concat done c).mpr ⟨hnew, ih⟩

/-- The calls stand in the order of their writes. -/
theorem Turns.sublist {s : Stream β} {done : List ℕ} (h : Turns text s done) :
    done.Sublist (s.map Write.call) := by
  induction h with
  | nil => exact .slnil
  | @turn s done c own _ _ hown hne _ ih =>
    rw [List.map_append]
    obtain ⟨w, hw⟩ := List.exists_mem_of_ne_nil own hne
    refine ih.append (List.singleton_sublist.mpr ?_)
    rw [← hown w hw]
    exact List.mem_map_of_mem hw

/-- The stream is the texts of its calls. -/
theorem Turns.contents_eq {s : Stream β} {done : List ℕ} (h : Turns text s done) :
    contents s = done.flatMap text := by
  induction h with
  | nil => rfl
  | turn _ _ _ _ htext ih =>
    rw [contents, List.flatMap_append, List.flatMap_append, List.flatMap_singleton, ← htext, ← ih]
    rfl

/-- Each call has written its text. -/
theorem Turns.writtenBy_eq {s : Stream β} {done : List ℕ} (h : Turns text s done) {c : ℕ}
    (hc : c ∈ done) : writtenBy c s = text c := by
  induction h with
  | nil => exact absurd hc List.not_mem_nil
  | @turn s done d own hfront hnew hown _ htext ih =>
    rw [writtenBy_append]
    rcases List.mem_append.mp hc with hold | hlast
    · have hne : ∀ w ∈ own, w.call ≠ c := by
        intro w hw heq
        rw [hown w hw] at heq
        exact hnew (heq ▸ hold)
      rw [ih hold, writtenBy_eq_nil hne, List.append_nil]
    · obtain rfl := List.mem_singleton.mp hlast
      have hnone : writtenBy c s = [] :=
        writtenBy_eq_nil fun w hw heq => hnew ((hfront.mem_iff c).mpr ⟨w, hw, heq⟩)
      rw [hnone, List.nil_append, writtenBy_eq_contents hown, htext]

/-- Whole texts in turns, and at the end a proper part of the text of one more
call. -/
def TakesTurns (text : ℕ → List β) (s : Stream β) : Prop :=
  ∃ whole own done, s = whole ++ own ∧ Turns text whole done ∧
    (own = [] ∨ ∃ c, c ∉ done ∧ (∀ w ∈ own, w.call = c) ∧ contents own <+: text c ∧
      contents own ≠ text c)

/-- An empty stream takes turns. -/
theorem takesTurns_nil (text : ℕ → List β) : TakesTurns text [] :=
  ⟨[], [], [], rfl, .nil, .inl rfl⟩

/-- Turns depend on the texts of the calls of the stream only. -/
theorem Turns.congr {text' : ℕ → List β} {s : Stream β} {done : List ℕ} (h : Turns text s done)
    (hsame : ∀ w ∈ s, text' w.call = text w.call) : Turns text' s done := by
  induction h with
  | nil => exact .nil
  | @turn s done c own _ hnew hown hne htext ih =>
    refine .turn (ih fun w hw => hsame w (List.mem_append_left _ hw)) hnew hown hne ?_
    obtain ⟨w, hw⟩ := List.exists_mem_of_ne_nil own hne
    rw [htext, ← hown w hw, hsame w (List.mem_append_right _ hw)]

/-- So does taking turns. -/
theorem TakesTurns.congr {text' : ℕ → List β} {s : Stream β} (h : TakesTurns text s)
    (hsame : ∀ w ∈ s, text' w.call = text w.call) : TakesTurns text' s := by
  obtain ⟨whole, own, done, rfl, hturns, hrest⟩ := h
  refine ⟨whole, own, done, rfl, hturns.congr fun w hw => hsame w (List.mem_append_left _ hw), ?_⟩
  rcases hrest with hnil | ⟨c, hnew, hown, hpre, hproper⟩
  · exact .inl hnil
  · by_cases hne : own = []
    · exact .inl hne
    · obtain ⟨w, hw⟩ := List.exists_mem_of_ne_nil own hne
      have htext : text' c = text c := by
        rw [← hown w hw, hsame w (List.mem_append_right _ hw)]
      rw [← htext] at hpre hproper
      exact .inr ⟨c, hnew, hown, hpre, hproper⟩

/-- A call that goes on with its turn, or begins it. -/
theorem Turns.extend {whole own : Stream β} {done : List ℕ} {c : ℕ} {data : List β}
    (h : Turns text whole done) (hnew : c ∉ done) (hown : ∀ w ∈ own, w.call = c)
    (hpre : contents own ++ data <+: text c) : TakesTurns text (whole ++ own ++ [⟨c, data⟩]) := by
  have hmine : ∀ w ∈ own ++ [⟨c, data⟩], w.call = c := by
    intro w hw
    rcases List.mem_append.mp hw with hw | hw
    · exact hown w hw
    · rw [List.mem_singleton.mp hw]
  have hcontents : contents (own ++ [⟨c, data⟩]) = contents own ++ data := contents_snoc own _
  rw [List.append_assoc]
  by_cases hfull : contents own ++ data = text c
  · refine ⟨whole ++ (own ++ [⟨c, data⟩]), [], done ++ [c], (List.append_nil _).symm, ?_, .inl rfl⟩
    exact .turn h hnew hmine (List.concat_ne_nil _ _) (hcontents.trans hfull)
  · refine ⟨whole, own ++ [⟨c, data⟩], done, rfl, h, .inr ⟨c, hnew, hmine, ?_, ?_⟩⟩
    · rw [hcontents]
      exact hpre
    · rw [hcontents]
      exact hfull

/-- A write of a further part of a text, while all other texts in the stream
are whole, keeps the turns. -/
theorem TakesTurns.write {s : Stream β} {c : ℕ} {data : List β} (h : TakesTurns text s)
    (hne : data ≠ []) (hpre : writtenBy c s ++ data <+: text c)
    (hothers : ∀ w ∈ s, w.call ≠ c → writtenBy w.call s = text w.call) :
    TakesTurns text (s ++ [⟨c, data⟩]) := by
  obtain ⟨whole, own, done, rfl, hturns, hrest⟩ := h
  have hfront : ∀ d, d ∉ done → writtenBy d whole = [] := fun d hd =>
    writtenBy_eq_nil fun w hw heq => hd ((hturns.mem_iff d).mpr ⟨w, hw, heq⟩)
  have hlonger : ∀ pre : List β, pre = text c → ¬ pre ++ data <+: text c := by
    intro pre hfull hlong
    have hlen := hlong.length_le
    rw [List.length_append, hfull] at hlen
    exact hne (List.length_eq_zero_iff.mp (by omega))
  by_cases hown : own = []
  · subst hown
    rw [List.append_nil] at hpre hothers ⊢
    have hnew : c ∉ done := fun hc => hlonger _ (hturns.writtenBy_eq hc) hpre
    rw [hfront c hnew] at hpre
    rw [← List.append_nil whole]
    exact hturns.extend hnew (fun w hw => absurd hw List.not_mem_nil) hpre
  · obtain ⟨d, hd, hmine, -, hproper⟩ := hrest.resolve_left hown
    have hwritten : writtenBy d (whole ++ own) = contents own := by
      rw [writtenBy_append, hfront d hd, List.nil_append, writtenBy_eq_contents hmine]
    -- the unfinished call is the one that writes
    have heq : d = c := by
      by_contra hother
      obtain ⟨w, hw⟩ := List.exists_mem_of_ne_nil own hown
      have hwhole := hothers w (List.mem_append_right _ hw) (by rw [hmine w hw]; exact hother)
      rw [hmine w hw, hwritten] at hwhole
      exact hproper hwhole
    subst heq
    rw [hwritten] at hpre
    exact hturns.extend hd hmine hpre

/-- Turns of calls that come first in a stream come first in its list. -/
theorem Turns.split_front {s pre post : Stream β} {done : List ℕ} {c : ℕ} (h : Turns text s done)
    (hsplit : s = pre ++ post) (hpre : ∀ w ∈ pre, w.call = c) (hpost : ∀ w ∈ post, w.call ≠ c)
    (hc : c ∈ done) : ∃ later, done = c :: later ∧ later.Sublist (post.map Write.call) := by
  have hsub := h.sublist
  rw [hsplit, List.map_append] at hsub
  obtain ⟨front, later, rfl, hfront, hlater⟩ := List.sublist_append_iff.mp hsub
  have hsame : ∀ d ∈ front, d = c := by
    intro d hd
    obtain ⟨w, hw, rfl⟩ := List.mem_map.mp (hfront.subset hd)
    exact hpre w hw
  have hin : c ∈ front := by
    refine (List.mem_append.mp hc).resolve_right fun hmem => ?_
    obtain ⟨w, hw, hcall⟩ := List.mem_map.mp (hlater.subset hmem)
    exact hpost w hw hcall
  -- the front has no two elements
  have hfrontNodup := (List.nodup_append.mp h.nodup).1
  obtain ⟨rest, rfl⟩ : ∃ rest, front = c :: rest := by
    cases front with
    | nil => exact absurd hin List.not_mem_nil
    | cons d rest => exact ⟨rest, by rw [hsame d List.mem_cons_self]⟩
  have hnil : rest = [] := by
    refine List.eq_nil_iff_forall_not_mem.mpr fun d hd => ?_
    have heq := hsame d (List.mem_cons_of_mem _ hd)
    rw [heq] at hd
    exact (List.nodup_cons.mp hfrontNodup).1 hd
  exact ⟨later, by rw [hnil]; rfl, hlater⟩

/-- Where the calls of one kind write in the order of their numbers, their
turns come in this order. -/
theorem sorted_of_sublist {P : ℕ → Prop} [DecidablePred P] {done calls : List ℕ}
    (hsub : done.Sublist calls) (hnodup : done.Nodup)
    (hsorted : calls.Pairwise fun a b => P a → P b → a ≤ b) :
    (done.filter fun c => decide (P c)).Pairwise (· < ·) := by
  have hle : done.Pairwise fun a b => P a → P b → a ≤ b := hsorted.sublist hsub
  rw [List.pairwise_filter]
  refine (hle.and hnodup).imp fun {a b} ⟨hab, hne⟩ ha hb => ?_
  exact Nat.lt_of_le_of_ne (hab (of_decide_eq_true ha) (of_decide_eq_true hb)) hne

/-- The entries of a list in their order. -/
theorem filterMap_range {α : Type*} (xs : List α) :
    ((List.range xs.length).filterMap fun r => xs[r]?) = xs := by
  induction xs using List.reverseRecOn with
  | nil => rfl
  | append_singleton xs x ih =>
    rw [List.length_append, List.length_singleton, List.range_succ, List.filterMap_append]
    congr 1
    · refine Eq.trans (List.filterMap_congr fun r hr => ?_) ih
      exact List.getElem?_append_left (List.mem_range.mp hr)
    · simp

/-- Entries at increasing positions are a part of the list in its order. -/
theorem sublist_of_increasing {α : Type*} {xs : List α} {rs : List ℕ}
    (hsorted : rs.Pairwise (· < ·)) (hlt : ∀ r ∈ rs, r < xs.length) :
    (rs.filterMap fun r => xs[r]?).Sublist xs := by
  have hnodup : rs.Nodup := hsorted.imp Nat.ne_of_lt
  have hsubperm : rs.Subperm (List.range xs.length) :=
    hnodup.subperm fun r hr => List.mem_range.mpr (hlt r hr)
  have hsub := List.sublist_of_subperm_of_pairwise hsubperm hsorted List.pairwise_lt_range
  have hpart := hsub.filterMap fun r => xs[r]?
  rwa [filterMap_range] at hpart

end TelemetryPlatform.StreamTurns
