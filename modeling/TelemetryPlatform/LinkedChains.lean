import Mathlib.Data.Fintype.Card
import Mathlib.Data.List.Nodup
import Mathlib.Logic.Function.Basic

/-!
# Chains of nodes in a heap

A heap maps addresses to nodes that hold a value and the address of the next
node. A segment lists the addresses and values that are met on the way from one
address to another, so a list of values can be read from linked memory, split
and extended without following the pointers again.
-/

namespace TelemetryPlatform.LinkedChains

variable {α σ : Type*}

/-- A node: a value and the address of the next node. -/
structure Node (α σ : Type*) where
  /-- The stored value. -/
  value : σ
  /-- Address of the next node. -/
  next : α

/-- The allocated nodes. -/
abbrev NodeHeap (α σ : Type*) := α → Option (Node α σ)

/-- The cells on the way from the first address to the last one. -/
def Segment (heap : NodeHeap α σ) : α → List (α × σ) → α → Prop
  | a, [], b => a = b
  | a, (c, v) :: rest, b => a = c ∧ ∃ next, heap c = some ⟨v, next⟩ ∧ Segment heap next rest b

variable {heap heap' : NodeHeap α σ} {a b c : α} {v : σ} {cells front back : List (α × σ)}

/-- A segment is cut at any of its cells. -/
theorem segment_append :
    Segment heap a (front ++ back) c ↔ ∃ b, Segment heap a front b ∧ Segment heap b back c := by
  induction front generalizing a with
  | nil => simp [Segment]
  | cons cell rest ih =>
    obtain ⟨d, w⟩ := cell
    simp only [List.cons_append, Segment, ih]
    constructor
    · rintro ⟨rfl, next, hnode, b, hfront, hback⟩
      exact ⟨b, ⟨rfl, next, hnode, hfront⟩, hback⟩
    · rintro ⟨b, ⟨rfl, next, hnode, hfront⟩, hback⟩
      exact ⟨rfl, next, hnode, b, hfront, hback⟩

/-- A segment of one cell. -/
theorem segment_singleton :
    Segment heap a [(c, v)] b ↔ a = c ∧ heap c = some ⟨v, b⟩ := by
  simp only [Segment]
  constructor
  · rintro ⟨rfl, next, hnode, rfl⟩
    exact ⟨rfl, hnode⟩
  · rintro ⟨rfl, hnode⟩
    exact ⟨rfl, b, hnode, rfl⟩

/-- A segment depends on nothing but its own nodes. -/
theorem Segment.frame (h : Segment heap a cells b)
    (hsame : ∀ c ∈ cells.map Prod.fst, heap' c = heap c) : Segment heap' a cells b := by
  induction cells generalizing a with
  | nil => exact h
  | cons cell rest ih =>
    obtain ⟨d, w⟩ := cell
    obtain ⟨rfl, next, hnode, hrest⟩ := h
    refine ⟨rfl, next, ?_, ih hrest fun c hc => hsame c (List.mem_cons_of_mem _ hc)⟩
    rw [hsame a List.mem_cons_self]
    exact hnode

/-- The cells of a segment are allocated. -/
theorem Segment.allocated (h : Segment heap a cells b) (hc : c ∈ cells.map Prod.fst) :
    heap c ≠ none := by
  induction cells generalizing a with
  | nil => exact absurd hc List.not_mem_nil
  | cons cell rest ih =>
    obtain ⟨d, w⟩ := cell
    obtain ⟨rfl, next, hnode, hrest⟩ := h
    rcases List.mem_cons.mp hc with rfl | hc
    · rw [hnode]
      exact Option.some_ne_none _
    · exact ih hrest hc

/-- Different addresses other than one reserved address are fewer than all. -/
theorem length_lt_card [Fintype α] {nil : α} {addresses : List α} (hnodup : addresses.Nodup)
    (hnil : nil ∉ addresses) : addresses.length < Fintype.card α :=
  List.Nodup.length_le_card (List.nodup_cons.mpr ⟨hnil, hnodup⟩)

variable [DecidableEq α]

/-- A fresh node is linked behind the last cell of a segment. -/
theorem Segment.link (h : Segment heap a (front ++ [(c, v)]) b) {n : α} {w : σ} {nil : α}
    (hfresh : heap n = none) (hnodup : ((front ++ [(c, v)]).map Prod.fst).Nodup) :
    Segment (Function.update (Function.update heap n (some ⟨w, nil⟩)) c (some ⟨v, n⟩)) a
      (front ++ [(c, v)] ++ [(n, w)]) nil := by
  have hne : n ≠ c := by
    rintro rfl
    exact h.allocated (by simp) hfresh
  obtain ⟨d, hfront, hlast⟩ := segment_append.mp h
  obtain ⟨rfl, -⟩ := segment_singleton.mp hlast
  have hapart : d ∉ front.map Prod.fst := by
    rw [List.map_append] at hnodup
    intro hd
    exact (List.nodup_append.mp hnodup).2.2 d hd d List.mem_cons_self rfl
  rw [segment_append]
  refine ⟨n, segment_append.mpr ⟨d, hfront.frame fun c hc => ?_, ?_⟩, ?_⟩
  · have hnc : c ≠ n := by
      rintro rfl
      exact hfront.allocated hc hfresh
    have hdc : c ≠ d := by
      rintro rfl
      exact hapart hc
    rw [Function.update_of_ne hdc, Function.update_of_ne hnc]
  · exact segment_singleton.mpr ⟨rfl, Function.update_self _ _ _⟩
  · refine segment_singleton.mpr ⟨rfl, ?_⟩
    rw [Function.update_of_ne hne, Function.update_self]

/-- Freeing the first cell of a segment leaves the rest of it. -/
theorem Segment.unlink (h : Segment heap a ((c, v) :: cells) b)
    (hnodup : (((c, v) :: cells).map Prod.fst).Nodup) :
    ∃ next, heap a = some ⟨v, next⟩ ∧ Segment (Function.update heap a none) next cells b := by
  obtain ⟨rfl, next, hnode, hrest⟩ := h
  refine ⟨next, hnode, hrest.frame fun d hd => Function.update_of_ne ?_ _ _⟩
  rintro rfl
  exact (List.nodup_cons.mp hnodup).1 hd

end TelemetryPlatform.LinkedChains
