import Mathlib.Algebra.Group.Nat.Defs
import TelemetryPlatform.LinkedChains

/-!
# The sample queue in linked memory

The gateway keeps received samples in a linked queue with a head, a tail and
two length counters. Pushing and popping follow and change the pointers as the
source does; each of them is one critical section. A queue holds a list of
cells, pushing appends to that list and popping takes from its front.
-/

namespace TelemetryPlatform.SampleQueue

open LinkedChains

/-- A pointer; zero is NULL. -/
abbrev Addr := BitVec 64

variable {σ : Type*}

/-- The queue fields of the gateway with the nodes in memory. -/
structure Queue (σ : Type*) where
  /-- The allocated nodes. -/
  nodes : NodeHeap Addr σ
  /-- First node. -/
  qHead : Addr
  /-- Last node. -/
  qTail : Addr
  /-- Number of nodes. -/
  qLen : BitVec 64
  /-- Largest number of nodes so far. -/
  qLenMax : BitVec 64

/-- The zeroed queue. -/
def Queue.init : Queue σ := ⟨fun _ => none, 0, 0, 0, 0⟩

/-- Append a sample in a node that was just allocated. An access to memory
that is not allocated gives none. -/
def queuePush (q : Queue σ) (n : Addr) (s : σ) : Option (Queue σ) :=
  let nodes := Function.update q.nodes n (some ⟨s, 0⟩)
  let linked : Option (NodeHeap Addr σ × Addr) :=
    if q.qTail ≠ 0 then
      (nodes q.qTail).map fun last =>
        (Function.update nodes q.qTail (some { last with next := n }), q.qHead)
    else some (nodes, n)
  linked.map fun (nodes, head) =>
    { nodes := nodes
      qHead := head
      qTail := n
      qLen := q.qLen + 1
      qLenMax := if q.qLenMax < q.qLen + 1 then q.qLen + 1 else q.qLenMax }

/-- The queue after its first node, which links to the given one, is freed. -/
def Queue.dropHead (q : Queue σ) (next : Addr) : Queue σ :=
  { q with
    nodes := Function.update q.nodes q.qHead none
    qHead := next
    qTail := if next = 0 then 0 else q.qTail
    qLen := q.qLen - 1 }

/-- Pop at most the given number of samples, freeing their nodes. -/
def queuePopBatch : ℕ → Queue σ → Option (List σ × Queue σ)
  | 0, q => some ([], q)
  | max + 1, q =>
    if q.qHead = 0 then some ([], q)
    else
      match q.nodes q.qHead with
      | none => none
      | some node =>
        (queuePopBatch max (q.dropHead node.next)).map fun (out, q') => (node.value :: out, q')

/-- The last address of some cells, NULL without any. -/
def lastAddr (cells : List (Addr × σ)) : Addr := ((cells.map Prod.fst).getLast?).getD 0

/-- The queue holds these cells from its head to its tail. -/
structure Queue.Holds (q : Queue σ) (cells : List (Addr × σ)) : Prop where
  /-- The nodes are linked in this order. -/
  segment : Segment q.nodes q.qHead cells 0
  /-- No node is met twice. -/
  nodup : (cells.map Prod.fst).Nodup
  /-- No node lies at NULL. -/
  nonnull : 0 ∉ cells.map Prod.fst
  /-- The tail is the last node. -/
  tail : q.qTail = lastAddr cells
  /-- The length field counts the nodes. -/
  len : q.qLen = BitVec.ofNat 64 cells.length

/-- There are fewer nodes than addresses. -/
theorem Queue.Holds.length_lt {q : Queue σ} {cells : List (Addr × σ)} (h : q.Holds cells) :
    cells.length < 2 ^ 64 := by
  have hnodup : ((cells.map Prod.fst).map BitVec.toFin).Nodup :=
    h.nodup.map fun x y hxy => BitVec.eq_of_toFin_eq hxy
  have hnull : (0 : BitVec 64).toFin ∉ (cells.map Prod.fst).map BitVec.toFin := by
    intro hmem
    obtain ⟨x, hx, heq⟩ := List.mem_map.mp hmem
    exact h.nonnull (BitVec.eq_of_toFin_eq heq ▸ hx)
  have hlt := length_lt_card hnodup hnull
  simpa using hlt

/-- The length field is the number of nodes. -/
theorem Queue.Holds.len_toNat {q : Queue σ} {cells : List (Addr × σ)} (h : q.Holds cells) :
    q.qLen.toNat = cells.length := by
  rw [h.len, BitVec.toNat_ofNat, Nat.mod_eq_of_lt h.length_lt]

/-- The head is NULL exactly for the empty queue. -/
theorem Queue.Holds.head_eq_zero_iff {q : Queue σ} {cells : List (Addr × σ)} (h : q.Holds cells) :
    q.qHead = 0 ↔ cells = [] := by
  cases cells with
  | nil => exact iff_of_true h.segment rfl
  | cons cell rest =>
    obtain ⟨c, v⟩ := cell
    obtain ⟨hhead, -⟩ := h.segment
    refine iff_of_false (fun hzero => h.nonnull ?_) (List.cons_ne_nil _ _)
    rw [← hzero, hhead]
    exact List.mem_cons_self

/-- The tail is NULL exactly for the empty queue. -/
theorem Queue.Holds.tail_eq_zero_iff {q : Queue σ} {cells : List (Addr × σ)} (h : q.Holds cells) :
    q.qTail = 0 ↔ cells = [] := by
  rw [h.tail]
  rcases List.eq_nil_or_concat cells with rfl | ⟨front, ⟨c, v⟩, rfl⟩
  · exact iff_of_true rfl rfl
  · have hlast : lastAddr (front.concat (c, v)) = c := by simp [lastAddr]
    refine iff_of_false (fun hzero => h.nonnull ?_) (by simp)
    rw [← hzero, hlast]
    simp

/-- The queue after a push that left this memory with this head. -/
def Queue.pushed (q : Queue σ) (nodes : NodeHeap Addr σ) (head n : Addr) : Queue σ where
  nodes := nodes
  qHead := head
  qTail := n
  qLen := q.qLen + 1
  qLenMax := if q.qLenMax < q.qLen + 1 then q.qLen + 1 else q.qLenMax

/-- Pushing on the empty queue. -/
theorem queuePush_empty {q : Queue σ} (hempty : q.qTail = 0) (n : Addr) (s : σ) :
    queuePush q n s = some (q.pushed (Function.update q.nodes n (some ⟨s, 0⟩)) n n) := by
  unfold queuePush
  dsimp only
  rw [if_neg (not_not_intro hempty)]
  rfl

/-- Pushing behind the last node. -/
theorem queuePush_linked {q : Queue σ} {n : Addr} {v : σ} (hne : q.qTail ≠ 0) (hapart : q.qTail ≠ n)
    (hnode : q.nodes q.qTail = some ⟨v, 0⟩) (s : σ) :
    queuePush q n s = some (q.pushed (Function.update (Function.update q.nodes n (some ⟨s, 0⟩))
      q.qTail (some ⟨v, n⟩)) q.qHead n) := by
  unfold queuePush
  dsimp only
  rw [if_pos hne, Function.update_of_ne hapart, hnode]
  rfl

/-- Pushing touches allocated memory only and appends the sample. -/
theorem Queue.Holds.push {q : Queue σ} {cells : List (Addr × σ)} (h : q.Holds cells) {n : Addr}
    (hnull : n ≠ 0) (hfresh : q.nodes n = none) (s : σ) :
    ∃ q', queuePush q n s = some q' ∧ q'.Holds (cells ++ [(n, s)]) ∧
      q'.qLenMax = if q.qLenMax < q'.qLen then q'.qLen else q.qLenMax := by
  have hnew : n ∉ cells.map Prod.fst := fun hn => h.segment.allocated hn hfresh
  have hlen : q.qLen + 1 = BitVec.ofNat 64 (cells ++ [(n, s)]).length := by
    rw [h.len, List.length_append, List.length_singleton, BitVec.ofNat_add]
    rfl
  have hnodup : ((cells ++ [(n, s)]).map Prod.fst).Nodup := by
    rw [List.map_append]
    exact h.nodup.append (List.nodup_singleton n) (List.disjoint_singleton.mpr hnew)
  have hnonnull : 0 ∉ (cells ++ [(n, s)]).map Prod.fst := by
    rw [List.map_append, List.mem_append, not_or]
    exact ⟨h.nonnull, fun hz => hnull (List.mem_singleton.mp hz).symm⟩
  have htail : n = lastAddr (cells ++ [(n, s)]) := by simp [lastAddr]
  rcases List.eq_nil_or_concat cells with rfl | ⟨front, ⟨c, v⟩, rfl⟩
  · -- the queue is empty, and the node becomes its head
    have hempty : q.qTail = 0 := h.tail_eq_zero_iff.mpr rfl
    refine ⟨_, queuePush_empty hempty n s, ⟨?_, hnodup, hnonnull, htail, hlen⟩, rfl⟩
    exact segment_singleton.mpr ⟨rfl, Function.update_self _ _ _⟩
  · -- the node is linked behind the last one
    rw [List.concat_eq_append] at *
    have hlast : q.qTail = c := by simp [h.tail, lastAddr]
    have hne : q.qTail ≠ 0 := mt h.tail_eq_zero_iff.mp (by simp)
    obtain ⟨d, -, hback⟩ := segment_append.mp h.segment
    obtain ⟨rfl, hnode⟩ := segment_singleton.mp hback
    rw [← hlast] at hnode
    have hapart : q.qTail ≠ n := by
      rintro rfl
      rw [hnode] at hfresh
      cases hfresh
    refine ⟨_, queuePush_linked hne hapart hnode s, ⟨?_, hnodup, hnonnull, htail, hlen⟩, rfl⟩
    rw [hlast]
    exact h.segment.link hfresh h.nodup

/-- Freeing the first node leaves the queue of the other cells. -/
theorem Queue.Holds.dropHead {q : Queue σ} {cell : Addr × σ} {rest : List (Addr × σ)}
    (h : q.Holds (cell :: rest)) :
    ∃ next, q.nodes q.qHead = some ⟨cell.2, next⟩ ∧ (q.dropHead next).Holds rest := by
  obtain ⟨next, hnode, hsegment⟩ := h.segment.unlink h.nodup
  have hnonnull : 0 ∉ rest.map Prod.fst := fun hz => h.nonnull (List.mem_cons_of_mem _ hz)
  refine ⟨next, hnode, hsegment, (List.nodup_cons.mp h.nodup).2, hnonnull, ?_, ?_⟩
  · have htail := h.tail
    cases rest with
    | nil =>
      have hnext : next = 0 := hsegment
      exact if_pos hnext
    | cons cell' rest =>
      obtain ⟨hnext, -⟩ := hsegment
      have hnz : next ≠ 0 := by
        rintro rfl
        exact hnonnull (hnext ▸ List.mem_cons_self)
      exact (if_neg hnz).trans htail
  · have hlen : q.qLen = BitVec.ofNat 64 rest.length + 1 := by
      rw [h.len, List.length_cons, BitVec.ofNat_add]
      rfl
    rw [Queue.dropHead, hlen, BitVec.add_sub_cancel]

/-- Popping touches allocated memory only and takes the first samples. -/
theorem Queue.Holds.pop {q : Queue σ} {cells : List (Addr × σ)} (h : q.Holds cells) (max : ℕ) :
    ∃ q', queuePopBatch max q = some ((cells.take max).map Prod.snd, q') ∧
      q'.Holds (cells.drop max) ∧ q'.qLenMax = q.qLenMax := by
  induction max generalizing q cells with
  | zero => exact ⟨q, rfl, h, rfl⟩
  | succ max ih =>
    cases cells with
    | nil =>
      have hempty : q.qHead = 0 := h.head_eq_zero_iff.mpr rfl
      exact ⟨q, if_pos hempty, h, rfl⟩
    | cons cell rest =>
      have hne : q.qHead ≠ 0 := mt h.head_eq_zero_iff.mp (List.cons_ne_nil _ _)
      obtain ⟨next, hnode, hdrop⟩ := h.dropHead
      obtain ⟨q', hpop, hholds, hmax⟩ := ih hdrop
      refine ⟨q', ?_, hholds, hmax⟩
      rw [queuePopBatch, if_neg hne, hnode]
      dsimp only
      rw [hpop]
      rfl

/-- The queue holds these cells, and no other node is allocated. -/
structure Queue.Owns (q : Queue σ) (cells : List (Addr × σ)) : Prop extends q.Holds cells where
  /-- Every allocated node is one of the cells. -/
  only : ∀ n, q.nodes n ≠ none → n ∈ cells.map Prod.fst

/-- Pushing allocates no node but its own. -/
theorem queuePush_only {q q' : Queue σ} {n m : Addr} {s : σ} (hpush : queuePush q n s = some q')
    (hm : q'.nodes m ≠ none) : m = n ∨ q.nodes m ≠ none := by
  by_cases hmn : m = n
  · exact .inl hmn
  refine .inr ?_
  by_cases htail : q.qTail = 0
  · rw [queuePush_empty htail] at hpush
    cases hpush
    dsimp only [Queue.pushed] at hm
    rwa [Function.update_of_ne hmn] at hm
  · unfold queuePush at hpush
    dsimp only at hpush
    rw [if_pos htail] at hpush
    obtain ⟨⟨nodes, head⟩, hlinked, hq'⟩ := Option.map_eq_some_iff.mp hpush
    obtain ⟨last, hlast, heq⟩ := Option.map_eq_some_iff.mp hlinked
    cases heq
    cases hq'
    -- the last node was allocated before it was linked
    by_cases hmt : m = q.qTail
    · subst hmt
      rw [Function.update_of_ne hmn] at hlast
      rw [hlast]
      exact Option.some_ne_none _
    · dsimp only at hm
      rwa [Function.update_of_ne hmt, Function.update_of_ne hmn] at hm

/-- Pushing owns one more cell. -/
theorem Queue.Owns.push {q q' : Queue σ} {cells : List (Addr × σ)} (h : q.Owns cells) {n : Addr}
    (hnull : n ≠ 0) (hfresh : q.nodes n = none) {s : σ} (hpush : queuePush q n s = some q') :
    q'.Owns (cells ++ [(n, s)]) := by
  obtain ⟨q'', hpush', hholds, -⟩ := h.toHolds.push hnull hfresh s
  cases hpush.symm.trans hpush'
  refine ⟨hholds, fun m hm => ?_⟩
  rw [List.map_append, List.mem_append]
  rcases queuePush_only hpush hm with rfl | hm
  · exact .inr List.mem_cons_self
  · exact .inl (h.only m hm)

/-- Popping frees the nodes of the popped cells. -/
theorem Queue.Owns.pop {q q' : Queue σ} {cells : List (Addr × σ)} (h : q.Owns cells) {max : ℕ}
    {out : List σ} (hpop : queuePopBatch max q = some (out, q')) :
    out = (cells.take max).map Prod.snd ∧ q'.Owns (cells.drop max) := by
  induction max generalizing q cells out with
  | zero =>
    cases hpop
    exact ⟨rfl, h⟩
  | succ max ih =>
    cases cells with
    | nil =>
      rw [queuePopBatch, if_pos (h.head_eq_zero_iff.mpr rfl)] at hpop
      cases hpop
      exact ⟨rfl, h⟩
    | cons cell rest =>
      have hne : q.qHead ≠ 0 := mt h.head_eq_zero_iff.mp (List.cons_ne_nil _ _)
      obtain ⟨next, hnode, hdrop⟩ := h.toHolds.dropHead
      have howns : (q.dropHead next).Owns rest := by
        refine ⟨hdrop, fun m hm => ?_⟩
        by_cases hmh : m = q.qHead
        · exact absurd (by rw [hmh]; exact Function.update_self _ _ _) hm
        · have hold : q.nodes m ≠ none := by
            dsimp only [Queue.dropHead] at hm
            rwa [Function.update_of_ne hmh] at hm
          rcases List.mem_cons.mp (h.only m hold) with heq | hmem
          · exact absurd (heq.trans h.segment.1.symm) hmh
          · exact hmem
      rw [queuePopBatch, if_neg hne, hnode] at hpop
      obtain ⟨⟨out', q''⟩, hrest, heq⟩ := Option.map_eq_some_iff.mp hpop
      cases heq
      obtain ⟨rfl, hq''⟩ := ih howns hrest
      exact ⟨rfl, hq''⟩

end TelemetryPlatform.SampleQueue
