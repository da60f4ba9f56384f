import Mathlib.Data.List.Count
import Mathlib.Data.List.Perm.Basic
import Mathlib.Logic.Function.Basic

/-!
# Allocated blocks and who holds them

Blocks are numbered in the order of their allocation, and the memory counts
how often each of them was freed. Reading or freeing a block that is not
allocated, or no longer, is a misuse. As long as every allocated block is
either in one list of held blocks or was freed, and only once in all, nothing
that a holder does is a misuse. Who holds a block is a question of the list
alone, so handing it over is a permutation.
-/

namespace TelemetryPlatform.HeldBlocks

/-- The memory that blocks are taken from. -/
structure Blocks where
  /-- Number of blocks allocated so far. -/
  allocated : ℕ
  /-- How often each block was freed. -/
  freed : ℕ → ℕ
  /-- Whether a block was read or freed while it was not allocated. -/
  misused : Bool

/-- No block is allocated yet. -/
def Blocks.init : Blocks := ⟨0, fun _ => 0, false⟩

/-- The block may be read and freed. -/
def Blocks.live (m : Blocks) (b : ℕ) : Bool := decide (b < m.allocated ∧ m.freed b = 0)

/-- Allocate one block. -/
def Blocks.alloc (m : Blocks) : ℕ × Blocks := (m.allocated, { m with allocated := m.allocated + 1 })

/-- Read a block. -/
def Blocks.read (m : Blocks) (b : ℕ) : Blocks := { m with misused := m.misused || !m.live b }

/-- Free a block. -/
def Blocks.free (m : Blocks) (b : ℕ) : Blocks :=
  { m with freed := Function.update m.freed b (m.freed b + 1), misused := m.misused || !m.live b }

/-- Read the block behind a pointer; NULL is none. -/
def Blocks.readAt (m : Blocks) : Option ℕ → Blocks
  | none => m
  | some b => m.read b

/-- Free the block behind a pointer; nothing happens for NULL. -/
def Blocks.freeAt (m : Blocks) : Option ℕ → Blocks
  | none => m
  | some b => m.free b

/-- Every allocated block is in the list or was freed, once in all, and
nothing was misused. -/
structure Held (m : Blocks) (held : List ℕ) : Prop where
  /-- A block is held or freed, as soon as it is allocated. -/
  once : ∀ b, held.count b + m.freed b = if b < m.allocated then 1 else 0
  /-- Nothing was misused. -/
  clean : m.misused = false

variable {m : Blocks} {held held' : List ℕ} {b : ℕ}

/-- Without blocks none is held. -/
theorem held_init : Held Blocks.init [] := ⟨fun _ => rfl, rfl⟩

/-- Held blocks may be handed over in any order. -/
theorem Held.perm (h : Held m held) (hperm : held.Perm held') : Held m held' :=
  ⟨fun b => hperm.count_eq b ▸ h.once b, h.clean⟩

/-- A held block may be read and freed. -/
theorem Held.live (h : Held m held) (hb : b ∈ held) : m.live b = true := by
  have hcount : 1 ≤ held.count b := List.one_le_count_iff.mpr hb
  have honce := h.once b
  refine decide_eq_true ?_
  split_ifs at honce with hlt
  · exact ⟨hlt, by omega⟩
  · omega

/-- No block is freed twice. -/
theorem Held.freed_le_one (h : Held m held) (b : ℕ) : m.freed b ≤ 1 := by
  have honce := h.once b
  split_ifs at honce <;> omega

/-- Once nothing is held, every block that was allocated was freed. -/
theorem Held.freed_eq_one (h : Held m []) (hb : b < m.allocated) : m.freed b = 1 := by
  have honce := h.once b
  rw [List.count_nil, if_pos hb] at honce
  omega

/-- An allocated block is held by its allocator. -/
theorem Held.alloc (h : Held m held) : Held m.alloc.2 (m.alloc.1 :: held) := by
  refine ⟨fun b => ?_, h.clean⟩
  have honce := h.once b
  show (m.allocated :: held).count b + m.freed b = if b < m.allocated + 1 then 1 else 0
  rw [List.count_cons]
  by_cases hb : b = m.allocated
  · subst hb
    rw [if_neg (Nat.lt_irrefl _)] at honce
    rw [if_pos (beq_self_eq_true _), if_pos (Nat.lt_succ_self _)]
    omega
  · rw [if_neg (by simpa using Ne.symm hb)]
    split_ifs at honce ⊢ <;> omega

/-- Reading a held block is no misuse. -/
theorem Held.read (h : Held m held) (hb : b ∈ held) : Held (m.read b) held := by
  refine ⟨h.once, ?_⟩
  show (m.misused || !m.live b) = false
  rw [h.clean, h.live hb]
  rfl

/-- Freeing a held block is no misuse, and the block is held no more. -/
theorem Held.free (h : Held m (b :: held)) : Held (m.free b) held := by
  refine ⟨fun c => ?_, ?_⟩
  · have honce := h.once c
    show held.count c + Function.update m.freed b (m.freed b + 1) c = _
    rw [List.count_cons] at honce
    rw [← show m.allocated = (m.free b).allocated from rfl, ← honce]
    by_cases hc : c = b
    · subst hc
      rw [Function.update_self, if_pos (beq_self_eq_true _)]
      omega
    · rw [Function.update_of_ne hc, if_neg (by simpa using Ne.symm hc)]
      rfl
  · show (m.misused || !m.live b) = false
    rw [h.clean, h.live List.mem_cons_self]
    rfl

/-- Reading behind a pointer whose block is held. -/
theorem Held.readAt {p : Option ℕ} (h : Held m held) (hp : ∀ b ∈ p, b ∈ held) :
    Held (m.readAt p) held := by
  cases p with
  | none => exact h
  | some b => exact h.read (hp b rfl)

/-- Freeing behind a pointer whose block is held. -/
theorem Held.freeAt {p : Option ℕ} (h : Held m (p.toList ++ held)) : Held (m.freeAt p) held := by
  cases p with
  | none => exact h
  | some b => exact h.free

end TelemetryPlatform.HeldBlocks
