import Mathlib.Data.List.TakeDrop

/-!
# Compressing a stream block by block

A message is compressed in blocks of one size, from the front, as long as a
whole block is there. Compressing it in two parts gives the same state, provided
that what the first part leaves over is put in front of the second one.
-/

namespace TelemetryPlatform.BlockStreams

variable {α σ : Type*} (size : ℕ) (compress : σ → List α → σ)

/-- Compress a number of blocks. -/
def absorbBlocks : ℕ → σ → List α → σ
  | 0, s, _ => s
  | n + 1, s, m => absorbBlocks n (compress s (m.take size)) (m.drop size)

/-- Compress all whole blocks. -/
def absorb (s : σ) (m : List α) : σ := absorbBlocks size compress (m.length / size) s m

/-- What the whole blocks leave over. -/
def leftover (m : List α) : List α := m.drop (m.length / size * size)

variable {size}

/-- Less than a block is left over. -/
theorem length_leftover (m : List α) : (leftover size m).length = m.length % size := by
  rw [leftover, List.length_drop, Nat.mod_def, Nat.mul_comm]

/-- Less than a block is left over as it is. -/
theorem leftover_of_lt {m : List α} (hm : m.length < size) : leftover size m = m := by
  rw [leftover, Nat.div_eq_of_lt hm, Nat.zero_mul, List.drop_zero]

/-- Less than a block changes nothing. -/
theorem absorb_of_lt {m : List α} (s : σ) (hm : m.length < size) : absorb size compress s m = s := by
  rw [absorb, Nat.div_eq_of_lt hm, absorbBlocks]

/-- A block at the front is left over by nothing. -/
theorem leftover_append_block (hsize : 0 < size) {block : List α} (hblock : block.length = size)
    (m : List α) : leftover size (block ++ m) = leftover size m := by
  have hcount : (block ++ m).length / size = m.length / size + 1 := by
    rw [List.length_append, hblock, Nat.add_div_left _ hsize]
  rw [leftover, hcount, Nat.add_one_mul, Nat.add_comm, ← List.drop_drop, ← hblock, List.drop_left,
    leftover]

/-- A block at the front is compressed first. -/
theorem absorb_append_block (hsize : 0 < size) {block : List α} (hblock : block.length = size)
    (s : σ) (m : List α) :
    absorb size compress s (block ++ m) = absorb size compress (compress s block) m := by
  have hcount : (block ++ m).length / size = m.length / size + 1 := by
    rw [List.length_append, hblock, Nat.add_div_left _ hsize]
  rw [absorb, hcount, absorbBlocks, ← hblock, List.take_left, List.drop_left, absorb]

/-- Compressing in two parts. -/
theorem absorb_append (hsize : 0 < size) (s : σ) (m d : List α) :
    absorb size compress s (m ++ d) =
        absorb size compress (absorb size compress s m) (leftover size m ++ d) ∧
      leftover size (m ++ d) = leftover size (leftover size m ++ d) := by
  induction hn : m.length using Nat.strongRecOn generalizing s m with
  | ind n ih =>
    by_cases hshort : m.length < size
    · rw [absorb_of_lt compress s hshort, leftover_of_lt hshort]
      exact ⟨rfl, rfl⟩
    · have hblock : (m.take size).length = size := List.length_take_of_le (Nat.not_lt.mp hshort)
      have hdrop : (m.drop size).length < n := by
        rw [List.length_drop]
        omega
      have hrest := ih (m.drop size).length hdrop (compress s (m.take size)) (m.drop size) rfl
      have hsplit : m = m.take size ++ m.drop size := (List.take_append_drop size m).symm
      rw [hsplit, List.append_assoc, absorb_append_block compress hsize hblock,
        absorb_append_block compress hsize hblock, leftover_append_block hsize hblock,
        leftover_append_block hsize hblock]
      exact hrest

end TelemetryPlatform.BlockStreams
