import Mathlib.Data.List.TakeDrop

/-!
# Receiving from a stream that arrives in segments

What the coming receive calls on a connection return is a list of segments: a
call returns the front of the first segment, as much of it as was asked for. An
empty segment stands for a call that was interrupted and is repeated. Past the
last segment the connection is closed or fails. So every way to split a byte
stream over receive calls is a list of segments of that stream.
-/

namespace TelemetryPlatform.ReceivedSegments

variable {β : Type*}

/-- What the coming receive calls return. -/
abbrev Segments (β : Type*) := List (List β)

/-- Receive until the given number of elements is there. -/
def recvAll (n : ℕ) : Segments β → Option (List β) × Segments β
  | [] => if n = 0 then (some [], []) else (none, [])
  | seg :: rest =>
    if n = 0 then (some [], seg :: rest)
    else if n < seg.length then (some (seg.take n), seg.drop n :: rest)
    else
      let (got, left) := recvAll (n - seg.length) rest
      (got.map fun tail => seg ++ tail, left)

/-- The loop takes the asked number from the stream, or fails at its end. -/
theorem recvAll_fst (n : ℕ) (segs : Segments β) :
    (recvAll n segs).1 = if n ≤ segs.flatten.length then some (segs.flatten.take n) else none := by
  induction segs generalizing n with
  | nil => by_cases hn : n = 0 <;> simp [recvAll, hn]
  | cons seg rest ih =>
    have hlen : (seg :: rest).flatten.length = seg.length + rest.flatten.length := by
      rw [List.flatten_cons, List.length_append]
    by_cases hzero : n = 0
    · simp [recvAll, hzero]
    · by_cases hshort : n < seg.length
      · rw [recvAll, if_neg hzero, if_pos hshort, if_pos (by omega), List.flatten_cons,
          List.take_append_of_le_length (Nat.le_of_lt hshort)]
      · rw [recvAll, if_neg hzero, if_neg hshort]
        dsimp only
        rw [ih]
        by_cases hn : n ≤ (seg :: rest).flatten.length
        · rw [if_pos hn, if_pos (by omega), List.flatten_cons, List.take_append]
          have hseg : seg.take n = seg := List.take_of_length_le (by omega)
          rw [hseg]
          rfl
        · rw [if_neg hn, if_neg (by omega)]
          rfl

/-- The loop leaves the stream behind what it took. -/
theorem recvAll_snd (n : ℕ) (segs : Segments β) :
    (recvAll n segs).2.flatten = segs.flatten.drop n := by
  induction segs generalizing n with
  | nil => by_cases hn : n = 0 <;> simp [recvAll, hn]
  | cons seg rest ih =>
    by_cases hzero : n = 0
    · simp [recvAll, hzero]
    · by_cases hshort : n < seg.length
      · rw [recvAll, if_neg hzero, if_pos hshort, List.flatten_cons, List.flatten_cons,
          List.drop_append_of_le_length (Nat.le_of_lt hshort)]
      · rw [recvAll, if_neg hzero, if_neg hshort, List.flatten_cons, List.drop_append,
          List.drop_of_length_le (by omega)]
        exact ih (n - seg.length)

/-- Where the stream starts with enough elements, they are received. -/
theorem recvAll_of_flatten {n : ℕ} {segs : Segments β} {front tail : List β}
    (hstream : segs.flatten = front ++ tail) (hn : front.length = n) :
    ∃ left, recvAll n segs = (some front, left) ∧ left.flatten = tail := by
  have hfst := recvAll_fst n segs
  have hsnd := recvAll_snd n segs
  subst hn
  rw [hstream, List.length_append, if_pos (by omega), List.take_left] at hfst
  rw [hstream, List.drop_left] at hsnd
  exact ⟨_, Prod.ext hfst rfl, hsnd⟩

/-- What was received is the front of the stream. -/
theorem recvAll_eq_some {n : ℕ} {segs left : Segments β} {got : List β}
    (h : recvAll n segs = (some got, left)) :
    segs.flatten = got ++ left.flatten ∧ got.length = n := by
  have hfst := recvAll_fst n segs
  have hsnd := recvAll_snd n segs
  rw [h] at hfst hsnd
  split_ifs at hfst with hn
  cases hfst
  rw [hsnd]
  exact ⟨(List.take_append_drop n _).symm, List.length_take_of_le hn⟩

end TelemetryPlatform.ReceivedSegments
