import TelemetryPlatform.FormattedText

/-!
# The growing string buffer of the history reader

The buffer is the allocated memory with the length of the string in it. Every
allocation takes its outcome from a script, so that one run of the code stands
for one pattern of failures; the empty script lets every allocation succeed.
A successful call appends exactly its text, and a failed call changes nothing.
-/

namespace TelemetryPlatform.StringBuilder

open CStrings FormattedText

/-- Outcomes of the coming allocation calls; past its end they succeed. -/
abbrev Heap := List Bool

/-- Outcome of the next allocation call, and the script after it. -/
def allocate : Heap → Bool × Heap
  | [] => (true, [])
  | outcome :: rest => (outcome, rest)

/-- The memory of the buffer, whose length is the capacity, and the length of
the string. The buffer is NULL where the memory is empty. -/
structure StrBuf where
  /-- All allocated bytes. -/
  memory : Bytes
  /-- Length of the string. -/
  len : ℕ

/-- The zeroed buffer. -/
def StrBuf.empty : StrBuf := ⟨[], 0⟩

/-- The allocated size. -/
def StrBuf.cap (sb : StrBuf) : ℕ := sb.memory.length

/-- The string written so far. -/
def StrBuf.content (sb : StrBuf) : Bytes := sb.memory.take sb.len

/-- The doubling loop of the capacity. A zero capacity would loop forever in
the source; the caller starts it at 1024 or above. -/
def growCap (ncap need : ℕ) : ℕ :=
  if 0 < ncap ∧ ncap < need then growCap (ncap * 2) need else ncap
termination_by need - ncap

/-- The buffer after a successful reallocation for more characters. New
memory is indeterminate in the source and zero here; nothing reads it. -/
def StrBuf.grow (sb : StrBuf) (extra : ℕ) : StrBuf :=
  let ncap := growCap (if sb.cap = 0 then 1024 else sb.cap) (sb.len + extra + 1)
  { sb with memory := sb.memory ++ List.replicate (ncap - sb.cap) 0 }

/-- Make room for more characters and a terminator. -/
def sbReserve (sb : StrBuf) (extra : ℕ) (heap : Heap) : ℤ × StrBuf × Heap :=
  if sb.len + extra + 1 ≤ sb.cap then (0, sb, heap)
  else
    let (granted, heap') := allocate heap
    if granted = true then (0, sb.grow extra, heap') else (-1, sb, heap')

/-- Copy characters behind the string and terminate it. -/
def StrBuf.write (sb : StrBuf) (chars : Bytes) : StrBuf where
  memory := sb.memory.take sb.len ++ chars ++ 0 :: sb.memory.drop (sb.len + chars.length + 1)
  len := sb.len + chars.length

/-- Reserve room for characters and copy them behind the string. -/
def reserveAndWrite (sb : StrBuf) (chars : Bytes) (heap : Heap) : ℤ × StrBuf × Heap :=
  let (rc, sb', heap') := sbReserve sb chars.length heap
  if rc = 0 then (0, sb'.write chars, heap') else (-1, sb, heap')

/-- Append a C string. -/
def sbAppend (sb : StrBuf) (s : CString) (heap : Heap) : ℤ × StrBuf × Heap :=
  reserveAndWrite sb s.bytes heap

/-- The bytes that vsnprintf writes to a buffer of the given size: as much of
the text as leaves room for the terminator. -/
def vsnprintf (size : ℕ) (text : Bytes) : Bytes := text.take (size - 1) ++ [0]

/-- The size of the stack buffer. -/
def tmpSize : ℕ := 512

/-- Append formatted text whose length vsnprintf returns: from the stack buffer
where it holds the text and the terminator, from a heap copy otherwise. -/
def sbAppendf (sb : StrBuf) (pieces : List Piece) (heap : Heap) : ℤ × StrBuf × Heap :=
  let text := (format pieces).bytes
  let tmp := vsnprintf tmpSize text
  let n := text.length
  if n < tmpSize then reserveAndWrite sb (tmp.take n) heap
  else
    let (granted, heap') := allocate heap
    if granted = true then sbAppend sb (CString.ofMemory (vsnprintf (n + 1) text)) heap'
    else (-1, sb, heap')

/-- The buffer holds a string: terminated in its memory, or empty and not
allocated yet. -/
def StrBuf.Holds (sb : StrBuf) (chars : Bytes) : Prop :=
  sb.len = chars.length ∧
    ((sb.memory = [] ∧ chars = []) ∨ ∃ rest, sb.memory = chars ++ 0 :: rest)

/-- The zeroed buffer holds the empty string. -/
theorem StrBuf.holds_empty : StrBuf.empty.Holds [] := ⟨rfl, .inl ⟨rfl, rfl⟩⟩

/-- The held string is the content. -/
theorem StrBuf.Holds.content_eq {sb : StrBuf} {chars : Bytes} (h : sb.Holds chars) :
    sb.content = chars := by
  obtain ⟨hlen, ⟨hmem, rfl⟩ | ⟨rest, hmem⟩⟩ := h
  · simp [StrBuf.content, hmem]
  · rw [StrBuf.content, hmem, hlen, List.take_left]

/-- Memory behind the held string does not matter. -/
theorem StrBuf.Holds.take_append {sb : StrBuf} {chars : Bytes} (h : sb.Holds chars) (more : Bytes) :
    (sb.memory ++ more).take sb.len = chars := by
  obtain ⟨hlen, ⟨hmem, rfl⟩ | ⟨rest, hmem⟩⟩ := h
  · simp [hmem, hlen]
  · rw [hmem, hlen, List.append_assoc, List.take_left]

/-- What a call may return: the text is appended, or an allocation failed and
the buffer is as it was. -/
def Appends (sb : StrBuf) (old new : Bytes) (heap : Heap) (r : ℤ × StrBuf × Heap) : Prop :=
  (r.1 = 0 ∧ r.2.1.Holds (old ++ new) ∧ (heap = [] → r.2.2 = [])) ∨
    (r.1 = -1 ∧ r.2.1 = sb ∧ heap ≠ [])

/-- Where no allocation fails, the text is appended. -/
theorem Appends.of_nil {sb : StrBuf} {old new : Bytes} {r : ℤ × StrBuf × Heap}
    (h : Appends sb old new [] r) : ∃ sb', r = (0, sb', []) ∧ sb'.Holds (old ++ new) := by
  obtain ⟨hrc, hholds, hheap⟩ | ⟨-, -, hne⟩ := h
  · obtain ⟨rc, sb', heap'⟩ := r
    have hzero : rc = 0 := hrc
    have hleft : heap' = [] := hheap rfl
    exact ⟨sb', by rw [hzero, hleft], hholds⟩
  · exact absurd rfl hne

/-- The doubling loop ends at a capacity that holds the request. -/
theorem le_growCap {ncap need : ℕ} (hpos : 0 < ncap) : need ≤ growCap ncap need := by
  fun_induction growCap ncap need with
  | case1 ncap hloop ih => exact ih (by omega)
  | case2 ncap hstop => omega

/-- A reallocation makes room for the characters and a terminator. -/
theorem StrBuf.lt_cap_grow (sb : StrBuf) (extra : ℕ) : sb.len + extra < (sb.grow extra).cap := by
  have hgrow : sb.len + extra + 1 ≤
      growCap (if sb.cap = 0 then 1024 else sb.cap) (sb.len + extra + 1) :=
    le_growCap (by split <;> omega)
  simp only [StrBuf.grow, StrBuf.cap, List.length_append, List.length_replicate] at hgrow ⊢
  omega

/-- Copying characters stays inside the memory where there is room for them
and the terminator. -/
theorem StrBuf.cap_write {sb : StrBuf} {chars : Bytes} (hroom : sb.len + chars.length < sb.cap) :
    (sb.write chars).cap = sb.cap := by
  simp only [StrBuf.write, StrBuf.cap, List.length_append, List.length_cons, List.length_take,
    List.length_drop] at hroom ⊢
  omega

/-- Reserving and copying never writes outside the memory that it holds:
the capacity is the old one or the one that the reallocation granted. -/
theorem reserveAndWrite_cap (sb : StrBuf) (chars : Bytes) (heap : Heap) :
    (reserveAndWrite sb chars heap).2.1.cap = sb.cap ∨
      (reserveAndWrite sb chars heap).2.1.cap = (sb.grow chars.length).cap := by
  unfold reserveAndWrite sbReserve
  by_cases hroom : sb.len + chars.length + 1 ≤ sb.cap
  · rw [if_pos hroom]
    exact .inl (StrBuf.cap_write (by omega))
  · rw [if_neg hroom]
    obtain ⟨granted, heap'⟩ := allocate heap
    cases granted with
    | true => exact .inr (StrBuf.cap_write (sb.lt_cap_grow chars.length))
    | false => exact .inl rfl

/-- Characters copied into free room behind a held string extend it. -/
theorem StrBuf.Holds.write {sb : StrBuf} {old : Bytes} (hold : sb.Holds old) (new more : Bytes) :
    (StrBuf.write { sb with memory := sb.memory ++ more } new).Holds (old ++ new) := by
  refine ⟨by simp [StrBuf.write, hold.1], .inr ⟨(sb.memory ++ more).drop (sb.len + new.length + 1), ?_⟩⟩
  simp only [StrBuf.write, hold.take_append]

/-- Reserving and copying appends, or changes nothing after a failed allocation. -/
theorem reserveAndWrite_appends {sb : StrBuf} {old : Bytes} (hold : sb.Holds old) (new : Bytes)
    (heap : Heap) : Appends sb old new heap (reserveAndWrite sb new heap) := by
  have hplain := hold.write new []
  rw [List.append_nil] at hplain
  unfold reserveAndWrite sbReserve
  by_cases hroom : sb.len + new.length + 1 ≤ sb.cap
  · rw [if_pos hroom]
    exact .inl ⟨rfl, hplain, id⟩
  · rw [if_neg hroom]
    cases heap with
    | nil => exact .inl ⟨rfl, hold.write new _, fun _ => rfl⟩
    | cons outcome rest =>
      cases outcome with
      | true => exact .inl ⟨rfl, hold.write new _, fun h => absurd h (List.cons_ne_nil _ _)⟩
      | false => exact .inr ⟨rfl, rfl, List.cons_ne_nil _ _⟩

/-- Appending a C string. -/
theorem sbAppend_appends {sb : StrBuf} {old : Bytes} (hold : sb.Holds old) (s : CString)
    (heap : Heap) : Appends sb old s.bytes heap (sbAppend sb s heap) :=
  reserveAndWrite_appends hold s.bytes heap

/-- A text that leaves room for its terminator is in the buffer as a whole. -/
theorem take_vsnprintf {size : ℕ} {text : Bytes} (hfits : text.length < size) :
    (vsnprintf size text).take text.length = text := by
  rw [vsnprintf, List.take_of_length_le (by omega : text.length ≤ size - 1), List.take_left]

/-- The heap copy of a text is read back as the text. -/
theorem ofMemory_vsnprintf (s : CString) :
    CString.ofMemory (vsnprintf (s.bytes.length + 1) s.bytes) = s := by
  rw [vsnprintf, Nat.add_sub_cancel, List.take_length]
  exact CString.ofMemory_terminated s []

/-- On both sides of the size of the stack buffer the whole text is copied; a
longer text takes one allocation before. -/
theorem sbAppendf_eq (sb : StrBuf) (pieces : List Piece) (heap : Heap) :
    sbAppendf sb pieces heap =
      if (format pieces).bytes.length < tmpSize then reserveAndWrite sb (format pieces).bytes heap
      else if (allocate heap).1 = true then
        reserveAndWrite sb (format pieces).bytes (allocate heap).2
      else (-1, sb, (allocate heap).2) := by
  unfold sbAppendf
  dsimp only
  rw [ofMemory_vsnprintf, sbAppend]
  by_cases hfits : (format pieces).bytes.length < tmpSize
  · rw [if_pos hfits, if_pos hfits, take_vsnprintf hfits]
  · rw [if_neg hfits, if_neg hfits]

/-- Appending formatted text. -/
theorem sbAppendf_appends {sb : StrBuf} {old : Bytes} (hold : sb.Holds old) (pieces : List Piece)
    (heap : Heap) : Appends sb old (format pieces).bytes heap (sbAppendf sb pieces heap) := by
  rw [sbAppendf_eq]
  split
  · exact reserveAndWrite_appends hold _ heap
  · cases heap with
    | nil => exact reserveAndWrite_appends hold _ []
    | cons outcome rest =>
      cases outcome with
      | true =>
        obtain ⟨hrc, hholds, -⟩ | ⟨hrc, hsame, -⟩ :=
          reserveAndWrite_appends hold (format pieces).bytes rest
        · exact .inl ⟨hrc, hholds, fun h => absurd h (List.cons_ne_nil _ _)⟩
        · exact .inr ⟨hrc, hsame, List.cons_ne_nil _ _⟩
      | false => exact .inr ⟨rfl, rfl, List.cons_ne_nil _ _⟩

end TelemetryPlatform.StringBuilder
