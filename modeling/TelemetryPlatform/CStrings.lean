import Mathlib.Data.List.TakeWhile

/-!
# C strings as byte lists

Bytes in memory, the string that memory holds up to its terminator, and char
arrays of fixed capacity that carry the proof that their string is terminated
inside the array.
-/

namespace TelemetryPlatform.CStrings

/-- A sequence of bytes in memory, in a message or on a connection. -/
abbrev Bytes := List UInt8

/-- The bytes of an ASCII string literal. -/
def lit (s : String) : Bytes := s.toList.map fun c => UInt8.ofNat c.toNat

/-- A C string up to its terminator. -/
structure CString where
  /-- The characters before the terminator. -/
  bytes : Bytes
  /-- The terminator is the first zero byte. -/
  nulFree : 0 ∉ bytes

/-- The string that starts at the front of a piece of memory. -/
def CString.ofMemory (memory : Bytes) : CString where
  bytes := memory.takeWhile (· ≠ 0)
  nulFree := fun h => by simpa using List.mem_takeWhile_imp h

/-- The empty string. -/
def CString.empty : CString := ⟨[], by simp⟩

/-- A terminated string in memory is read back. -/
theorem CString.ofMemory_terminated (s : CString) (rest : Bytes) :
    CString.ofMemory (s.bytes ++ 0 :: rest) = s := by
  have hall : ∀ b ∈ s.bytes, decide (b ≠ 0) = true :=
    fun b hb => decide_eq_true fun h => s.nulFree (h ▸ hb)
  have hread : (s.bytes ++ 0 :: rest).takeWhile (· ≠ 0) = s.bytes := by
    rw [List.takeWhile_append_of_pos hall]
    simp
  cases s with
  | mk bytes nulFree =>
    simp only [CString.ofMemory, CString.mk.injEq]
    exact hread

/-- A char array of a fixed capacity that holds a terminated string. -/
structure CharBuf (cap : ℕ) extends CString where
  /-- The terminator is inside the array. -/
  fits : bytes.length < cap

/-- snprintf of a string into an array: the copy is cut to leave room for
the terminator. -/
def CharBuf.ofCString {cap : ℕ} (hcap : 0 < cap) (s : CString) : CharBuf cap where
  bytes := s.bytes.take (cap - 1)
  nulFree := fun h => s.nulFree (List.mem_of_mem_take h)
  fits := by
    rw [List.length_take]
    omega

end TelemetryPlatform.CStrings
