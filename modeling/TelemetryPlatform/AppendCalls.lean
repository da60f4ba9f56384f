import Mathlib.Algebra.Order.BigOperators.Group.List
import TelemetryPlatform.StringBuilder

/-!
# Sequences of calls to the string builder

A caller strings together plain and formatted calls, any of which an allocation
may fail. Whatever fails, the buffer holds the texts of the calls that
succeeded, one behind the other, and the capacity stays within a size.
-/

namespace TelemetryPlatform.AppendCalls

open CStrings FormattedText StringBuilder

/-- What `vsnprintf` returns: the length of the text, or an error where an int
does not hold it. -/
def vsnprintfReturn (text : Bytes) : ℤ := if text.length < 2 ^ 31 then text.length else -1

/-- A call with its arguments. -/
inductive Call where
  /-- Append a C string. -/
  | append (s : CString)
  /-- Append formatted text. -/
  | appendf (pieces : List Piece)

/-- The text of a call. -/
def Call.text : Call → Bytes
  | .append s => s.bytes
  | .appendf pieces => (format pieces).bytes

/-- Make a call. A formatted call returns at once where its text cannot be
printed; the texts of the history reader are never that long. -/
def Call.run (sb : StrBuf) (heap : Heap) : Call → ℤ × StrBuf × Heap
  | .append s => sbAppend sb s heap
  | .appendf pieces =>
    if vsnprintfReturn (format pieces).bytes < 0 then (-1, sb, heap)
    else sbAppendf sb pieces heap

/-- Make one call after the other, whatever they return. -/
def runCalls (sb : StrBuf) (heap : Heap) : List Call → List ℤ × StrBuf × Heap
  | [] => ([], sb, heap)
  | call :: calls =>
    let (rc, sb, heap) := call.run sb heap
    let (rcs, sb, heap) := runCalls sb heap calls
    (rc :: rcs, sb, heap)

/-- The texts of the calls that returned 0. -/
def appended : List Call → List ℤ → Bytes
  | [], _ => []
  | _ :: _, [] => []
  | call :: calls, rc :: rcs => (if rc = 0 then call.text else []) ++ appended calls rcs

/-- The length of all texts together. -/
def totalLength (calls : List Call) : ℕ := (calls.map fun call => call.text.length).sum

/-- An allocated buffer has room for its terminator. -/
theorem len_lt_cap {sb : StrBuf} {text : Bytes} (h : sb.Holds text) (hmem : sb.memory ≠ []) :
    sb.len < sb.cap := by
  obtain ⟨hlen, ⟨hnil, -⟩ | ⟨rest, hrest⟩⟩ := h
  · exact absurd hnil hmem
  · rw [StrBuf.cap, hrest, hlen, List.length_append, List.length_cons]
    omega

/-- The doubling loop stops below twice the request. -/
theorem growCap_lt {ncap need : ℕ} (hneed : ncap < need) : growCap ncap need < 2 * need := by
  fun_induction growCap ncap need with
  | case1 ncap hloop ih =>
    by_cases hmore : ncap * 2 < need
    · exact ih hmore
    · rw [growCap, if_neg (by omega)]
      omega
  | case2 ncap hstop => omega

/-- A capacity that holds the request stays as it is. -/
theorem growCap_of_le {ncap need : ℕ} (hneed : need ≤ ncap) : growCap ncap need = ncap := by
  rw [growCap, if_neg (by omega)]

/-- A reallocation for a request below 2^62 asks for less than 2^63 bytes. -/
theorem cap_grow_lt {sb : StrBuf} {extra : ℕ} (hcap : sb.cap < 2 ^ 63)
    (hneed : sb.len + extra < 2 ^ 62) : (sb.grow extra).cap < 2 ^ 63 := by
  have hgrow : growCap (if sb.cap = 0 then 1024 else sb.cap) (sb.len + extra + 1) < 2 ^ 63 := by
    by_cases hroom : sb.len + extra + 1 ≤ if sb.cap = 0 then 1024 else sb.cap
    · rw [growCap_of_le hroom]
      split <;> omega
    · exact (growCap_lt (by omega)).trans_le (by omega)
  simp only [StrBuf.grow, StrBuf.cap, List.length_append, List.length_replicate] at hgrow hcap ⊢
  omega

/-- A call appends its text and returns 0, or returns -1 and changes nothing. -/
theorem Call.run_appends {sb : StrBuf} {text : Bytes} (h : sb.Holds text) (call : Call)
    (heap : Heap) :
    ((call.run sb heap).1 = 0 ∧ (call.run sb heap).2.1.Holds (text ++ call.text)) ∨
      ((call.run sb heap).1 = -1 ∧ (call.run sb heap).2.1 = sb) := by
  cases call with
  | append s =>
    obtain ⟨hrc, hholds, -⟩ | ⟨hrc, hsame, -⟩ := sbAppend_appends h s heap
    · exact .inl ⟨hrc, hholds⟩
    · exact .inr ⟨hrc, hsame⟩
  | appendf pieces =>
    rw [Call.run]
    split_ifs with hprint
    · exact .inr ⟨rfl, rfl⟩
    · obtain ⟨hrc, hholds, -⟩ | ⟨hrc, hsame, -⟩ := sbAppendf_appends h pieces heap
      · exact .inl ⟨hrc, hholds⟩
      · exact .inr ⟨hrc, hsame⟩

/-- A call leaves the capacity or reallocates once for its text. -/
theorem Call.run_cap (sb : StrBuf) (heap : Heap) (call : Call) :
    (call.run sb heap).2.1.cap = sb.cap ∨
      (call.run sb heap).2.1.cap = (sb.grow call.text.length).cap := by
  cases call with
  | append s => exact reserveAndWrite_cap sb s.bytes heap
  | appendf pieces =>
    rw [Call.run]
    split_ifs with hprint
    · exact .inl rfl
    · rw [sbAppendf_eq]
      split_ifs with hstack hgranted
      · exact reserveAndWrite_cap sb _ heap
      · exact reserveAndWrite_cap sb _ (allocate heap).2
      · exact .inl rfl

/-- Whether the text of a call can be printed. -/
def Call.Prints : Call → Prop
  | .append _ => True
  | .appendf pieces => 0 ≤ vsnprintfReturn (format pieces).bytes

/-- All coming allocations succeed. -/
def Granted (heap : Heap) : Prop := ∀ outcome ∈ heap, outcome = true

/-- So does the next one. -/
theorem Granted.allocate {heap : Heap} (h : Granted heap) :
    (StringBuilder.allocate heap).1 = true ∧ Granted (StringBuilder.allocate heap).2 := by
  cases heap with
  | nil => exact ⟨rfl, h⟩
  | cons outcome rest =>
    exact ⟨h outcome List.mem_cons_self, fun later hlater => h later (List.mem_cons_of_mem _ hlater)⟩

/-- Reserving and copying succeeds where no allocation fails. -/
theorem Granted.reserveAndWrite {heap : Heap} (h : Granted heap) (sb : StrBuf) (chars : Bytes) :
    (StringBuilder.reserveAndWrite sb chars heap).1 = 0 := by
  unfold StringBuilder.reserveAndWrite sbReserve
  by_cases hroom : sb.len + chars.length + 1 ≤ sb.cap
  · rw [if_pos hroom]
    rfl
  · rw [if_neg hroom]
    dsimp only
    rw [if_pos h.allocate.1]
    rfl

/-- A call returns 0 where no allocation fails. -/
theorem Call.run_granted {heap : Heap} (h : Granted heap) (sb : StrBuf) {call : Call}
    (hprints : call.Prints) : (call.run sb heap).1 = 0 := by
  cases call with
  | append s => exact h.reserveAndWrite sb s.bytes
  | appendf pieces =>
    rw [Call.run, if_neg (not_lt.mpr hprints), sbAppendf_eq, if_pos h.allocate.1]
    split
    · exact h.reserveAndWrite sb _
    · exact h.allocate.2.reserveAndWrite sb _

/-- Behind a call the buffer holds one more text, or what it held. -/
theorem Call.run_holds {sb : StrBuf} {text : Bytes} (h : sb.Holds text) (call : Call)
    (heap : Heap) : (call.run sb heap).2.1.Holds
      (text ++ if (call.run sb heap).1 = 0 then call.text else []) := by
  obtain ⟨hrc, hholds⟩ | ⟨hrc, hsame⟩ := call.run_appends h heap
  · rw [if_pos hrc]
    exact hholds
  · rw [if_neg (by rw [hrc]; decide), List.append_nil, hsame]
    exact h

/-- After any calls the buffer holds the texts of those that succeeded behind
what it held before, and the capacity is below 2^63. -/
theorem runCalls_holds {sb : StrBuf} {text : Bytes} (h : sb.Holds text) (hcap : sb.cap < 2 ^ 63)
    (heap : Heap) (calls : List Call) (htotal : text.length + totalLength calls < 2 ^ 62) :
    (runCalls sb heap calls).2.1.Holds (text ++ appended calls (runCalls sb heap calls).1) ∧
      (runCalls sb heap calls).2.1.cap < 2 ^ 63 ∧
      (runCalls sb heap calls).1.length = calls.length := by
  induction calls generalizing sb text heap with
  | nil => exact ⟨by rw [appended, List.append_nil]; exact h, hcap, rfl⟩
  | cons call calls ih =>
    rw [totalLength, List.map_cons, List.sum_cons, ← totalLength] at htotal
    have hgrow : (sb.grow call.text.length).cap < 2 ^ 63 :=
      cap_grow_lt hcap (by rw [h.1]; omega)
    have hcap' : (call.run sb heap).2.1.cap < 2 ^ 63 := by
      obtain hsame | hgrown := call.run_cap sb heap
      · rw [hsame]
        exact hcap
      · rw [hgrown]
        exact hgrow
    have hlen : (if (call.run sb heap).1 = 0 then call.text else []).length ≤
        call.text.length := by
      split
      · exact le_rfl
      · exact Nat.zero_le _
    obtain ⟨hrest, hlast, hcount⟩ := ih (call.run_holds h heap) hcap'
      (call.run sb heap).2.2 (by rw [List.length_append]; omega)
    rw [List.append_assoc] at hrest
    exact ⟨hrest, hlast, congrArg (· + 1) hcount⟩

/-- The texts of some calls are no longer than those of all. -/
theorem appended_length_le (calls : List Call) (rcs : List ℤ) :
    (appended calls rcs).length ≤ totalLength calls := by
  induction calls generalizing rcs with
  | nil => exact Nat.le_of_eq rfl
  | cons call calls ih =>
    cases rcs with
    | nil => exact Nat.zero_le _
    | cons rc rcs =>
      have hrest := ih rcs
      rw [appended, List.length_append, totalLength, List.map_cons, List.sum_cons, ← totalLength]
      split
      · omega
      · rw [List.length_nil]
        omega

/-- Behind any calls, whatever allocations failed, the buffer holds the texts of
the calls that returned 0. The next call appends its text or changes nothing,
and it appends its text where no allocation fails. A formatted call copies the
whole text, a short one from the stack buffer as a longer one from its heap
copy, and the room that is reserved is enough for the text and a size. -/
theorem stringBuilder_concatenates (calls : List Call) (call : Call) (heap : Heap)
    (htotal : totalLength (calls ++ [call]) < 2 ^ 62) :
    let (rcs, sb, heap') := runCalls StrBuf.empty heap calls
    let (rc, sb', _) := call.run sb heap'
    rcs.length = calls.length ∧ sb.Holds (appended calls rcs) ∧
      (sb.memory ≠ [] → sb.len < sb.cap) ∧ sb.cap < 2 ^ 63 ∧
      (rc = 0 ∧ sb'.Holds (appended calls rcs ++ call.text) ∨ rc = -1 ∧ sb' = sb) ∧
      (Granted heap' → call.Prints → rc = 0) ∧
      (∀ pieces, (format pieces).bytes.length < tmpSize →
        sbAppendf sb pieces heap' = reserveAndWrite sb (format pieces).bytes heap') ∧
      (∀ pieces, tmpSize ≤ (format pieces).bytes.length → (allocate heap').1 = true →
        sbAppendf sb pieces heap' =
          reserveAndWrite sb (format pieces).bytes (allocate heap').2) ∧
      sb.len + call.text.length < (sb.grow call.text.length).cap ∧
      (sb.grow call.text.length).cap < 2 ^ 63 := by
  have hsplit : totalLength (calls ++ [call]) = totalLength calls + call.text.length := by
    simp only [totalLength, List.map_append, List.map_cons, List.map_nil, List.sum_append,
      List.sum_cons, List.sum_nil, Nat.add_zero]
  obtain ⟨hholds, hcap, hlen⟩ := runCalls_holds StrBuf.holds_empty (by decide) heap calls
    (by rw [List.length_nil]; omega)
  have hshort := appended_length_le calls (runCalls StrBuf.empty heap calls).1
  rw [List.nil_append] at hholds
  refine ⟨hlen, hholds, len_lt_cap hholds, hcap, call.run_appends hholds _,
    fun hgranted hprints => Call.run_granted hgranted _ hprints, fun pieces hshort => ?_,
    fun pieces hlong hgranted => ?_, StrBuf.lt_cap_grow _ _, cap_grow_lt hcap ?_⟩
  · rw [sbAppendf_eq, if_pos hshort]
  · rw [sbAppendf_eq, if_neg (not_lt.mpr hlong), if_pos hgranted]
  · rw [hholds.1]
    omega

/-- A first allocation that fails, and a formatted call behind it. -/
theorem stringBuilder_concatenates_after_failure :
    let (rcs, sb, heap') := runCalls StrBuf.empty [false] [.append ⟨lit "a", by decide⟩]
    let (rc, sb', _) := Call.run sb heap' (.appendf [.d 7])
    rcs.length = 1 ∧ sb.Holds (appended [.append ⟨lit "a", by decide⟩] rcs) ∧
      (sb.memory ≠ [] → sb.len < sb.cap) ∧ sb.cap < 2 ^ 63 ∧
      (rc = 0 ∧ sb'.Holds (appended [.append ⟨lit "a", by decide⟩] rcs ++
        (format [.d 7]).bytes) ∨ rc = -1 ∧ sb' = sb) ∧
      (Granted heap' → Call.Prints (.appendf [.d 7]) → rc = 0) ∧
      (∀ pieces, (format pieces).bytes.length < tmpSize →
        sbAppendf sb pieces heap' = reserveAndWrite sb (format pieces).bytes heap') ∧
      (∀ pieces, tmpSize ≤ (format pieces).bytes.length → (allocate heap').1 = true →
        sbAppendf sb pieces heap' =
          reserveAndWrite sb (format pieces).bytes (allocate heap').2) ∧
      sb.len + (format [.d 7]).bytes.length < (sb.grow (format [.d 7]).bytes.length).cap ∧
      (sb.grow (format [.d 7]).bytes.length).cap < 2 ^ 63 :=
  stringBuilder_concatenates [.append ⟨lit "a", by decide⟩] (.appendf [.d 7]) [false] (by decide)

end TelemetryPlatform.AppendCalls
