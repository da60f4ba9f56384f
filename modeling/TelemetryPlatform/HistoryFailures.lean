import TelemetryPlatform.HistoryReply

/-!
# When a history reply is all or nothing

The outcomes of the allocations that a history call makes are sorted by what
the memory is for. The call looks at the return codes for the opening text, for
the table of rows and for the closing text. A failure for a row, or while the
rows are put into the reply, is not reported, and neither is a statement that
stops with an error instead of a row; each of them leaves a gap in the reply.
-/

namespace TelemetryPlatform.HistoryFailures

open CStrings FormattedText StringBuilder TelemetryTypes SampleJson KeyedWindow HistoryReply

/-- What a history call allocates memory for. -/
inductive Purpose where
  /-- The text before the rows. -/
  | opening
  /-- The table of rows. -/
  | table
  /-- The text of a row in a buffer of its own. -/
  | row
  /-- The texts of the rows and the commas in the reply. -/
  | output
  /-- The text behind the rows. -/
  | closing
  deriving DecidableEq

/-- The purposes for which the call returns an error where an allocation fails. -/
def Purpose.checked : Purpose → Bool
  | .opening => true
  | .table => true
  | .row => false
  | .output => false
  | .closing => true

/-- The outcomes that a part of the call takes from the script. -/
def spent (purpose : Purpose) (before after : Heap) : List (Purpose × Bool) :=
  (before.take (before.length - after.length)).map fun outcome => (purpose, outcome)

/-- The opening text holds no terminator. -/
theorem zero_notMem_opening : 0 ∉ lit "\x7b\"type\":\"history\",\"items\":[" := by decide

/-- Neither does the closing text. -/
theorem zero_notMem_closing : 0 ∉ lit "]\x7d" := by decide

/-- The allocations of a history call in their order, with their outcomes. -/
def historyAllocations (call : HistoryCall) (limit : ℤ) (query : ℕ → List (List SqlValue)) :
    List (Purpose × Bool) :=
  let (rc, sb, heap1) := sbAppend StrBuf.empty
    ⟨lit "\x7b\"type\":\"history\",\"items\":[", zero_notMem_opening⟩ call.heap
  spent .opening call.heap heap1 ++
    if rc ≠ 0 then []
    else
      let (granted, heap2) := allocate heap1
      spent .table heap1 heap2 ++
        if granted = false then []
        else
          let (rows, heap3) := renderRows (clampLimit limit) (query (clampLimit limit)) heap2
          let (sb, heap4) := emitRows sb rows.reverse heap3
          let (_, _, heap5) := sbAppend sb ⟨lit "]\x7d", zero_notMem_closing⟩ heap4
          spent .row heap2 heap3 ++ spent .output heap3 heap4 ++ spent .closing heap4 heap5

/-- The rows that sqlite3_step delivers where one of its calls may return an
error instead of a row. -/
def stepRows (stepFails : Option ℕ) (selected : List (List SqlValue)) : List (List SqlValue) :=
  match stepFails with
  | none => selected
  | some k => selected.take k

/-- The key by which the select orders a row. -/
def rowReceivedAt (row : Row) : ℤ := (columnInt64 (row .receivedAtNs)).toInt

/-- The rows that the select returns where it arranges the table like this. -/
def selectedRows (sorted : List Row) (limit : ℕ) : List (List SqlValue) :=
  (sorted.take limit).map selectRow

/-- A call returns the complete text, or a negative code. -/
def AllOrNothing (complete : Bytes) : Except ℤ StrBuf → Prop
  | .ok sb => sb.Holds complete
  | .error code => code < 0

/-- A call takes the first outcomes of the script. Either none of them is a
failure and the call appends its text, or one is and the call says so. -/
def Settles (old new : Bytes) (heap : Heap) (r : ℤ × StrBuf × Heap) : Prop :=
  ∃ used, heap = used ++ r.2.2 ∧
    ((r.1 = 0 ∧ false ∉ used ∧ r.2.1.Holds (old ++ new)) ∨ (r.1 ≠ 0 ∧ false ∈ used))

/-- The outcomes that were taken are the ones before those that are left. -/
theorem spent_append (purpose : Purpose) (used after : Heap) :
    spent purpose (used ++ after) after = used.map fun outcome => (purpose, outcome) := by
  rw [spent, List.length_append, Nat.add_sub_cancel, List.take_left]

/-- One call after another, where the first one succeeds. -/
def andThen (code : ℤ) (r : ℤ × StrBuf × Heap) (call : StrBuf → Heap → ℤ × StrBuf × Heap) :
    ℤ × StrBuf × Heap :=
  if r.1 ≠ 0 then (code, r.2.1, r.2.2) else call r.2.1 r.2.2

/-- Where both calls settle, so does one after the other. -/
theorem Settles.next {old new new' : Bytes} {heap : Heap} {r : ℤ × StrBuf × Heap} {code : ℤ}
    {call : StrBuf → Heap → ℤ × StrBuf × Heap} (hcode : code ≠ 0) (h : Settles old new heap r)
    (hcall : ∀ sb heap, sb.Holds (old ++ new) → Settles (old ++ new) new' heap (call sb heap)) :
    Settles old (new ++ new') heap (andThen code r call) := by
  unfold andThen
  obtain ⟨used, hused, ⟨hzero, hgranted, hholds⟩ | ⟨hfailed, hrefused⟩⟩ := h
  · rw [if_neg (not_not_intro hzero)]
    obtain ⟨used', hused', hresult⟩ := hcall r.2.1 r.2.2 hholds
    refine ⟨used ++ used', by rw [hused, List.append_assoc, ← hused'], ?_⟩
    rw [List.mem_append, ← List.append_assoc]
    exact hresult.imp (fun h => ⟨h.1, not_or_intro hgranted h.2.1, h.2.2⟩) fun h => ⟨h.1, .inr h.2⟩
  · rw [if_pos hfailed]
    exact ⟨used, hused, .inr ⟨hcode, hrefused⟩⟩

/-- Reserving and copying takes one outcome at most. -/
theorem reserveAndWrite_settles {sb : StrBuf} {old : Bytes} (hold : sb.Holds old) (new : Bytes)
    (heap : Heap) : Settles old new heap (reserveAndWrite sb new heap) := by
  have hplain := hold.write new []
  rw [List.append_nil] at hplain
  unfold reserveAndWrite sbReserve
  by_cases hroom : sb.len + new.length + 1 ≤ sb.cap
  · rw [if_pos hroom]
    exact ⟨[], rfl, .inl ⟨rfl, List.not_mem_nil, hplain⟩⟩
  · rw [if_neg hroom]
    cases heap with
    | nil => exact ⟨[], rfl, .inl ⟨rfl, List.not_mem_nil, hold.write new _⟩⟩
    | cons outcome rest =>
      cases outcome with
      | true => exact ⟨[true], rfl, .inl ⟨rfl, by decide, hold.write new _⟩⟩
      | false => exact ⟨[false], rfl, .inr ⟨by simp [allocate], by decide⟩⟩

/-- Appending a C string takes one outcome at most. -/
theorem sbAppend_settles {sb : StrBuf} {old : Bytes} (hold : sb.Holds old) (s : CString)
    (heap : Heap) : Settles old s.bytes heap (sbAppend sb s heap) :=
  reserveAndWrite_settles hold s.bytes heap

/-- Appending formatted text takes two outcomes at most. -/
theorem sbAppendf_settles {sb : StrBuf} {old : Bytes} (hold : sb.Holds old) (pieces : List Piece)
    (heap : Heap) : Settles old (format pieces).bytes heap (sbAppendf sb pieces heap) := by
  rw [sbAppendf_eq]
  by_cases hshort : (format pieces).bytes.length < tmpSize
  · rw [if_pos hshort]
    exact reserveAndWrite_settles hold _ heap
  · rw [if_neg hshort]
    cases heap with
    | nil => exact reserveAndWrite_settles hold _ []
    | cons outcome rest =>
      cases outcome with
      | false => exact ⟨[false], rfl, .inr ⟨by simp [allocate], by decide⟩⟩
      | true =>
        obtain ⟨used, hused, hresult⟩ := reserveAndWrite_settles hold (format pieces).bytes rest
        refine ⟨true :: used, congrArg (true :: ·) hused, ?_⟩
        rw [List.mem_cons, or_iff_right Bool.false_ne_true]
        exact hresult

/-- The calls that render a row, one after the other. -/
theorem appendRowAsSampleJson_eq (sb : StrBuf) (st : List SqlValue) (heap : Heap) :
    appendRowAsSampleJson sb st heap =
      andThen (-1) (sbAppendf sb (sampleHead st) heap) fun sb1 heap1 =>
        andThen (-2) (if hasMotors st = true then sbAppendf sb1 (sampleMotors st) heap1
            else (0, sb1, heap1)) fun sb2 heap2 =>
          andThen (-3) (sbAppend sb2 ⟨lit "\x7d", by decide⟩ heap2) fun sb3 heap3 =>
            (0, sb3, heap3) := by
  unfold appendRowAsSampleJson andThen
  dsimp only

/-- Rendering a row fails where one of its allocations does, and has appended
the whole row otherwise. -/
theorem appendRowAsSampleJson_settles {sb : StrBuf} {old : Bytes} (hold : sb.Holds old)
    (st : List SqlValue) (heap : Heap) :
    Settles old (itemText st) heap (appendRowAsSampleJson sb st heap) := by
  have hlast : (format [txt "\x7d"]).bytes = lit "\x7d" := by simp [format, txt, Piece.bytes]
  have htext : itemText st = (format (sampleHead st)).bytes ++
      ((format (if hasMotors st = true then sampleMotors st else [])).bytes ++
        (lit "\x7d" ++ [])) := by
    simp only [itemText, samplePieces, format_append, hlast, List.append_assoc, List.append_nil]
  rw [htext, appendRowAsSampleJson_eq]
  refine (sbAppendf_settles hold (sampleHead st) heap).next (by decide) fun sb1 heap1 hold1 => ?_
  refine Settles.next (by decide) ?_ fun sb2 heap2 hold2 => ?_
  · by_cases hmotors : hasMotors st = true
    · rw [if_pos hmotors, if_pos hmotors]
      exact sbAppendf_settles hold1 (sampleMotors st) heap1
    · rw [if_neg hmotors, if_neg hmotors]
      exact ⟨[], rfl, .inl ⟨rfl, List.not_mem_nil, by simpa [format] using hold1⟩⟩
  · refine (sbAppend_settles hold2 ⟨lit "\x7d", by decide⟩ heap2).next (by decide)
      fun sb3 heap3 hold3 => ?_
    exact ⟨[], rfl, .inl ⟨rfl, List.not_mem_nil, by rwa [List.append_nil]⟩⟩

/-- The rows up to the first one that cannot be rendered are rendered. -/
theorem renderRows_settles (room : ℕ) (rows : List (List SqlValue)) (heap : Heap) :
    ∃ used k, heap = used ++ (renderRows room rows heap).2 ∧
      List.Forall₂ (fun one st => one.Holds (itemText st)) (renderRows room rows heap).1
        ((rows.take room).take k) ∧
      ((false ∉ used ∧ (rows.take room).length ≤ k) ∨
        (false ∈ used ∧ k < (rows.take room).length)) := by
  induction room generalizing rows heap with
  | zero => cases rows <;> exact ⟨[], 0, rfl, .nil, .inl ⟨List.not_mem_nil, le_rfl⟩⟩
  | succ room ih =>
    cases rows with
    | nil => exact ⟨[], 0, rfl, .nil, .inl ⟨List.not_mem_nil, le_rfl⟩⟩
    | cons st rest =>
      obtain ⟨used, hused, hresult⟩ := appendRowAsSampleJson_settles StrBuf.holds_empty st heap
      rw [renderRows]
      -- only what is known of the appended row is used
      generalize appendRowAsSampleJson StrBuf.empty st heap = outcome at hused hresult ⊢
      obtain ⟨rc, one, heap'⟩ := outcome
      obtain ⟨hzero, hgranted, hone⟩ | ⟨hfailed, hrefused⟩ := hresult
      · obtain ⟨later, k, hlater, hones, hcount⟩ := ih rest heap'
        dsimp only at hused ⊢
        rw [if_neg (not_not_intro hzero)]
        refine ⟨used ++ later, k + 1, by rw [List.append_assoc, ← hlater, ← hused],
          .cons hone hones, ?_⟩
        simp only [List.take_succ_cons, List.length_cons, List.mem_append]
        grind
      · dsimp only
        rw [if_pos hfailed]
        exact ⟨used, 0, hused, .nil, .inr ⟨hrefused, by simp⟩⟩

/-- A part of the reply was printed as a whole, or an allocation failed and it
is shorter. -/
def Printed (used : Heap) (text full : Bytes) : Prop :=
  (false ∉ used ∧ text = full) ∨ (false ∈ used ∧ text.length < full.length)

/-- One printed part behind another. -/
theorem Printed.append {used used' : Heap} {text text' full full' : Bytes}
    (h : Printed used text full) (h' : Printed used' text' full') :
    Printed (used ++ used') (text ++ text') (full ++ full') := by
  unfold Printed at *
  rw [List.mem_append, List.length_append, List.length_append]
  obtain ⟨hnone, rfl⟩ | ⟨hsome, hlt⟩ := h
  · obtain ⟨hnone', rfl⟩ | ⟨hsome', hlt'⟩ := h'
    · exact .inl ⟨not_or_intro hnone hnone', rfl⟩
    · exact .inr ⟨.inr hsome', by omega⟩
  · refine .inr ⟨.inl hsome, ?_⟩
    obtain ⟨-, rfl⟩ | ⟨-, hlt'⟩ := h' <;> omega

/-- An append whose return code is ignored prints its text or nothing. -/
theorem sbAppend_printed {sb : StrBuf} {old : Bytes} (hold : sb.Holds old) (s : CString)
    (hne : s.bytes ≠ []) (heap : Heap) :
    ∃ used text, heap = used ++ (sbAppend sb s heap).2.2 ∧
      (sbAppend sb s heap).2.1.Holds (old ++ text) ∧ Printed used text s.bytes := by
  obtain ⟨used, hused, ⟨-, hgranted, hholds⟩ | ⟨hfailed, hrefused⟩⟩ :=
    sbAppend_settles hold s heap
  · exact ⟨used, s.bytes, hused, hholds, .inl ⟨hgranted, rfl⟩⟩
  · refine ⟨used, [], hused, ?_, .inr ⟨hrefused, List.length_pos_of_ne_nil hne⟩⟩
    rcases sbAppend_appends hold s heap with ⟨hdone, -⟩ | ⟨-, hsame, -⟩
    · exact absurd hdone hfailed
    · rwa [hsame, List.append_nil]

/-- The output loop prints all rows with commas, or an allocation failed and
the text is shorter. -/
theorem emitRows_printed {ones : List StrBuf} {items : List (List SqlValue)}
    (hones : List.Forall₂ (fun one st => one.Holds (itemText st)) ones items)
    {sb : StrBuf} {old : Bytes} (hold : sb.Holds old) (heap : Heap) :
    ∃ used text, heap = used ++ (emitRows sb ones heap).2 ∧
      (emitRows sb ones heap).1.Holds (old ++ text) ∧
      Printed used text (commaJoin (items.map itemText)) := by
  induction hones generalizing sb old heap with
  | nil => exact ⟨[], [], rfl, by simpa [emitRows] using hold, .inl ⟨List.not_mem_nil, rfl⟩⟩
  | @cons one st ones items hone hrest ih =>
    obtain ⟨halloc, hread⟩ := Holds.read hone (itemText_ne_nil st)
    obtain ⟨used1, text1, hused1, hold1, hprinted1⟩ :=
      sbAppend_printed hold (format (samplePieces st)) (itemText_ne_nil st) heap
    rw [emitRows, if_neg halloc, hread]
    dsimp only
    cases hrest with
    | nil => exact ⟨used1, text1, hused1, hold1, hprinted1⟩
    | cons hnext hlater =>
      rw [if_neg (List.cons_ne_nil _ _)]
      obtain ⟨used2, text2, hused2, hold2, hprinted2⟩ :=
        sbAppend_printed hold1 ⟨lit ",", by decide⟩ (by decide)
          (sbAppend sb (format (samplePieces st)) heap).2.2
      obtain ⟨used3, text3, hused3, hold3, hprinted3⟩ := ih hold2
        (sbAppend (sbAppend sb (format (samplePieces st)) heap).2.1 ⟨lit ",", by decide⟩
          (sbAppend sb (format (samplePieces st)) heap).2.2).2.2
      refine ⟨used1 ++ used2 ++ used3, text1 ++ text2 ++ text3, ?_, ?_,
        (hprinted1.append hprinted2).append hprinted3⟩
      · rw [List.append_assoc, List.append_assoc, ← hused3, ← hused2, ← hused1]
      · simpa only [List.append_assoc] using hold3

/-- A text in front makes the joined text longer. -/
theorem length_commaJoin_cons (text : Bytes) (rest : List Bytes) :
    text.length + (commaJoin rest).length ≤ (commaJoin (text :: rest)).length := by
  cases rest with
  | nil => simp [commaJoin]
  | cons next rest =>
    simp only [commaJoin, List.length_append]
    omega

/-- Fewer rows make a shorter text. -/
theorem length_commaJoin_take {selected : List (List SqlValue)} {k : ℕ} (hk : k < selected.length) :
    (commaJoin ((selected.take k).reverse.map itemText)).length <
      (commaJoin (selected.reverse.map itemText)).length := by
  have hextend : ∀ extra kept : List (List SqlValue), extra ≠ [] →
      (commaJoin (kept.map itemText)).length < (commaJoin ((extra ++ kept).map itemText)).length := by
    intro extra kept hne
    induction extra with
    | nil => exact absurd rfl hne
    | cons st extra ih =>
      have hcons := length_commaJoin_cons (itemText st) ((extra ++ kept).map itemText)
      have hpos := List.length_pos_of_ne_nil (itemText_ne_nil st)
      rw [List.cons_append, List.map_cons]
      by_cases hlast : extra = []
      · rw [hlast] at hcons ⊢
        simp only [List.nil_append] at hcons ⊢
        omega
      · have hlt := ih hlast
        omega
  have hsplit : selected.reverse = (selected.drop k).reverse ++ (selected.take k).reverse := by
    rw [← List.reverse_append, List.take_append_drop]
  rw [hsplit]
  refine hextend _ _ fun hnil => ?_
  have hlen := congrArg List.length hnil
  rw [List.length_reverse, List.length_drop, List.length_nil] at hlen
  omega

/-- The rows between the opening and the closing text: what is printed of the
rows that the statement delivers. -/
theorem rows_printed (selected : List (List SqlValue)) (stepFails : Option ℕ) (room : ℕ)
    (hroom : selected.length ≤ room) {sb : StrBuf} {old : Bytes} (hold : sb.Holds old)
    (heap : Heap) {ones : List StrBuf} {heap1 heap2 : Heap} {sb' : StrBuf}
    (hrender : renderRows room (stepRows stepFails selected) heap = (ones, heap1))
    (hemit : emitRows sb ones.reverse heap1 = (sb', heap2)) :
    ∃ used used' text, heap = used ++ heap1 ∧ heap1 = used' ++ heap2 ∧ sb'.Holds (old ++ text) ∧
      (text = commaJoin (selected.reverse.map itemText) ↔
        false ∉ used ∧ false ∉ used' ∧ ∀ k, stepFails = some k → selected.length ≤ k) := by
  obtain ⟨used, k, hused, hones, hcount⟩ :=
    renderRows_settles room (stepRows stepFails selected) heap
  rw [hrender] at hused hones
  obtain ⟨used', text, hused', hholds, hprinted⟩ := emitRows_printed (List.rel_reverse hones) hold heap1
  rw [hemit] at hused' hholds
  refine ⟨used, used', text, hused, hused', hholds, ?_⟩
  -- the rendered rows are the first ones of the selected rows
  obtain ⟨m, hm, hcomplete⟩ : ∃ m, ((stepRows stepFails selected).take room).take k = selected.take m ∧
      (selected.length ≤ m ↔ false ∉ used ∧ ∀ j, stepFails = some j → selected.length ≤ j) := by
    cases stepFails with
    | none =>
      refine ⟨min k room, by rw [stepRows, List.take_take], ?_⟩
      simp only [stepRows, List.length_take] at hcount
      grind
    | some j =>
      refine ⟨min (min k room) j, by rw [stepRows, List.take_take, List.take_take], ?_⟩
      simp only [stepRows, List.length_take] at hcount
      simp only [Option.some.injEq, forall_eq']
      grind
  rw [hm] at hprinted
  rw [← and_left_comm, ← hcomplete]
  constructor
  · intro htext
    by_contra hbroken
    have hshort : text.length < (commaJoin (selected.reverse.map itemText)).length := by
      by_cases hall : selected.length ≤ m
      · rw [List.take_of_length_le hall] at hprinted
        rcases hprinted with ⟨hnone, -⟩ | ⟨-, hlt⟩
        · exact absurd ⟨hnone, hall⟩ hbroken
        · exact hlt
      · have hlt := length_commaJoin_take (not_le.mp hall)
        rcases hprinted with ⟨-, rfl⟩ | ⟨-, hle⟩ <;> omega
    rw [htext] at hshort
    omega
  · rintro ⟨hnone, hall⟩
    rw [List.take_of_length_le hall] at hprinted
    rcases hprinted with ⟨-, htext⟩ | ⟨hsome, -⟩
    · exact htext
    · exact absurd hsome hnone

/-- The reader is not open, its statement cannot be prepared, or an allocation
fails whose failure the call reports; or no other allocation fails either, and
sqlite3_step does not fail before the last selected row. -/
def Unbroken (call : HistoryCall) (limit : ℤ) (stepFails : Option ℕ) (sorted : List Row) : Prop :=
  let allocations := historyAllocations call limit fun limit =>
    stepRows stepFails (selectedRows sorted limit)
  call.ready = false ∨ call.prepared = false ∨
    (∃ p ∈ allocations, p.1.checked = true ∧ p.2 = false) ∨
    ((∀ p ∈ allocations, p.2 = true) ∧
      ∀ k, stepFails = some k → (selectedRows sorted (clampLimit limit)).length ≤ k)

/-- A buffer holds one text only. -/
theorem StrBuf.Holds.holds_iff {sb : StrBuf} {text other : Bytes} (hold : sb.Holds text) :
    sb.Holds other ↔ other = text := by
  constructor
  · intro hother
    rw [← hother.content_eq, hold.content_eq]
  · rintro rfl
    exact hold

/-- All outcomes of one purpose. -/
theorem mem_spent {purpose : Purpose} {before used after : Heap} {p : Purpose × Bool}
    (h : before = used ++ after) : p ∈ spent purpose before after ↔ p.1 = purpose ∧ p.2 ∈ used := by
  rw [h, spent_append, List.mem_map]
  constructor
  · rintro ⟨outcome, houtcome, rfl⟩
    exact ⟨rfl, houtcome⟩
  · rintro ⟨rfl, houtcome⟩
    exact ⟨p.2, houtcome, rfl⟩

/-- The outcomes that a call took, by their purpose. -/
def byPurpose (opening table row output closing : Heap) : Purpose → Heap
  | .opening => opening
  | .table => table
  | .row => row
  | .output => output
  | .closing => closing

/-- The allocations of a call that is made to its end are those outcomes. -/
theorem mem_spent_all {used1 used2 used3 used4 used5 heap0 heap1 heap2 heap3 heap4 heap5 : Heap}
    (h1 : heap0 = used1 ++ heap1) (h2 : heap1 = used2 ++ heap2) (h3 : heap2 = used3 ++ heap3)
    (h4 : heap3 = used4 ++ heap4) (h5 : heap4 = used5 ++ heap5) (p : Purpose × Bool) :
    p ∈ spent .opening heap0 heap1 ++ (spent .table heap1 heap2 ++
        (spent .row heap2 heap3 ++ spent .output heap3 heap4 ++ spent .closing heap4 heap5)) ↔
      p.2 ∈ byPurpose used1 used2 used3 used4 used5 p.1 := by
  rw [List.mem_append, List.mem_append, List.mem_append, List.mem_append, mem_spent h1,
    mem_spent h2, mem_spent h3, mem_spent h4, mem_spent h5]
  obtain ⟨purpose, outcome⟩ := p
  cases purpose <;> simp [byPurpose]

section Outcomes

variable {used : Purpose → Heap}

/-- Where no failure is reported, the rows and the reply decide whether there is
one. -/
theorem all_granted_iff (hchecked : ∀ purpose, purpose.checked = true → false ∉ used purpose) :
    (∀ p : Purpose × Bool, p.2 ∈ used p.1 → p.2 = true) ↔
      false ∉ used .row ∧ false ∉ used .output := by
  constructor
  · intro hall
    refine ⟨fun h => ?_, fun h => ?_⟩
    · cases hall (.row, false) h
    · cases hall (.output, false) h
  · rintro ⟨hrow, houtput⟩ ⟨purpose, outcome⟩ hp
    refine Bool.eq_true_of_not_eq_false fun hfalse => ?_
    rw [hfalse] at hp
    cases purpose with
    | opening => exact hchecked .opening rfl hp
    | table => exact hchecked .table rfl hp
    | row => exact hrow hp
    | output => exact houtput hp
    | closing => exact hchecked .closing rfl hp

/-- Then none of the failures is one that is reported. -/
theorem not_exists_reported (hchecked : ∀ purpose, purpose.checked = true → false ∉ used purpose) :
    ¬ ∃ p : Purpose × Bool, p.2 ∈ used p.1 ∧ p.1.checked = true ∧ p.2 = false := by
  rintro ⟨⟨purpose, outcome⟩, hp, hpurpose, hfalse⟩
  cases hfalse
  exact hchecked purpose hpurpose hp

end Outcomes

/-- The allocation of the table takes one outcome at most. -/
theorem allocate_settles (heap : Heap) :
    ∃ used, heap = used ++ (allocate heap).2 ∧ (false ∈ used ↔ (allocate heap).1 = false) := by
  cases heap with
  | nil => exact ⟨[], rfl, by simp [allocate]⟩
  | cons outcome rest => exact ⟨[outcome], rfl, by cases outcome <;> simp [allocate]⟩

/-- The reply is the complete text or an error, exactly where no failure goes
unreported. -/
theorem allOrNothing_iff_unbroken (call : HistoryCall) (limit : ℤ) (stepFails : Option ℕ)
    (sorted : List Row) :
    AllOrNothing (historyText (selectedRows sorted (clampLimit limit)).reverse)
        (dbReaderHistoryLastJson call limit fun limit =>
          stepRows stepFails (selectedRows sorted limit)) ↔
      Unbroken call limit stepFails sorted := by
  have hroom : (selectedRows sorted (clampLimit limit)).length ≤ clampLimit limit := by
    rw [selectedRows, List.length_map, List.length_take]
    exact Nat.min_le_left _ _
  unfold Unbroken dbReaderHistoryLastJson historyAllocations
  dsimp only
  generalize selectedRows sorted (clampLimit limit) = selected at hroom ⊢
  by_cases hready : call.ready = false
  · simp [hready, AllOrNothing]
  by_cases hprepared : call.prepared = false
  · simp [hready, hprepared, AllOrNothing]
  rw [if_neg hready, if_neg hprepared, or_iff_right hready, or_iff_right hprepared]
  obtain ⟨used1, hused1, hopening⟩ := sbAppend_settles StrBuf.holds_empty
    ⟨lit "\x7b\"type\":\"history\",\"items\":[", by decide⟩ call.heap
  generalize sbAppend StrBuf.empty ⟨lit "\x7b\"type\":\"history\",\"items\":[", _⟩ call.heap =
    opening at hused1 hopening ⊢
  obtain ⟨rc1, sb1, heap1⟩ := opening
  dsimp only at hused1 hopening ⊢
  rcases hopening with ⟨hrc1, hgranted1, hold1⟩ | ⟨hrc1, hrefused1⟩
  · rw [if_neg (not_not_intro hrc1), if_neg (not_not_intro hrc1)]
    obtain ⟨used2, hused2, htable⟩ := allocate_settles heap1
    generalize allocate heap1 = table at hused2 htable ⊢
    obtain ⟨granted, heap2⟩ := table
    dsimp only at hused2 htable ⊢
    by_cases hgranted : granted = false
    · rw [if_pos hgranted, if_pos hgranted]
      refine iff_of_true (by simp [AllOrNothing]) (.inl ⟨(.table, false), ?_, rfl, rfl⟩)
      rw [List.append_nil, List.mem_append, mem_spent hused2]
      exact .inr ⟨rfl, htable.mpr hgranted⟩
    · rw [if_neg hgranted, if_neg hgranted]
      have hgranted2 : false ∉ used2 := fun hmem => hgranted (htable.mp hmem)
      rcases hrender : renderRows (clampLimit limit) (stepRows stepFails selected) heap2 with
        ⟨ones, heap3⟩
      rcases hemit : emitRows sb1 ones.reverse heap3 with ⟨sb4, heap4⟩
      obtain ⟨used3, used4, text, hused3, hused4, hold4, htext⟩ :=
        rows_printed selected stepFails (clampLimit limit) hroom hold1 heap2 hrender hemit
      obtain ⟨used5, hused5, hclosing⟩ := sbAppend_settles hold4 ⟨lit "]\x7d", by decide⟩ heap4
      dsimp only
      generalize sbAppend sb4 ⟨lit "]\x7d", _⟩ heap4 = closing at hused5 hclosing ⊢
      obtain ⟨rc5, sb5, heap5⟩ := closing
      dsimp only at hused5 hclosing ⊢
      simp only [mem_spent_all hused1 hused2 hused3 hused4 hused5]
      rcases hclosing with ⟨hrc5, hgranted5, hold5⟩ | ⟨hrc5, hrefused5⟩
      · have hchecked : ∀ purpose : Purpose, purpose.checked = true →
            false ∉ byPurpose used1 used2 used3 used4 used5 purpose := by
          intro purpose hpurpose
          cases purpose with
          | opening => exact hgranted1
          | table => exact hgranted2
          | row => cases hpurpose
          | output => cases hpurpose
          | closing => exact hgranted5
        have hsame : historyText selected.reverse =
            [] ++ lit "\x7b\"type\":\"history\",\"items\":[" ++ text ++ lit "]\x7d" ↔
              text = commaJoin (selected.reverse.map itemText) := by
          rw [historyText, List.nil_append, List.append_cancel_right_eq,
            List.append_cancel_left_eq, eq_comm]
        rw [if_neg (not_not_intro hrc5), AllOrNothing, StrBuf.Holds.holds_iff hold5,
          or_iff_right (not_exists_reported hchecked), all_granted_iff hchecked, hsame, htext,
          and_assoc]
        rfl
      · rw [if_pos hrc5]
        exact iff_of_true (by simp [AllOrNothing])
          (.inl ⟨(.closing, false), hrefused5, rfl, rfl⟩)
  · rw [if_pos hrc1, if_pos hrc1]
    refine iff_of_true (by simp [AllOrNothing]) (.inl ⟨(.opening, false), ?_, rfl, rfl⟩)
    rw [List.append_nil, mem_spent hused1]
    exact ⟨rfl, hrefused1⟩

/-- For every table, every order that the select may choose, every limit and
every pattern of failures of the allocations and of sqlite3_step: the selected
rows ascend in reception time, and the reply is their complete text or a
negative code exactly where no failure goes unreported. -/
theorem history_all_or_nothing_iff (call : HistoryCall) (limit : ℤ) (stepFails : Option ℕ)
    {table sorted : List Row} (hsorted : Arrangement rowReceivedAt table sorted) :
    ((sorted.take (clampLimit limit)).reverse.Pairwise fun a b => rowReceivedAt a ≤ rowReceivedAt b) ∧
      (AllOrNothing (historyText (selectedRows sorted (clampLimit limit)).reverse)
          (dbReaderHistoryLastJson call limit fun limit =>
            stepRows stepFails (selectedRows sorted limit)) ↔
        Unbroken call limit stepFails sorted) := by
  refine ⟨?_, allOrNothing_iff_unbroken call limit stepFails sorted⟩
  rw [List.pairwise_reverse]
  exact hsorted.descending.sublist (List.take_sublist _ _)

/-- Nothing fails where the script is empty. -/
theorem historyAllocations_flawless (limit : ℤ) (query : ℕ → List (List SqlValue)) :
    historyAllocations .flawless limit query = [] := by
  obtain ⟨sb1, hcall1, hold1⟩ := (sbAppend_appends StrBuf.holds_empty
    ⟨lit "\x7b\"type\":\"history\",\"items\":[", by decide⟩ []).of_nil
  obtain ⟨ones, hrender, hones⟩ := renderRows_nil (clampLimit limit) (query (clampLimit limit))
  obtain ⟨sb2, hemit, hold2⟩ := emitRows_nil (List.rel_reverse hones) hold1
  obtain ⟨sb3, hcall3, -⟩ := (sbAppend_appends hold2 ⟨lit "]\x7d", by decide⟩ []).of_nil
  simp only [historyAllocations, HistoryCall.flawless, hcall1, allocate, hrender, hemit, hcall3, spent,
    List.take_nil, List.map_nil, List.append_nil, Bool.true_eq_false, ne_eq, not_true_eq_false,
    if_false]

/-- A row of nulls apart from its reception time. -/
def receivedAtRow (ns : BitVec 64) : Row
  | .receivedAtNs => .integer ns
  | _ => .null

/-- A table with two rows in the order of their insertion. -/
def twoRows : List Row := [receivedAtRow 1, receivedAtRow 2]

/-- The reply to a request for two rows holds both, the earlier one first and a
comma between them. -/
theorem history_all_or_nothing_iff_twoRows :
    ((twoRows.reverse.take (clampLimit 2)).reverse.Pairwise fun a b =>
        rowReceivedAt a ≤ rowReceivedAt b) ∧
      AllOrNothing
        (lit "\x7b\"type\":\"history\",\"items\":[" ++
          (itemText (selectRow (receivedAtRow 1)) ++ lit "," ++
            itemText (selectRow (receivedAtRow 2))) ++ lit "]\x7d")
        (dbReaderHistoryLastJson .flawless 2 fun limit =>
          stepRows none (selectedRows twoRows.reverse limit)) := by
  have hsorted : Arrangement rowReceivedAt twoRows twoRows.reverse :=
    ⟨List.reverse_perm _, List.pairwise_pair.mpr (by decide)⟩
  have hboth := history_all_or_nothing_iff .flawless 2 none hsorted
  have hselected : (selectedRows twoRows.reverse (clampLimit 2)).reverse =
      [selectRow (receivedAtRow 1), selectRow (receivedAtRow 2)] := rfl
  have htext (x y : List SqlValue) : historyText [x, y] =
      lit "\x7b\"type\":\"history\",\"items\":[" ++ (itemText x ++ lit "," ++ itemText y) ++
        lit "]\x7d" := rfl
  refine ⟨hboth.1, ?_⟩
  rw [← htext, ← hselected, hboth.2]
  unfold Unbroken
  dsimp only
  rw [historyAllocations_flawless]
  exact .inr (.inr (.inr ⟨fun p hp => absurd hp List.not_mem_nil, nofun⟩))

/-- A table with one row of nulls. -/
def oneRow : List Row := [fun _ => .null]

/-- Where sqlite3_step fails at the first row, the reply succeeds without it. -/
theorem history_reply_truncated :
    ∃ sb, dbReaderHistoryLastJson .flawless 1 (fun limit =>
        stepRows (some 0) (selectedRows oneRow limit)) = .ok sb ∧
      sb.Holds (lit "\x7b\"type\":\"history\",\"items\":[]\x7d") ∧
      ¬ AllOrNothing (historyText (selectedRows oneRow (clampLimit 1)).reverse) (.ok sb) := by
  obtain ⟨sb, hcall, hold⟩ := dbReaderHistoryLastJson_flawless 1 fun limit =>
    stepRows (some 0) (selectedRows oneRow limit)
  have htext : historyText ((stepRows (some 0) (selectedRows oneRow (clampLimit 1))).take
      (clampLimit 1)).reverse = lit "\x7b\"type\":\"history\",\"items\":[]\x7d" := by
    simp [stepRows, historyText, commaJoin, lit]
  rw [htext] at hold
  refine ⟨sb, hcall, hold, ?_⟩
  rw [AllOrNothing, StrBuf.Holds.holds_iff hold, ← htext]
  intro hsame
  have hone : (0 : ℕ) < (selectedRows oneRow (clampLimit 1)).length := by decide
  have hlt := length_commaJoin_take hone
  rw [historyText, historyText, List.append_cancel_right_eq, List.append_cancel_left_eq] at hsame
  rw [hsame] at hlt
  simp [stepRows] at hlt

end TelemetryPlatform.HistoryFailures
