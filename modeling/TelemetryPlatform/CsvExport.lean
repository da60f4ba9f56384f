import TelemetryPlatform.CsvRecords

/-!
# The exported log of the interface

A log row is exported as twelve cells. A cell with a quote, a comma or a line
feed is written in quotes; any other one is written as it is, a carriage return
included. Strings are lists of UTF-16 code units, and how numbers are converted
to strings is left open.
-/

namespace TelemetryPlatform.CsvExport

open CsvRecords

/-- A string as its code units. -/
abbrev JsString := List UInt16

/-- The code units of a literal. -/
def codeUnits (s : String) : JsString := s.toList.map fun c => UInt16.ofNat c.toNat

/-- The four characters are told apart. -/
theorem rfc4180_distinct : [34, 44, 13, 10].Nodup (α := UInt16) := by decide

/-- The characters of the standard. -/
def rfc4180 : Dialect UInt16 := ⟨34, 44, 13, 10, rfc4180_distinct⟩

/-- The columns of the export. -/
inductive Col where
  /-- Wall time. -/
  | wallMs
  /-- What happened. -/
  | event
  /-- Where a sample comes from. -/
  | source
  /-- Sequence identifier. -/
  | seq
  /-- Time of a sample. -/
  | tNs
  /-- Age of a sample. -/
  | stalenessMs
  /-- Sequence identifiers skipped before a sample. -/
  | gapFromPrev
  /-- State of the socket. -/
  | wsState
  /-- Tag of the run. -/
  | runTag
  /-- Number of requested samples. -/
  | last
  /-- Number of samples in a reply. -/
  | count
  /-- Anything else. -/
  | note
  deriving DecidableEq

/-- The heading of a column. -/
def Col.name : Col → JsString
  | .wallMs => codeUnits "wall_ms"
  | .event => codeUnits "event"
  | .source => codeUnits "source"
  | .seq => codeUnits "seq"
  | .tNs => codeUnits "t_ns"
  | .stalenessMs => codeUnits "staleness_ms"
  | .gapFromPrev => codeUnits "gap_from_prev"
  | .wsState => codeUnits "ws_state"
  | .runTag => codeUnits "run_tag"
  | .last => codeUnits "last"
  | .count => codeUnits "count"
  | .note => codeUnits "note"

/-- The columns in the order of the export. -/
def cols : List Col :=
  [.wallMs, .event, .source, .seq, .tNs, .stalenessMs, .gapFromPrev, .wsState, .runTag, .last,
    .count, .note]

/-- A cell of a log row. -/
inductive Cell (N : Type*) where
  /-- A string. -/
  | string (s : JsString)
  /-- A number. -/
  | number (x : N)
  /-- The null value. -/
  | null
  /-- No value. -/
  | missing

variable {N : Type*} (numberString : N → JsString)

/-- The string form of a cell. -/
def Cell.text : Cell N → JsString
  | .string s => s
  | .number x => numberString x
  | .null => []
  | .missing => []

/-- A log row by its columns. -/
abbrev Row (N : Type*) := Col → Cell N

/-- What a log row takes from the state of the interface. -/
structure LogContext (N : Type*) where
  /-- Wall time. -/
  now : N
  /-- State of the socket, or -1 without one. -/
  wsState : N
  /-- Tag of the run. -/
  runTag : JsString

/-- The cells of a row that the event does not set. -/
def LogContext.defaults (ctx : LogContext N) : Row N
  | .wallMs => .number ctx.now
  | .wsState => .number ctx.wsState
  | .runTag => .string ctx.runTag
  | .last => .missing
  | .count => .missing
  | .note => .missing
  | _ => .string []

/-- The row that an event is logged with. -/
def logUiEvent (ctx : LogContext N) (ev : Col → Option (Cell N)) : Row N := fun c =>
  (ev c).getD (ctx.defaults c)

/-- The field that a cell is written as. -/
def csvEscape : Cell N → JsString
  | .null => []
  | .missing => []
  | v =>
    let s := v.text numberString
    if 34 ∈ s ∨ 44 ∈ s ∨ 10 ∈ s then
      34 :: (s.flatMap fun c => if c = 34 then [34, 34] else [c]) ++ [34]
    else s

/-- The text of the export. -/
def exportUiLogCsv (uiLog : List (Row N)) : JsString :=
  let lines := join 44 (cols.map Col.name) ::
    uiLog.map fun row => join 44 (cols.map fun c => csvEscape numberString (row c))
  join 10 lines ++ [10]

/-- A carriage return comes with a character that has the field quoted. -/
def NoBareCr (s : JsString) : Prop := 13 ∈ s → 34 ∈ s ∨ 44 ∈ s ∨ 10 ∈ s

/-- A cell is written in quotes or as it is. -/
theorem csvEscape_eq (v : Cell N) : csvEscape numberString v =
    if 34 ∈ v.text numberString ∨ 44 ∈ v.text numberString ∨ 10 ∈ v.text numberString then
      34 :: (doubled rfc4180 (v.text numberString) ++ [34])
    else v.text numberString := by
  have hdoubled (s : JsString) :
      (s.flatMap fun c => if c = 34 then [34, 34] else [c]) = doubled rfc4180 s := by
    refine congrArg (fun f => List.flatMap f s) (funext fun c => ?_)
    by_cases hc : c = 34
    · rw [if_pos hc, hc]
      exact (if_pos rfl).symm
    · rw [if_neg hc]
      exact (if_neg hc).symm
  cases v with
  | string s =>
    unfold csvEscape
    dsimp only
    rw [hdoubled]
    rfl
  | number x =>
    unfold csvEscape
    dsimp only
    rw [hdoubled]
    rfl
  | null => simp [csvEscape, Cell.text]
  | missing => simp [csvEscape, Cell.text]

/-- A string without the four characters has none with a meaning of its own. -/
theorem plain_rfc4180 {s : JsString} (hquote : 34 ∉ s) (hcomma : 44 ∉ s) (hcr : 13 ∉ s)
    (hlf : 10 ∉ s) : Plain rfc4180 s := fun _ hc =>
  kind_other (ne_of_mem_of_not_mem hc hquote) (ne_of_mem_of_not_mem hc hcomma)
    (ne_of_mem_of_not_mem hc hcr) (ne_of_mem_of_not_mem hc hlf)

/-- A cell is written so that it is read back, where no carriage return stands
bare in it. -/
theorem fieldText_csvEscape {v : Cell N} (h : NoBareCr (v.text numberString)) :
    FieldText rfc4180 (csvEscape numberString v) (v.text numberString) := by
  rw [csvEscape_eq]
  split_ifs with hspecial
  · exact .quoted _
  · obtain ⟨hquote, hcomma, hlf⟩ := not_or.mp hspecial |>.imp_right not_or.mp
    exact .plain (plain_rfc4180 hquote hcomma (fun hcr => hspecial (h hcr)) hlf)

/-- Otherwise the field is broken. -/
theorem broken_csvEscape {v : Cell N} (h : ¬ NoBareCr (v.text numberString)) :
    Broken rfc4180 (csvEscape numberString v) (v.text numberString) := by
  obtain ⟨hcr, hspecial⟩ := Classical.not_imp.mp h
  obtain ⟨p, q, hsplit, hfirst⟩ := List.eq_append_cons_of_mem hcr
  rw [csvEscape_eq, if_neg hspecial]
  obtain ⟨hquote, hcomma, hlf⟩ := not_or.mp hspecial |>.imp_right not_or.mp
  have hfront {c : UInt16} (hc : c ∉ v.text numberString) : c ∉ p := fun hp =>
    hc (hsplit ▸ List.mem_append_left _ hp)
  exact ⟨rfl, p, q, hsplit, plain_rfc4180 (hfront hquote) (hfront hcomma) hfirst (hfront hlf)⟩

/-- A field that is read back holds no carriage return, or it is quoted. -/
theorem cr_notMem_of_fieldText {text s : JsString} (h : FieldText rfc4180 text s)
    (hquote : 34 ∉ text) : 13 ∉ text := by
  cases h with
  | quoted s => exact absurd List.mem_cons_self hquote
  | plain hplain => exact fun hcr => absurd (hplain 13 hcr) (by decide)

/-- A cell whose field is read back has no bare carriage return. -/
theorem noBareCr_of_fieldText {v : Cell N}
    (h : FieldText rfc4180 (csvEscape numberString v) (v.text numberString)) :
    NoBareCr (v.text numberString) := by
  intro hcr
  by_contra hspecial
  rw [csvEscape_eq, if_neg hspecial] at h
  exact cr_notMem_of_fieldText h (not_or.mp hspecial).1 hcr

/-- The fields of a line with the cells that they stand for. -/
def lineOf (row : Row N) : List JsString × List JsString :=
  (cols.map fun c => csvEscape numberString (row c), cols.map fun c => (row c).text numberString)

/-- The line of the headings. -/
def headLine : List JsString × List JsString := (cols.map Col.name, cols.map Col.name)

/-- The export line by line. -/
theorem exportUiLogCsv_eq (uiLog : List (Row N)) : exportUiLogCsv numberString uiLog =
    (headLine :: uiLog.map (lineOf numberString)).flatMap fun line => join 44 line.1 ++ [10] := by
  unfold exportUiLogCsv
  dsimp only
  rw [join_append_singleton, List.flatMap_cons, List.flatMap_cons, List.flatMap_map,
    List.flatMap_map]
  rfl

/-- The headings are read back. -/
theorem fieldText_headLine : List.Forall₂ (FieldText rfc4180) headLine.1 headLine.2 := by
  have hname : ∀ c : Col, 34 ∉ c.name ∧ 44 ∉ c.name ∧ 13 ∉ c.name ∧ 10 ∉ c.name := by
    intro c
    cases c <;> decide
  refine List.forall₂_map_left_iff.mpr (List.forall₂_map_right_iff.mpr ?_)
  refine List.forall₂_same.mpr fun c _ => .plain ?_
  obtain ⟨hquote, hcomma, hcr, hlf⟩ := hname c
  exact plain_rfc4180 hquote hcomma hcr hlf

/-- Reading the export gives the headings and the rows exactly if every cell
with a carriage return has a character that it is quoted for. -/
theorem readRecords_lines_iff (uiLog : List (Row N)) :
    readRecords rfc4180 (exportUiLogCsv numberString uiLog) =
        some (cols.map Col.name :: uiLog.map fun row => cols.map fun c => (row c).text numberString) ↔
      ∀ row ∈ uiLog, ∀ c, NoBareCr ((row c).text numberString) := by
  have hcols (c : Col) : c ∈ cols := by cases c <;> decide
  have hrow (row : Row N) : List.Forall₂ (FieldText rfc4180) (lineOf numberString row).1
      (lineOf numberString row).2 ↔ ∀ c, NoBareCr ((row c).text numberString) := by
    rw [lineOf, List.forall₂_map_left_iff, List.forall₂_map_right_iff, List.forall₂_same]
    exact ⟨fun h c => noBareCr_of_fieldText numberString (h c (hcols c)),
      fun h c _ => fieldText_csvEscape numberString (h c)⟩
  have hlines : ∀ line ∈ headLine :: uiLog.map (lineOf numberString), line.2 ≠ [] ∧
      List.Forall₂ (fun text s => FieldText rfc4180 text s ∨ Broken rfc4180 text s) line.1 line.2 := by
    refine List.forall_mem_cons.mpr ⟨⟨List.cons_ne_nil _ _, ?_⟩, ?_⟩
    · exact fieldText_headLine.imp fun _ _ h => .inl h
    · refine List.forall_mem_map.mpr fun row _ => ⟨List.cons_ne_nil _ _, ?_⟩
      rw [lineOf, List.forall₂_map_left_iff, List.forall₂_map_right_iff, List.forall₂_same]
      intro c _
      by_cases hc : NoBareCr ((row c).text numberString)
      · exact .inl (fieldText_csvEscape numberString hc)
      · exact .inr (broken_csvEscape numberString hc)
  have hread := readRecords_lines hlines
  rw [List.forall_mem_cons, List.forall_mem_map, List.map_cons, List.map_map] at hread
  rw [exportUiLogCsv_eq]
  refine hread.trans ⟨fun h row hmem => (hrow row).mp (h.2 row hmem),
    fun h => ⟨fieldText_headLine, fun row hmem => (hrow row).mpr (h row hmem)⟩⟩

/-- The export is read back, headings first and one record of twelve cells to a
row, exactly if every cell with a carriage return also has a quote, a comma or a
line feed. -/
theorem exportUiLogCsv_read_iff (uiLog : List (Row N)) :
    readRecords rfc4180 (exportUiLogCsv numberString uiLog) =
        some (cols.map Col.name :: uiLog.map fun row => cols.map fun c => (row c).text numberString) ↔
      ∀ row ∈ uiLog, ∀ c, 13 ∈ (row c).text numberString →
        34 ∈ (row c).text numberString ∨ 44 ∈ (row c).text numberString ∨
          10 ∈ (row c).text numberString :=
  readRecords_lines_iff numberString uiLog

/-- A carriage return in a run tag ends its record in the middle. -/
theorem exportUiLogCsv_not_read :
    ¬ ∀ uiLog : List (Row ℕ),
      readRecords rfc4180 (exportUiLogCsv (fun n => codeUnits (Nat.repr n)) uiLog) =
        some (cols.map Col.name ::
          uiLog.map fun row => cols.map fun c => (row c).text fun n => codeUnits (Nat.repr n)) := by
  intro h
  have hread := h [logUiEvent ⟨7, 1, codeUnits "a\rb"⟩ fun _ => none]
  revert hread
  decide

end TelemetryPlatform.CsvExport
