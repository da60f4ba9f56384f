import Mathlib.Data.List.Forall2

/-!
# Comma separated records

A reader takes the text character by character. A field stands as it is or in
quotes, with inner quotes doubled; a record ends with a carriage return, a line
feed or both. A text whose fields are quoted or free of the characters with a
meaning of their own is read back. A carriage return in a field that stands as
it is ends the record too early.
-/

namespace TelemetryPlatform.CsvRecords

/-- The characters with a meaning of their own. -/
structure Dialect (α : Type*) where
  /-- Around quoted fields, and doubled inside them. -/
  quote : α
  /-- Between two fields. -/
  comma : α
  /-- The first of the two characters of a line end. -/
  cr : α
  /-- The second of them. -/
  lf : α
  /-- All four are different. -/
  distinct : [quote, comma, cr, lf].Nodup

/-- What a character means to the reader. -/
inductive Kind where
  /-- A quote. -/
  | quote
  /-- A comma. -/
  | comma
  /-- A carriage return. -/
  | cr
  /-- A line feed. -/
  | lf
  /-- Any other character. -/
  | other
  deriving DecidableEq

/-- What may come next. -/
inductive Mode where
  /-- A record, or the end of the text. -/
  | recordStart
  /-- The same, or a line feed that belongs to the carriage return before it. -/
  | afterCr
  /-- A field. -/
  | fieldStart
  /-- More of a field without quotes. -/
  | unquoted
  /-- More of a quoted field. -/
  | quoted
  /-- The second half of a doubled quote, or the end of the field. -/
  | quoteSeen
  deriving DecidableEq

/-- What the reader does with a character. -/
inductive Action where
  /-- Refuse the text. -/
  | refuse
  /-- Go on without it. -/
  | skip (mode : Mode)
  /-- Put it behind the field. -/
  | add (mode : Mode)
  /-- End the field. -/
  | endField
  /-- End the field and the record. -/
  | endRecord (mode : Mode)

/-- What the reader does with a character of a kind. A quote inside a field
without quotes is refused, and so is a character between a closing quote and the
end of the field. -/
def Mode.action : Mode → Kind → Action
  | .quoted, .quote => .skip .quoteSeen
  | .quoted, _ => .add .quoted
  | .quoteSeen, .quote => .add .quoted
  | .quoteSeen, .other => .refuse
  | .unquoted, .quote => .refuse
  | .afterCr, .lf => .skip .recordStart
  | _, .quote => .skip .quoted
  | _, .comma => .endField
  | _, .cr => .endRecord .afterCr
  | _, .lf => .endRecord .recordStart
  | _, .other => .add .unquoted

variable {α : Type*}

/-- Put a separator between texts. -/
def join (sep : α) : List (List α) → List α
  | [] => []
  | [s] => s
  | s :: t :: rest => s ++ sep :: join sep (t :: rest)

/-- Texts that are joined by a separator, with one behind the last. -/
theorem join_append_singleton (sep : α) (s : List α) (texts : List (List α)) :
    join sep (s :: texts) ++ [sep] = (s :: texts).flatMap fun text => text ++ [sep] := by
  induction texts generalizing s with
  | nil => rw [List.flatMap_cons, List.flatMap_nil, List.append_nil, join]
  | cons next texts ih =>
    rw [join, List.append_assoc, List.cons_append, ih next]
    simp only [List.flatMap_cons, List.append_assoc, List.singleton_append]

variable [DecidableEq α]

/-- The meaning of a character. -/
def Dialect.kind (d : Dialect α) (c : α) : Kind :=
  if c = d.quote then .quote
  else if c = d.comma then .comma
  else if c = d.cr then .cr
  else if c = d.lf then .lf
  else .other

variable (d : Dialect α)

/-- Read the rest of a text, with what was read of the field and of the record.
The last record needs no line end, and a quoted field needs its closing quote. -/
def readFrom : Mode → List α → List (List α) → List α → Option (List (List (List α)))
  | .recordStart, _, _, [] => some []
  | .afterCr, _, _, [] => some []
  | .quoted, _, _, [] => none
  | .fieldStart, field, fields, [] => some [fields ++ [field]]
  | .unquoted, field, fields, [] => some [fields ++ [field]]
  | .quoteSeen, field, fields, [] => some [fields ++ [field]]
  | mode, field, fields, c :: rest =>
    match mode.action (d.kind c) with
    | .refuse => none
    | .skip mode => readFrom mode field fields rest
    | .add mode => readFrom mode (field ++ [c]) fields rest
    | .endField => readFrom .fieldStart [] (fields ++ [field]) rest
    | .endRecord mode => (readFrom mode [] [] rest).map ((fields ++ [field]) :: ·)

/-- The records of a text. -/
def readRecords (text : List α) : Option (List (List (List α))) := readFrom d .recordStart [] [] text

/-- No character has a meaning of its own. -/
def Plain (s : List α) : Prop := ∀ c ∈ s, d.kind c = .other

/-- Double the quotes. -/
def doubled (s : List α) : List α := s.flatMap fun c => if c = d.quote then [c, c] else [c]

/-- How a field may be written so that it is read back. -/
inductive FieldText : List α → List α → Prop where
  /-- In quotes. -/
  | quoted (s : List α) : FieldText (d.quote :: (doubled d s ++ [d.quote])) s
  /-- As it is. -/
  | plain {s : List α} (h : Plain d s) : FieldText s s

/-- A field that is written as it is although a carriage return comes first in it. -/
def Broken (text s : List α) : Prop := text = s ∧ ∃ p q, s = p ++ d.cr :: q ∧ Plain d p

variable {d}

/-- The meaning of the four characters. -/
theorem kind_special : d.kind d.quote = .quote ∧ d.kind d.comma = .comma ∧ d.kind d.cr = .cr ∧
    d.kind d.lf = .lf := by
  have hdistinct := d.distinct
  simp only [List.nodup_cons, List.mem_cons, List.not_mem_nil, or_false, not_or] at hdistinct
  obtain ⟨⟨hqc, hqr, hql⟩, ⟨hcr, hcl⟩, hrl, -⟩ := hdistinct
  refine ⟨if_pos rfl, ?_, ?_, ?_⟩
  · rw [Dialect.kind, if_neg (Ne.symm hqc), if_pos rfl]
  · rw [Dialect.kind, if_neg (Ne.symm hqr), if_neg (Ne.symm hcr), if_pos rfl]
  · rw [Dialect.kind, if_neg (Ne.symm hql), if_neg (Ne.symm hcl), if_neg (Ne.symm hrl), if_pos rfl]

/-- A character other than the four has no meaning of its own. -/
theorem kind_other {c : α} (hquote : c ≠ d.quote) (hcomma : c ≠ d.comma) (hcr : c ≠ d.cr)
    (hlf : c ≠ d.lf) : d.kind c = .other := by
  rw [Dialect.kind, if_neg hquote, if_neg hcomma, if_neg hcr, if_neg hlf]

/-- A character is read by its kind. -/
theorem readFrom_cons (mode : Mode) (field : List α) (fields : List (List α)) (c : α)
    (rest : List α) : readFrom d mode field fields (c :: rest) =
      match mode.action (d.kind c) with
      | .refuse => none
      | .skip mode => readFrom d mode field fields rest
      | .add mode => readFrom d mode (field ++ [c]) fields rest
      | .endField => readFrom d .fieldStart [] (fields ++ [field]) rest
      | .endRecord mode => (readFrom d mode [] [] rest).map ((fields ++ [field]) :: ·) := by
  cases mode <;> rw [readFrom]

/-- A comma ends a field. -/
theorem readFrom_comma {mode : Mode} (hmode : mode ≠ .quoted) (field : List α)
    (fields : List (List α)) (rest : List α) :
    readFrom d mode field fields (d.comma :: rest) =
      readFrom d .fieldStart [] (fields ++ [field]) rest := by
  have haction : mode.action .comma = .endField := by
    cases mode <;> first | rfl | exact absurd rfl hmode
  rw [readFrom_cons, kind_special.2.1, haction]

/-- A carriage return ends a record. -/
theorem readFrom_cr {mode : Mode} (hmode : mode ≠ .quoted) (field : List α)
    (fields : List (List α)) (rest : List α) :
    readFrom d mode field fields (d.cr :: rest) =
      (readFrom d .afterCr [] [] rest).map ((fields ++ [field]) :: ·) := by
  have haction : mode.action .cr = .endRecord .afterCr := by
    cases mode <;> first | rfl | exact absurd rfl hmode
  rw [readFrom_cons, kind_special.2.2.1, haction]

/-- A line feed ends a record. -/
theorem readFrom_lf {mode : Mode} (hmode : mode ≠ .quoted) (hcr : mode ≠ .afterCr) (field : List α)
    (fields : List (List α)) (rest : List α) :
    readFrom d mode field fields (d.lf :: rest) =
      (readFrom d .recordStart [] [] rest).map ((fields ++ [field]) :: ·) := by
  have haction : mode.action .lf = .endRecord .recordStart := by
    cases mode <;> first | rfl | exact absurd rfl hmode | exact absurd rfl hcr
  rw [readFrom_cons, kind_special.2.2.2, haction]

/-- A record starts with a field. -/
theorem readFrom_recordStart (fields : List (List α)) (c : α) (rest : List α) :
    readFrom d .recordStart [] fields (c :: rest) = readFrom d .fieldStart [] fields (c :: rest) := by
  rw [readFrom_cons, readFrom_cons]
  cases d.kind c <;> rfl

/-- Characters without a meaning of their own extend a field. -/
theorem readFrom_unquoted {s : List α} (hs : Plain d s) (field : List α) (fields : List (List α))
    (rest : List α) :
    readFrom d .unquoted field fields (s ++ rest) =
      readFrom d .unquoted (field ++ s) fields rest := by
  induction s generalizing field with
  | nil => rw [List.nil_append, List.append_nil]
  | cons c s ih =>
    have hrest : Plain d s := fun x hx => hs x (List.mem_cons_of_mem c hx)
    rw [List.cons_append, readFrom_cons, hs c List.mem_cons_self]
    exact (ih hrest (field ++ [c])).trans (by rw [List.append_assoc, List.singleton_append])

/-- What is read of a field that is free of them. -/
theorem readFrom_plain {s : List α} (hs : Plain d s) : ∃ mode, mode ≠ .quoted ∧ mode ≠ .afterCr ∧
    ∀ fields rest, readFrom d .fieldStart [] fields (s ++ rest) = readFrom d mode s fields rest := by
  cases s with
  | nil => exact ⟨.fieldStart, by decide, by decide, fun fields rest => rfl⟩
  | cons c s =>
    refine ⟨.unquoted, by decide, by decide, fun fields rest => ?_⟩
    rw [List.cons_append, readFrom_cons, hs c List.mem_cons_self]
    exact readFrom_unquoted (fun x hx => hs x (List.mem_cons_of_mem c hx)) [c] fields rest

/-- Inside quotes a character other than a quote extends the field. -/
theorem readFrom_quoted_of_ne {c : α} (hc : c ≠ d.quote) (field : List α) (fields : List (List α))
    (rest : List α) : readFrom d .quoted field fields (c :: rest) =
      readFrom d .quoted (field ++ [c]) fields rest := by
  have hkind : d.kind c ≠ .quote := by
    rw [Dialect.kind, if_neg hc]
    split_ifs <;> decide
  have haction : Mode.quoted.action (d.kind c) = .add .quoted := by
    cases hk : d.kind c <;> first | rfl | exact absurd hk hkind
  rw [readFrom_cons, haction]

/-- What is read of a field in quotes, up to its closing quote. -/
theorem readFrom_doubled (s field : List α) (fields : List (List α)) (rest : List α) :
    readFrom d .quoted field fields (doubled d s ++ d.quote :: rest) =
      readFrom d .quoteSeen (field ++ s) fields rest := by
  obtain ⟨hquote, -⟩ := kind_special (d := d)
  induction s generalizing field with
  | nil =>
    rw [List.append_nil, doubled, List.flatMap_nil, List.nil_append, readFrom_cons, hquote]
    rfl
  | cons c s ih =>
    have hnext := ih (field ++ [c])
    rw [List.append_assoc, List.singleton_append] at hnext
    by_cases hc : c = d.quote
    · have hdouble : doubled d (c :: s) = d.quote :: d.quote :: doubled d s := by
        rw [doubled, List.flatMap_cons, if_pos hc, hc]
        rfl
      rw [hdouble, List.cons_append, List.cons_append, readFrom_cons, hquote]
      dsimp only [Mode.action]
      rw [readFrom_cons, hquote, ← hnext, hc]
      rfl
    · have hsingle : doubled d (c :: s) = c :: doubled d s := by
        rw [doubled, List.flatMap_cons, if_neg hc]
        rfl
      rw [hsingle, List.cons_append, readFrom_quoted_of_ne hc, hnext]

/-- What is read of a field that is written so that it is read back. -/
theorem readFrom_field {text s : List α} (h : FieldText d text s) :
    ∃ mode, mode ≠ .quoted ∧ mode ≠ .afterCr ∧ ∀ fields rest,
      readFrom d .fieldStart [] fields (text ++ rest) = readFrom d mode s fields rest := by
  cases h with
  | plain hs => exact readFrom_plain hs
  | quoted s =>
    refine ⟨.quoteSeen, by decide, by decide, fun fields rest => ?_⟩
    rw [List.cons_append, readFrom_cons, kind_special.1, List.append_assoc, List.singleton_append]
    exact readFrom_doubled s [] fields rest

/-- A record whose fields are written so is read back. -/
theorem readFrom_record {texts cells : List (List α)} (h : List.Forall₂ (FieldText d) texts cells)
    (hcells : cells ≠ []) (fields : List (List α)) (rest : List α) :
    readFrom d .fieldStart [] fields (join d.comma texts ++ d.lf :: rest) =
      (readFrom d .recordStart [] [] rest).map ((fields ++ cells) :: ·) := by
  induction h generalizing fields with
  | nil => exact absurd rfl hcells
  | @cons text cell texts cells hfield hrest ih =>
    obtain ⟨mode, hquoted, hcr, hread⟩ := readFrom_field hfield
    cases hrest with
    | nil =>
      change readFrom d .fieldStart [] fields (text ++ d.lf :: rest) = _
      rw [hread, readFrom_lf hquoted hcr]
    | @cons next nextCell texts cells hnext hrest =>
      have hjoin : join d.comma (text :: next :: texts) ++ d.lf :: rest =
          text ++ d.comma :: (join d.comma (next :: texts) ++ d.lf :: rest) := by
        rw [join, List.append_assoc, List.cons_append]
      rw [hjoin, hread, readFrom_comma hquoted, ih (List.cons_ne_nil _ _), List.append_assoc,
        List.singleton_append]

/-- A carriage return in a field that stands as it is ends the record there. -/
theorem readFrom_broken {text s : List α} (h : Broken d text s) (fields : List (List α))
    (rest : List α) (records : List (List (List α))) (after : List (List α)) :
    readFrom d .fieldStart [] fields (text ++ rest) ≠ some ((fields ++ s :: after) :: records) := by
  obtain ⟨rfl, p, q, rfl, hp⟩ := h
  obtain ⟨mode, hquoted, -, hread⟩ := readFrom_plain hp
  rw [List.append_assoc, hread, List.cons_append, readFrom_cr hquoted]
  intro hsome
  obtain ⟨others, -, hothers⟩ := Option.map_eq_some_iff.mp hsome
  have hfields : [p] = (p ++ d.cr :: q) :: after :=
    List.append_cancel_left (List.cons.inj hothers).1
  have hlen := congrArg List.length (List.cons.inj hfields).1
  rw [List.length_append, List.length_cons] at hlen
  omega

/-- A record that is read back has its fields written so, where each one is
written so or broken. -/
theorem fieldText_of_readFrom {texts cells : List (List α)}
    (h : List.Forall₂ (fun text s => FieldText d text s ∨ Broken d text s) texts cells)
    (fields : List (List α)) {rest : List α} {records : List (List (List α))}
    (hread : readFrom d .fieldStart [] fields (join d.comma texts ++ d.lf :: rest) =
      some ((fields ++ cells) :: records)) : List.Forall₂ (FieldText d) texts cells := by
  induction h generalizing fields with
  | nil => exact .nil
  | @cons text cell texts cells hfield hrest ih =>
    have hjoin : ∃ tail, join d.comma (text :: texts) ++ d.lf :: rest = text ++ tail := by
      cases texts with
      | nil => exact ⟨d.lf :: rest, rfl⟩
      | cons next texts => exact ⟨_, by rw [join, List.append_assoc]⟩
    obtain hgood | hbroken := hfield
    · obtain ⟨mode, hquoted, -, hmode⟩ := readFrom_field hgood
      refine .cons hgood ?_
      cases hrest with
      | nil => exact .nil
      | @cons next nextCell texts cells hnext hrest =>
        refine ih (fields ++ [cell]) ?_
        rw [join, List.append_assoc, List.cons_append, hmode, readFrom_comma hquoted] at hread
        rw [List.append_assoc, List.singleton_append]
        exact hread
    · obtain ⟨tail, htail⟩ := hjoin
      rw [htail] at hread
      exact absurd hread (readFrom_broken hbroken fields tail records cells)

/-- A line starts a record. -/
theorem readFrom_line (text rest : List α) :
    readFrom d .recordStart [] [] (text ++ d.lf :: rest) =
      readFrom d .fieldStart [] [] (text ++ d.lf :: rest) := by
  cases text with
  | nil => exact readFrom_recordStart [] d.lf rest
  | cons c text => exact readFrom_recordStart [] c (text ++ d.lf :: rest)

/-- A text of records, each with a line feed behind it, is read back exactly if
every field is written so that it is, where each one is written so or broken. -/
theorem readRecords_lines {lines : List (List (List α) × List (List α))}
    (hlines : ∀ line ∈ lines, line.2 ≠ [] ∧
      List.Forall₂ (fun text s => FieldText d text s ∨ Broken d text s) line.1 line.2) :
    readRecords d (lines.flatMap fun line => join d.comma line.1 ++ [d.lf]) =
        some (lines.map Prod.snd) ↔
      ∀ line ∈ lines, List.Forall₂ (FieldText d) line.1 line.2 := by
  induction lines with
  | nil => exact iff_of_true rfl fun line hline => absurd hline List.not_mem_nil
  | cons line lines ih =>
    obtain ⟨⟨hcells, hfields⟩, hrest⟩ := List.forall_mem_cons.mp hlines
    rw [List.forall_mem_cons, ← ih hrest, List.flatMap_cons, List.append_assoc,
      List.singleton_append, readRecords, readFrom_line, readRecords]
    constructor
    · intro hread
      have hgood := fieldText_of_readFrom hfields [] hread
      rw [readFrom_record hgood hcells, List.nil_append, List.map_cons] at hread
      obtain ⟨records, hrecords, hcons⟩ := Option.map_eq_some_iff.mp hread
      exact ⟨hgood, (List.cons.inj hcons).2 ▸ hrecords⟩
    · rintro ⟨hgood, hread⟩
      rw [readFrom_record hgood hcells, hread]
      rfl

end TelemetryPlatform.CsvRecords
