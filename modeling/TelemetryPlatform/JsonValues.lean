import TelemetryPlatform.JsonText

/-!
# JSON values

The value of a JSON text is read by descent: a value by its first byte, the
items of an array and the members of an object one after the other. Strings and
numbers are read by the machine for JSON texts. A value that is printed without
white space, with strings that need no escapes, is read back.
-/

namespace TelemetryPlatform.JsonValues

open JsonText

mutual

/-- A JSON value. A number is kept as its text. -/
inductive Json where
  /-- A literal name. -/
  | word (name : Octets)
  /-- A number. -/
  | number (text : Octets)
  /-- A string. -/
  | string (value : Octets)
  /-- An array. -/
  | array (items : Items)
  /-- An object. -/
  | object (members : Members)

/-- The items of an array. -/
inductive Items where
  /-- No item. -/
  | nil
  /-- An item and those behind it. -/
  | cons (item : Json) (later : Items)

/-- The members of an object. -/
inductive Members where
  /-- No member. -/
  | nil
  /-- A member and those behind it. -/
  | cons (key : Octets) (value : Json) (later : Members)

end

/-- The items as a list. -/
def Items.toList : Items → List Json
  | .nil => []
  | .cons item later => item :: later.toList

/-- The items of a list. -/
def Items.ofList : List Json → Items
  | [] => .nil
  | item :: later => .cons item (ofList later)

/-- The members as a list. -/
def Members.toList : Members → List (Octets × Json)
  | .nil => []
  | .cons key value later => (key, value) :: later.toList

/-- The members of a list. -/
def Members.ofList : List (Octets × Json) → Members
  | [] => .nil
  | member :: later => .cons member.1 member.2 (ofList later)

/-- A list is the list of its items. -/
@[simp] theorem Items.toList_ofList (items : List Json) : (Items.ofList items).toList = items := by
  induction items with
  | nil => rfl
  | cons item later ih => rw [Items.ofList, Items.toList, ih]

/-- The member of an object with a key, the last one where there are several. -/
def Json.member (key : Octets) : Json → Option Json
  | .object members => (members.toList.reverse.find? fun m => decide (m.1 = key)).map Prod.snd
  | _ => none

/-- The value of a string. -/
def Json.stringValue : Json → Option Octets
  | .string value => some value
  | _ => none

/-- The text of a number. -/
def Json.numberText : Json → Option Octets
  | .number text => some text
  | _ => none

/-- The items of an array. -/
def Json.items : Json → Option (List Json)
  | .array items => some items.toList
  | _ => none

/-- The text behind white space. -/
def skipSpaces : Octets → Octets
  | [] => []
  | b :: rest => if isSpace b = true then skipSpaces rest else b :: rest

/-- The text behind a byte that has to come next. -/
def expect (b : UInt8) (text : Octets) : Option Octets :=
  match skipSpaces text with
  | [] => none
  | c :: rest => if c = b then some rest else none

/-- Read until the machine puts out a string. -/
def stringFrom (c : Control) : Octets → Option (Octets × Octets)
  | [] => none
  | b :: rest =>
    match step c b with
    | none => none
    | some (c', []) => stringFrom c' rest
    | some (_, m :: _) => some (m.2, rest)

/-- Read a string behind its first quote. -/
def readString (text : Octets) : Option (Octets × Octets) := stringFrom ⟨[], .string false []⟩ text

/-- Read the rest of a number. -/
def readNumber (phase : NumberPhase) : Octets → Option (Octets × Octets)
  | [] => if phase.complete = true then some ([], []) else none
  | b :: rest =>
    match phase.next b with
    | some more => (readNumber more rest).map fun x => (b :: x.1, x.2)
    | none => if phase.complete = true then some ([], b :: rest) else none

mutual

/-- Read a value, with a bound for the number of calls. -/
def readValue : ℕ → Octets → Option (Json × Octets)
  | 0, _ => none
  | fuel + 1, text =>
    match skipSpaces text with
    | [] => none
    | b :: rest =>
      match valueStart b with
      | some (_, .keyOrClose) =>
        match expect 125 rest with
        | some later => some (.object .nil, later)
        | none => (readMembers fuel rest).map fun x => (.object x.1, x.2)
      | some (_, .valueOrClose) =>
        match expect 93 rest with
        | some later => some (.array .nil, later)
        | none => (readItems fuel rest).map fun x => (.array x.1, x.2)
      | some (_, .string _ _) => (readString rest).map fun x => (.string x.1, x.2)
      | some (_, .number phase) => (readNumber phase rest).map fun x => (.number (b :: x.1), x.2)
      | some (_, .literal name) => (rest.dropPrefix? name).map fun later => (.word (b :: name), later)
      | _ => none

/-- Read an item and those behind it. -/
def readItems : ℕ → Octets → Option (Items × Octets)
  | 0, _ => none
  | fuel + 1, text =>
    (readValue fuel text).bind fun x =>
      match expect 44 x.2 with
      | some rest => (readItems fuel rest).map fun y => (.cons x.1 y.1, y.2)
      | none => (expect 93 x.2).map fun rest => (.cons x.1 .nil, rest)

/-- Read a member and those behind it. -/
def readMembers : ℕ → Octets → Option (Members × Octets)
  | 0, _ => none
  | fuel + 1, text =>
    (expect 34 text).bind fun quoted =>
      (readString quoted).bind fun key =>
        (expect 58 key.2).bind fun behind =>
          (readValue fuel behind).bind fun x =>
            match expect 44 x.2 with
            | some rest => (readMembers fuel rest).map fun y => (.cons key.1 x.1 y.1, y.2)
            | none => (expect 125 x.2).map fun rest => (.cons key.1 x.1 .nil, rest)

end

/-- The value of a text. Two calls for each byte are enough. -/
def parse (text : Octets) : Option Json :=
  (readValue (2 * text.length + 1) text).bind fun x => if skipSpaces x.2 = [] then some x.1 else none

mutual

/-- A value in front of a text, printed without white space. -/
def Json.text : Json → Octets → Octets
  | .word name, rest => name ++ rest
  | .number text, rest => text ++ rest
  | .string value, rest => 34 :: (value ++ 34 :: rest)
  | .array .nil, rest => 91 :: 93 :: rest
  | .array (.cons item later), rest => 91 :: item.text (later.text rest)
  | .object .nil, rest => 123 :: 125 :: rest
  | .object (.cons key value later), rest =>
    123 :: 34 :: (key ++ 34 :: 58 :: value.text (later.text rest))

/-- The items behind an item. -/
def Items.text : Items → Octets → Octets
  | .nil, rest => 93 :: rest
  | .cons item later, rest => 44 :: item.text (later.text rest)

/-- The members behind a member. -/
def Members.text : Members → Octets → Octets
  | .nil, rest => 125 :: rest
  | .cons key value later, rest => 44 :: 34 :: (key ++ 34 :: 58 :: value.text (later.text rest))

end

mutual

/-- What stands behind a value does not change its text. -/
theorem text_append (j : Json) (rest more : Octets) :
    j.text (rest ++ more) = j.text rest ++ more := by
  match j with
  | .word name => exact (List.append_assoc name rest more).symm
  | .number text => exact (List.append_assoc text rest more).symm
  | .string value => rw [Json.text, Json.text, List.cons_append, List.append_assoc, List.cons_append]
  | .array .nil => rfl
  | .array (.cons item later) =>
    rw [Json.text, Json.text, items_append, text_append item, List.cons_append]
  | .object .nil => rfl
  | .object (.cons key value later) =>
    rw [Json.text, Json.text, members_append, text_append value]
    simp only [List.cons_append, List.append_assoc]

/-- Nor that of items. -/
theorem items_append (items : Items) (rest more : Octets) :
    items.text (rest ++ more) = items.text rest ++ more := by
  match items with
  | .nil => rfl
  | .cons item later => rw [Items.text, Items.text, items_append, text_append item, List.cons_append]

/-- Nor that of members. -/
theorem members_append (members : Members) (rest more : Octets) :
    members.text (rest ++ more) = members.text rest ++ more := by
  match members with
  | .nil => rfl
  | .cons key value later =>
    rw [Members.text, Members.text, members_append, text_append value]
    simp only [List.cons_append, List.append_assoc]

end

/-- A number that starts with its sign or a digit. -/
def PlainNumber (text : Octets) : Prop :=
  IsNumber text ∧ ∃ b rest, text = b :: rest ∧ (b = 45 ∨ isDigit b = true)

mutual

/-- A value whose strings need no escapes. -/
def Json.Plain : Json → Prop
  | .word name => name = [116, 114, 117, 101] ∨ name = [102, 97, 108, 115, 101] ∨
      name = [110, 117, 108, 108]
  | .number text => PlainNumber text
  | .string value => Unescaped value
  | .array items => items.Plain
  | .object members => members.Plain

/-- So are all items. -/
def Items.Plain : Items → Prop
  | .nil => True
  | .cons item later => item.Plain ∧ later.Plain

/-- So are all keys and values. -/
def Members.Plain : Members → Prop
  | .nil => True
  | .cons key value later => Unescaped key ∧ value.Plain ∧ later.Plain

end

/-- The items of a list can be printed where each of them can. -/
theorem plain_ofList {items : List Json} (h : ∀ j ∈ items, j.Plain) : (Items.ofList items).Plain := by
  induction items with
  | nil => trivial
  | cons item later ih =>
    obtain ⟨hitem, hlater⟩ := List.forall_mem_cons.mp h
    exact ⟨hitem, ih hlater⟩

/-- A text that goes on with no value. -/
def Ends (rest : Octets) : Prop :=
  rest = [] ∨ ∃ b later, rest = b :: later ∧ (b = 44 ∨ b = 93 ∨ b = 125)

/-- Nothing is skipped in front of another byte. -/
theorem skipSpaces_cons {b : UInt8} (hb : isSpace b = false) (rest : Octets) :
    skipSpaces (b :: rest) = b :: rest := by
  rw [skipSpaces, if_neg (by rw [hb]; exact Bool.false_ne_true)]

/-- The byte that has to come next comes. -/
theorem expect_cons {b : UInt8} (hb : isSpace b = false) (rest : Octets) :
    expect b (b :: rest) = some rest := by
  rw [expect, skipSpaces_cons hb]
  exact if_pos rfl

/-- Another byte comes. -/
theorem expect_other {b c : UInt8} (hc : isSpace c = false) (hne : c ≠ b) (rest : Octets) :
    expect b (c :: rest) = none := by
  rw [expect, skipSpaces_cons hc]
  exact if_neg hne

/-- A part of a string is read. -/
theorem stringFrom_of_run {c c' : Control} {front : Octets} (hrun : run c front = some (c', []))
    (rest : Octets) : stringFrom c (front ++ rest) = stringFrom c' rest := by
  induction front generalizing c with
  | nil =>
    cases hrun
    rfl
  | cons b front ih =>
    obtain ⟨d, ms₁, ms₂, hstep, hfront, hnone⟩ := run_uncons hrun
    obtain ⟨rfl, rfl⟩ := List.append_eq_nil_iff.mp hnone.symm
    rw [List.cons_append, stringFrom, hstep]
    exact ih hfront

/-- A string without escapes is read up to its quote. -/
theorem readString_unescaped {value : Octets} (h : Unescaped value) (rest : Octets) :
    readString (value ++ 34 :: rest) = some (value, rest) := by
  have hrun := run_string [] h false []
  have hquote : step ⟨[], .string false (value.map .byte)⟩ 34 =
      some (⟨[], .after⟩, [([], decoded (value.map .byte))]) := rfl
  rw [readString, stringFrom_of_run hrun, List.nil_append, stringFrom, hquote, decoded_map_byte]

/-- Nothing begins behind a complete value. -/
theorem run_after {text : Octets} {d : Control} {ms : List Member}
    (hrun : run ⟨[], .after⟩ text = some (d, ms)) : d = ⟨[], .after⟩ := by
  induction text generalizing ms with
  | nil =>
    cases hrun
    rfl
  | cons b text ih =>
    obtain ⟨c, ms₁, ms₂, hstep, htext, -⟩ := run_uncons hrun
    have hafter : step ⟨[], .after⟩ b = (afterStep [] b).map (·, []) := rfl
    rw [hafter, afterStep] at hstep
    split_ifs at hstep
    · cases hstep
      exact ih htext
    · cases hstep

/-- No number goes on with what ends a value. -/
theorem next_ends {b : UInt8} (hb : b = 44 ∨ b = 93 ∨ b = 125) (phase : NumberPhase) :
    phase.next b = none := by
  rcases hb with rfl | rfl | rfl
  · cases phase <;> rfl
  · cases phase <;> rfl
  · cases phase <;> rfl

/-- The rest of a number is read up to what ends it. -/
theorem readNumber_of_run {phase last : NumberPhase} {text rest : Octets}
    (hrun : run ⟨[], .number phase⟩ text = some (⟨[], .number last⟩, []))
    (hlast : last.complete = true) (hrest : Ends rest) :
    readNumber phase (text ++ rest) = some (text, rest) := by
  induction text generalizing phase with
  | nil =>
    cases hrun
    rcases hrest with rfl | ⟨b, later, rfl, hb⟩
    · exact if_pos hlast
    · rw [List.nil_append, readNumber, next_ends hb]
      exact if_pos hlast
  | cons b text ih =>
    obtain ⟨d, ms₁, ms₂, hstep, htext, hnone⟩ := run_uncons hrun
    obtain ⟨rfl, rfl⟩ := List.append_eq_nil_iff.mp hnone.symm
    cases hnext : phase.next b with
    | some more =>
      rw [step_number hnext] at hstep
      cases hstep
      rw [List.cons_append, readNumber, hnext]
      dsimp only
      rw [ih htext]
      rfl
    | none =>
      -- the number would have ended, and nothing begins behind it
      have hafter : step ⟨[], .number phase⟩ b =
          if phase.complete = true then (afterStep [] b).map (·, []) else none := by
        rw [step]
        dsimp only
        rw [hnext]
      rw [hafter, afterStep] at hstep
      split_ifs at hstep
      · cases hstep
        cases run_after htext
      · cases hstep

/-- The first byte of a number. -/
theorem valueStart_number {b : UInt8} (hb : b = 45 ∨ isDigit b = true) :
    isSpace b = false ∧ b ≠ 93 ∧ ∃ phase, valueStart b = some ([], .number phase) := by
  rcases hb with rfl | hb
  · exact ⟨rfl, by decide, .minus, rfl⟩
  · have hother : ∀ a : UInt8, isDigit a = false → b ≠ a := by
      rintro a ha rfl
      exact absurd (hb.symm.trans ha) (by decide)
    refine ⟨?_, hother 93 rfl, ?_⟩
    · simp [isSpace, hother 32 rfl, hother 9 rfl, hother 10 rfl, hother 13 rfl]
    · rw [valueStart, if_neg (hother 123 rfl), if_neg (hother 91 rfl), if_neg (hother 34 rfl),
        if_neg (hother 45 rfl)]
      by_cases hzero : b = 48
      · exact ⟨.zero, if_pos hzero⟩
      · exact ⟨.digits, by rw [if_neg hzero, if_pos hb]⟩

/-- A number is read up to what ends it. -/
theorem readNumber_plain {text : Octets} (h : PlainNumber text) :
    ∃ b front phase, text = b :: front ∧ isSpace b = false ∧ b ≠ 93 ∧
      valueStart b = some ([], .number phase) ∧
      ∀ rest, Ends rest → readNumber phase (front ++ rest) = some (front, rest) := by
  obtain ⟨⟨last, hlast, hrun⟩, b, front, rfl, hb⟩ := h
  obtain ⟨hspace, hclose, phase, hstart⟩ := valueStart_number hb
  refine ⟨b, front, phase, rfl, hspace, hclose, hstart, fun rest hrest => ?_⟩
  obtain ⟨d, ms₁, ms₂, hstep, hfront, hnone⟩ := run_uncons hrun
  obtain ⟨rfl, rfl⟩ := List.append_eq_nil_iff.mp hnone.symm
  have hvalue : step ⟨[], .value⟩ b = some (⟨[], .number phase⟩, []) := by
    rw [step]
    dsimp only
    rw [if_neg (by rw [hspace]; exact Bool.false_ne_true), valueStep, hstart]
    rfl
  rw [hvalue] at hstep
  cases hstep
  exact readNumber_of_run hfront hlast hrest

/-- What stands behind an item ends it. -/
theorem ends_items (items : Items) (rest : Octets) : Ends (items.text rest) := by
  cases items with
  | nil => exact .inr ⟨93, rest, rfl, by decide⟩
  | cons item later => exact .inr ⟨44, _, rfl, by decide⟩

/-- What stands behind a member ends it. -/
theorem ends_members (members : Members) (rest : Octets) : Ends (members.text rest) := by
  cases members with
  | nil => exact .inr ⟨125, rest, rfl, by decide⟩
  | cons key value later => exact .inr ⟨44, _, rfl, by decide⟩

/-- A printed value starts with no white space and ends no array. -/
theorem text_eq_cons {j : Json} (h : j.Plain) (rest : Octets) :
    ∃ b later, j.text rest = b :: later ∧ isSpace b = false ∧ b ≠ 93 := by
  cases j with
  | word name =>
    rcases h with rfl | rfl | rfl
    · exact ⟨116, _, rfl, rfl, by decide⟩
    · exact ⟨102, _, rfl, rfl, by decide⟩
    · exact ⟨110, _, rfl, rfl, by decide⟩
  | number text =>
    obtain ⟨b, front, phase, rfl, hspace, hclose, -⟩ := readNumber_plain h
    exact ⟨b, front ++ rest, rfl, hspace, hclose⟩
  | string value => exact ⟨34, _, rfl, rfl, by decide⟩
  | array items =>
    cases items with
    | nil => exact ⟨91, _, rfl, rfl, by decide⟩
    | cons item later => exact ⟨91, _, rfl, rfl, by decide⟩
  | object members =>
    cases members with
    | nil => exact ⟨123, _, rfl, rfl, by decide⟩
    | cons key value later => exact ⟨123, _, rfl, rfl, by decide⟩

/-- More items follow, or none. -/
theorem readItems_of {fuel : ℕ} {text rest : Octets} {item : Json} {later : Items}
    (hitem : readValue fuel text = some (item, later.text rest))
    (hlater : ∀ next more, later = .cons next more →
      readItems fuel (next.text (more.text rest)) = some (later, rest)) :
    readItems (fuel + 1) text = some (.cons item later, rest) := by
  rw [readItems, hitem, Option.bind_some]
  dsimp only
  cases later with
  | nil =>
    rw [Items.text, expect_other rfl (by decide), expect_cons rfl]
    rfl
  | cons next more =>
    rw [Items.text, expect_cons rfl]
    dsimp only
    rw [hlater next more rfl]
    rfl

/-- More members follow, or none. -/
theorem readMembers_of {fuel : ℕ} {text rest key : Octets} {value : Json} {later : Members}
    (hkey : Unescaped key) (hvalue : readValue fuel text = some (value, later.text rest))
    (hlater : ∀ next more tail, later = .cons next more tail →
      readMembers fuel (34 :: (next ++ 34 :: 58 :: more.text (tail.text rest))) = some (later, rest)) :
    readMembers (fuel + 1) (34 :: (key ++ 34 :: 58 :: text)) =
      some (.cons key value later, rest) := by
  rw [readMembers, expect_cons rfl, Option.bind_some, readString_unescaped hkey, Option.bind_some,
    expect_cons rfl, Option.bind_some, hvalue, Option.bind_some]
  dsimp only
  cases later with
  | nil =>
    rw [Members.text, expect_other rfl (by decide), expect_cons rfl]
    rfl
  | cons next more tail =>
    rw [Members.text, expect_cons rfl]
    dsimp only
    rw [hlater next more tail rfl]
    rfl

/-- A literal name is read. -/
theorem readValue_word {b : UInt8} {name : Octets} (hspace : isSpace b = false)
    (hstart : valueStart b = some ([], .literal name)) {fuel : ℕ} {rest : Octets} :
    readValue (fuel + 1) (b :: (name ++ rest)) = some (.word (b :: name), rest) := by
  have hname : (name ++ rest).dropPrefix? name = some rest :=
    List.dropPrefix?_append_of_beq rest (beq_self_eq_true name)
  rw [readValue, skipSpaces_cons hspace]
  dsimp only
  rw [hstart]
  dsimp only
  rw [hname]
  rfl

mutual

/-- The text behind a value stays. -/
theorem suffix_text (j : Json) (rest : Octets) : rest <:+ j.text rest := by
  match j with
  | .word name => exact List.suffix_append name rest
  | .number text => exact List.suffix_append text rest
  | .string value =>
    have hquote : rest <:+ 34 :: rest := List.suffix_cons 34 rest
    exact (hquote.trans (List.suffix_append value _)).trans (List.suffix_cons 34 _)
  | .array .nil => exact List.suffix_append [91, 93] rest
  | .array (.cons item later) =>
    have hlater := (suffix_items later rest).trans (suffix_text item (later.text rest))
    exact hlater.trans (List.suffix_cons 91 _)
  | .object .nil => exact List.suffix_append [123, 125] rest
  | .object (.cons key value later) =>
    have hlater := (suffix_members later rest).trans (suffix_text value (later.text rest))
    have hkey := (hlater.trans (List.suffix_append [34, 58] _)).trans (List.suffix_append key _)
    exact hkey.trans (List.suffix_append [123, 34] _)

/-- The text behind items stays. -/
theorem suffix_items (items : Items) (rest : Octets) : rest <:+ items.text rest := by
  match items with
  | .nil => exact List.suffix_cons 93 rest
  | .cons item later =>
    have hlater := (suffix_items later rest).trans (suffix_text item (later.text rest))
    exact hlater.trans (List.suffix_cons 44 _)

/-- The text behind members stays. -/
theorem suffix_members (members : Members) (rest : Octets) : rest <:+ members.text rest := by
  match members with
  | .nil => exact List.suffix_cons 125 rest
  | .cons key value later =>
    have hlater := (suffix_members later rest).trans (suffix_text value (later.text rest))
    have hkey := (hlater.trans (List.suffix_append [34, 58] _)).trans (List.suffix_append key _)
    exact hkey.trans (List.suffix_append [44, 34] _)

end

mutual

/-- A printed value is read back up to what ends it. -/
theorem readValue_text (j : Json) (h : j.Plain) {fuel : ℕ} {rest : Octets} (hrest : Ends rest)
    (hfuel : 2 * (j.text rest).length < fuel) : readValue fuel (j.text rest) = some (j, rest) := by
  match fuel, hfuel with
  | fuel + 1, hfuel =>
    match j, h with
    | .word name, h =>
      rw [Json.text]
      rcases h with rfl | rfl | rfl
      · exact readValue_word rfl rfl
      · exact readValue_word rfl rfl
      · exact readValue_word rfl rfl
    | .number text, h =>
      obtain ⟨b, front, phase, rfl, hspace, -, hstart, hread⟩ := readNumber_plain h
      rw [Json.text, List.cons_append, readValue, skipSpaces_cons hspace]
      dsimp only
      rw [hstart]
      dsimp only
      rw [hread rest hrest]
      rfl
    | .string value, h =>
      have hstart : valueStart 34 = some ([], .string false []) := rfl
      rw [Json.text, readValue, skipSpaces_cons rfl]
      dsimp only
      rw [hstart]
      dsimp only
      rw [readString_unescaped h]
      rfl
    | .array .nil, h =>
      rfl
    | .array (.cons item later), h =>
      have hstart : valueStart 91 = some ([.array], .valueOrClose) := rfl
      obtain ⟨b, more, htext, hspace, hclose⟩ := text_eq_cons h.1 (later.text rest)
      have hitems : readItems fuel (item.text (later.text rest)) = some (.cons item later, rest) :=
        readItems_text item later h.1 h.2 (by
          rw [Json.text, List.length_cons] at hfuel
          omega)
      rw [Json.text, readValue, skipSpaces_cons rfl]
      dsimp only
      rw [hstart]
      dsimp only
      rw [htext, expect_other hspace hclose, ← htext, hitems]
      rfl
    | .object .nil, h =>
      rfl
    | .object (.cons key value later), h =>
      have hstart : valueStart 123 = some ([.object []], .keyOrClose) := rfl
      have hmembers : readMembers fuel (34 :: (key ++ 34 :: 58 :: value.text (later.text rest))) =
          some (.cons key value later, rest) :=
        readMembers_text key value later h.1 h.2.1 h.2.2 (by
          rw [Json.text, List.length_cons] at hfuel
          omega)
      rw [Json.text, readValue, skipSpaces_cons rfl]
      dsimp only
      rw [hstart]
      dsimp only
      rw [expect_other rfl (by decide), hmembers]
      rfl

/-- Printed items are read back. -/
theorem readItems_text (item : Json) (later : Items) (hitem : item.Plain) (hlater : later.Plain)
    {fuel : ℕ} {rest : Octets} (hfuel : 2 * (item.text (later.text rest)).length + 1 < fuel) :
    readItems fuel (item.text (later.text rest)) = some (.cons item later, rest) := by
  match fuel, hfuel with
  | fuel + 1, hfuel =>
    have hfirst : readValue fuel (item.text (later.text rest)) = some (item, later.text rest) :=
      readValue_text item hitem (ends_items later rest) (by omega)
    match later, hlater with
    | .nil, _ => exact readItems_of hfirst nofun
    | .cons next more, hlater =>
      refine readItems_of hfirst fun _ _ heq => ?_
      cases heq
      have hlen := (suffix_text item (Items.text (.cons next more) rest)).length_le
      rw [Items.text, List.length_cons] at hlen
      rw [Items.text] at hfuel
      exact readItems_text next more hlater.1 hlater.2 (by omega)

/-- Printed members are read back. -/
theorem readMembers_text (key : Octets) (value : Json) (later : Members) (hkey : Unescaped key)
    (hvalue : value.Plain) (hlater : later.Plain) {fuel : ℕ} {rest : Octets}
    (hfuel : 2 * (34 :: (key ++ 34 :: 58 :: value.text (later.text rest))).length + 1 < fuel) :
    readMembers fuel (34 :: (key ++ 34 :: 58 :: value.text (later.text rest))) =
      some (.cons key value later, rest) := by
  match fuel, hfuel with
  | fuel + 1, hfuel =>
    have hlen : (34 :: (key ++ 34 :: 58 :: value.text (later.text rest))).length =
        key.length + (value.text (later.text rest)).length + 3 := by
      simp only [List.length_cons, List.length_append]
      omega
    have hfirst : readValue fuel (value.text (later.text rest)) = some (value, later.text rest) :=
      readValue_text value hvalue (ends_members later rest) (by omega)
    match later, hlater with
    | .nil, _ => exact readMembers_of hkey hfirst nofun
    | .cons next more tail, hlater =>
      refine readMembers_of hkey hfirst fun _ _ _ heq => ?_
      cases heq
      have hlater' := (suffix_text value (Members.text (.cons next more tail) rest)).length_le
      rw [Members.text, List.length_cons] at hlater'
      rw [Members.text] at hfuel hlen
      exact readMembers_text next more tail hlater.1 hlater.2.1 hlater.2.2 (by omega)

end

/-- A printed value is the value of its text. -/
theorem parse_text {j : Json} (h : j.Plain) : parse (j.text []) = some j := by
  rw [parse, readValue_text j h (.inl rfl) (Nat.lt_succ_self _), Option.bind_some]
  exact if_pos rfl

end TelemetryPlatform.JsonValues
