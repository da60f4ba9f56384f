import TelemetryPlatform.JsonText

/-!
# Words in a JSON text

A word with a letter that occurs in no number and no literal name can stand in a
JSON text only inside a string. Where it stands between quotes, these are the
quotes of a string with no more in it, or the first of them is escaped and the
string ends with the word.
-/

namespace TelemetryPlatform.JsonText

/-- Whether a string is read, and if so whether it is a key. -/
def Mode.inString : Mode → Option Bool
  | .string isKey _ | .escape isKey _ | .hex isKey _ _ _ => some isKey
  | _ => none

/-- Neither a string nor a literal name is read. -/
def Mode.plain : Mode → Bool
  | .string .. | .escape .. | .hex .. | .literal _ => false
  | _ => true

/-- Whether a string may begin, and if so whether it is a key. -/
def Mode.beginsString : Mode → Option Bool
  | .value | .valueOrClose => some false
  | .key | .keyOrClose => some true
  | _ => none

/-- The letters of the literal names behind their first ones. -/
def literalLetters : Octets := [114, 117, 101, 97, 108, 115]

/-- What is left of a literal name consists of these letters. -/
def Control.Spelled (c : Control) : Prop :=
  ∀ rest, c.mode = .literal rest → ∀ b ∈ rest, b ∈ literalLetters

/-- No string is read, and what is left of a literal name is spelled correctly. -/
structure Control.Outside (c : Control) : Prop where
  /-- No string is read. -/
  noString : c.mode.inString = none
  /-- The letters are right. -/
  spelled : c.Spelled

/-- A plain mode is outside. -/
theorem outside_of_plain {c : Control} (h : c.mode.plain = true) : c.Outside := by
  obtain ⟨stack, mode⟩ := c
  cases mode with
  | string | escape | hex | literal => cases h
  | _ => exact ⟨rfl, fun rest hrest => by cases hrest⟩

/-- Nothing is read at the start. -/
theorem outside_start : Control.start.Outside := outside_of_plain rfl

/-- A byte behind a value begins no string. -/
theorem outside_afterStep {stack : List Frame} {b : UInt8} {c : Control}
    (h : afterStep stack b = some c) : c.Outside ∧ b ≠ 34 := by
  unfold afterStep at h
  by_cases hspace : isSpace b = true
  · rw [if_pos hspace] at h
    cases h
    refine ⟨outside_of_plain rfl, ?_⟩
    rintro rfl
    exact absurd hspace (by decide)
  · rw [if_neg hspace] at h
    cases stack with
    | nil => cases h
    | cons frame below =>
      cases frame <;>
      · dsimp only at h
        split_ifs at h with hcomma hclose
        · cases h
          exact ⟨outside_of_plain rfl, by rw [hcomma]; decide⟩
        · cases h
          exact ⟨outside_of_plain rfl, by rw [hclose]; decide⟩

/-- The first byte of a value begins a string where it is a quote, and a literal
name or something else otherwise. -/
theorem valueStep_cases {stack : List Frame} {b : UInt8} {c : Control}
    (h : valueStep stack b = some c) : b = 34 ∧ c = ⟨stack, .string false []⟩ ∨
      c.Outside ∧ b ≠ 34 := by
  obtain ⟨x, hx, rfl⟩ := Option.map_eq_some_iff.mp h
  by_cases hquote : b = 34
  · rw [hquote] at hx
    cases hx
    exact .inl ⟨hquote, rfl⟩
  · refine .inr ⟨?_, hquote⟩
    unfold valueStart at hx
    rw [if_neg hquote] at hx
    split_ifs at hx <;> cases hx <;> refine ⟨rfl, ?_⟩ <;> rintro rest ⟨⟩ <;>
      exact List.forall_iff_forall_mem.mp (by decide)

/-- Behind a string comes a colon, or what may come behind a value. -/
theorem mode_endString {stack : List Frame} {isKey : Bool} {text : List Symbol} {c : Control}
    {ms : List Member} (h : endString stack isKey text = some (c, ms)) :
    c.mode = .colon ∨ c.mode = .after := by
  unfold endString at h
  by_cases hkey : isKey = true
  · rw [if_pos hkey] at h
    cases stack with
    | nil => cases h
    | cons frame below =>
      cases frame with
      | object key =>
        cases h
        exact .inl rfl
      | array => cases h
  · rw [if_neg hkey] at h
    cases h
    exact .inr rfl

/-- The end of a string leaves it. -/
theorem outside_endString {stack : List Frame} {isKey : Bool} {text : List Symbol} {c : Control}
    {ms : List Member} (h : endString stack isKey text = some (c, ms)) : c.Outside := by
  rcases mode_endString h with hmode | hmode
  · exact outside_of_plain (by rw [hmode]; rfl)
  · exact outside_of_plain (by rw [hmode]; rfl)

/-- A byte with which a string goes on, whatever is around it. -/
structure GoesOn (isKey : Bool) (c : Control) (b : UInt8) (c' : Control) (ms : List Member) :
    Prop where
  /-- The string is not left. -/
  inString : c'.mode.inString = some isKey
  /-- Nothing is opened or closed. -/
  stack : c'.stack = c.stack
  /-- No member is read to its end. -/
  members : ms = []
  /-- What is around the string is not looked at. -/
  anywhere : ∀ stack, step ⟨stack, c.mode⟩ b = some (⟨stack, c'.mode⟩, [])
  /-- An escape is entered behind a backslash. -/
  backslash : ∀ read, c'.mode = .escape isKey read → b = 92

/-- A byte inside a string ends it, or goes on with it. -/
theorem step_inString {c c' : Control} {b : UInt8} {ms : List Member} {isKey : Bool}
    (hin : c.mode.inString = some isKey) (h : step c b = some (c', ms)) :
    (∃ read, c.mode = .string isKey read ∧ b = 34 ∧ endString c.stack isKey read = some (c', ms)) ∨
      GoesOn isKey c b c' ms := by
  obtain ⟨stack, mode⟩ := c
  rw [step] at h
  cases mode with
  | string k text =>
    cases hin
    dsimp only at h
    split_ifs at h with hquote hback hcontrol
    · exact .inl ⟨text, rfl, hquote, h⟩
    · cases h
      refine .inr ⟨rfl, rfl, rfl, fun _ => ?_, fun _ _ => hback⟩
      simp only [step, if_neg hquote, if_pos hback]
    · cases h
      refine .inr ⟨rfl, rfl, rfl, fun _ => ?_, fun _ hmode => by cases hmode⟩
      simp only [step, if_neg hquote, if_neg hback, if_neg hcontrol]
  | escape k text =>
    cases hin
    dsimp only at h
    split_ifs at h with hunicode
    · cases h
      refine .inr ⟨rfl, rfl, rfl, fun _ => ?_, fun _ hmode => by cases hmode⟩
      simp only [step, if_pos hunicode]
    · obtain ⟨v, hv, heq⟩ := Option.map_eq_some_iff.mp h
      cases heq
      refine .inr ⟨rfl, rfl, rfl, fun _ => ?_, fun _ hmode => by cases hmode⟩
      simp only [step, if_neg hunicode, hv, Option.map_some]
  | hex k text left acc =>
    cases hin
    obtain ⟨v, hv, heq⟩ := Option.map_eq_some_iff.mp h
    split_ifs at heq with hlast <;>
    · cases heq
      refine .inr ⟨rfl, rfl, rfl, fun _ => ?_, fun _ hmode => by cases hmode⟩
      simp only [step, hv, Option.map_some, hlast, if_true, if_false]
  | _ => cases hin

/-- A byte outside of strings begins one, or stays outside. -/
theorem step_outside {c c' : Control} {b : UInt8} {ms : List Member} (hout : c.Outside)
    (h : step c b = some (c', ms)) :
    (∃ isKey, c.mode.beginsString = some isKey ∧ b = 34 ∧ c' = ⟨c.stack, .string isKey []⟩) ∨
      (c'.Outside ∧ b ≠ 34) := by
  have hlift {x : Option Control} {P : Control → Prop} (hx : ∀ d, x = some d → P d)
      (hmap : x.map (·, ([] : List Member)) = some (c', ms)) : P c' := by
    obtain ⟨d, hd, heq⟩ := Option.map_eq_some_iff.mp hmap
    cases heq
    exact hx _ hd
  have hafter := fun d (hd : afterStep c.stack b = some d) => outside_afterStep hd
  have hvalue := fun d (hd : valueStep c.stack b = some d) => valueStep_cases hd
  have hspace (hb : isSpace b = true) : b ≠ 34 := by
    rintro rfl
    exact absurd hb (by decide)
  obtain ⟨stack, mode⟩ := c
  rw [step] at h
  cases mode with
  | value =>
    dsimp only at h
    split_ifs at h with hblank
    · cases h
      exact .inr ⟨hout, hspace hblank⟩
    · exact (hlift hvalue h).imp_left fun hstring => ⟨false, rfl, hstring⟩
  | valueOrClose =>
    dsimp only at h
    split_ifs at h with hblank hclose
    · cases h
      exact .inr ⟨hout, hspace hblank⟩
    · exact .inr (hlift hafter h)
    · exact (hlift hvalue h).imp_left fun hstring => ⟨false, rfl, hstring⟩
  | key =>
    dsimp only at h
    split_ifs at h with hblank hquote
    · cases h
      exact .inr ⟨hout, hspace hblank⟩
    · cases h
      exact .inl ⟨true, rfl, hquote, rfl⟩
  | keyOrClose =>
    dsimp only at h
    split_ifs at h with hblank hquote hclose
    · cases h
      exact .inr ⟨hout, hspace hblank⟩
    · cases h
      exact .inl ⟨true, rfl, hquote, rfl⟩
    · exact .inr (hlift hafter h)
  | colon =>
    dsimp only at h
    split_ifs at h with hblank hcolon
    · cases h
      exact .inr ⟨hout, hspace hblank⟩
    · cases h
      exact .inr ⟨outside_of_plain rfl, by rw [hcolon]; decide⟩
  | after => exact .inr (hlift hafter h)
  | number phase =>
    dsimp only at h
    cases hnext : phase.next b with
    | some phase' =>
      rw [hnext] at h
      cases h
      refine .inr ⟨outside_of_plain rfl, ?_⟩
      rintro rfl
      cases phase <;> cases hnext
    | none =>
      rw [hnext] at h
      dsimp only at h
      split_ifs at h
      exact .inr (hlift hafter h)
  | literal rest =>
    cases rest with
    | nil => cases h
    | cons r rest =>
      have hletters := hout.spelled (r :: rest) rfl
      dsimp only at h
      split_ifs at h with hb hend
      · cases h
        refine .inr ⟨outside_of_plain rfl, ?_⟩
        rintro rfl
        exact absurd (hletters r List.mem_cons_self) (by rw [← hb]; decide)
      · cases h
        refine .inr ⟨⟨rfl, ?_⟩, ?_⟩
        · rintro rest' ⟨⟩
          exact fun a ha => hletters a (List.mem_cons_of_mem r ha)
        · rintro rfl
          exact absurd (hletters r List.mem_cons_self) (by rw [← hb]; decide)
  | string | escape | hex => cases hout.noString

/-- What stands between the quotes of a string, whatever is around it. -/
def StringText (isKey : Bool) (body : Octets) (read : List Symbol) : Prop :=
  ∀ stack, run ⟨stack, .string isKey []⟩ body = some (⟨stack, .string isKey read⟩, [])

/-- A string of a text that is read from some control: what stands between its
quotes, the control behind it and the rest of the text. -/
def StringIn (c : Control) (text body : Octets) (c' : Control) (rest : Octets) : Prop :=
  ∃ front between isKey read ms ms', text = front ++ 34 :: (body ++ 34 :: rest) ∧
    run c front = some (between, ms) ∧ between.mode.beginsString = some isKey ∧
    StringText isKey body read ∧ endString between.stack isKey read = some (c', ms')

/-- What is read from outside of strings ends outside of them or inside of one. -/
theorem outside_or_inString {c c' : Control} {text : Octets} {ms : List Member} (hout : c.Outside)
    (hrun : run c text = some (c', ms)) : c'.Outside ∨ ∃ isKey, c'.mode.inString = some isKey := by
  induction text using List.reverseRecOn generalizing c' ms with
  | nil =>
    cases hrun
    exact .inl hout
  | append_singleton text b ih =>
    obtain ⟨d, ms₁, ms₂, hd, hstep, -⟩ := run_snoc hrun
    rcases ih hd with hd | ⟨isKey, hin⟩
    · rcases step_outside hd hstep with ⟨isKey, -, -, rfl⟩ | ⟨hstill, -⟩
      · exact .inr ⟨isKey, rfl⟩
      · exact .inl hstill
    · rcases step_inString hin hstep with ⟨read, -, -, hend⟩ | hgoes
      · exact .inl (outside_endString hend)
      · exact .inr ⟨isKey, hgoes.inString⟩

/-- What is read outside of strings, and inside of one in the end, has the
beginning of this string in it. -/
theorem begun_of_run {c c' : Control} {text : Octets} {ms : List Member} {isKey : Bool}
    (hout : c.Outside) (hrun : run c text = some (c', ms)) (hin : c'.mode.inString = some isKey) :
    ∃ front body between ms₁, text = front ++ 34 :: body ∧ run c front = some (between, ms₁) ∧
      between.mode.beginsString = some isKey ∧ c'.stack = between.stack ∧
      ∀ stack, run ⟨stack, .string isKey []⟩ body = some (⟨stack, c'.mode⟩, []) := by
  induction text using List.reverseRecOn generalizing c' ms isKey with
  | nil =>
    cases hrun
    rw [hout.noString] at hin
    cases hin
  | append_singleton text b ih =>
    obtain ⟨d, ms₁, ms₂, hd, hstep, -⟩ := run_snoc hrun
    rcases outside_or_inString hout hd with hd' | ⟨isKey', hin'⟩
    · rcases step_outside hd' hstep with ⟨isKey', hbegins, rfl, rfl⟩ | ⟨hstill, -⟩
      · cases hin
        exact ⟨text, [], d, ms₁, rfl, hd, hbegins, rfl, fun _ => rfl⟩
      · rw [hstill.noString] at hin
        cases hin
    · obtain ⟨front, body, between, ms₃, rfl, hfront, hbegins, hstack, hbody⟩ := ih hd hin'
      rcases step_inString hin' hstep with ⟨read, -, -, hend⟩ | hgoes
      · rw [(outside_endString hend).noString] at hin
        cases hin
      · have hsame := hgoes.inString
        rw [hin] at hsame
        cases hsame
        refine ⟨front, body ++ [b], between, ms₃, by rw [List.append_assoc, List.cons_append],
          hfront, hbegins, hgoes.stack.trans hstack, fun stack => run_then (hbody stack) ?_⟩
        rw [run, hgoes.anywhere stack]
        rfl

/-- What is read from inside of a string, and outside of strings in the end, has
the end of this string in it. -/
theorem ended_of_run {c c' : Control} {text : Octets} {ms : List Member} {isKey : Bool}
    (hin : c.mode.inString = some isKey) (hrun : run c text = some (c', ms))
    (hout : c'.mode.inString = none) :
    ∃ more rest read d ms₁ ms₂, text = more ++ 34 :: rest ∧
      (∀ stack, run ⟨stack, c.mode⟩ more = some (⟨stack, .string isKey read⟩, [])) ∧
      endString c.stack isKey read = some (d, ms₁) ∧ run d rest = some (c', ms₂) := by
  induction text generalizing c ms with
  | nil =>
    cases hrun
    rw [hout] at hin
    cases hin
  | cons b text ih =>
    obtain ⟨d, ms₁, ms₂, hnext, hlast, -⟩ := run_uncons hrun
    rcases step_inString hin hnext with ⟨read, hmode, rfl, hend⟩ | hgoes
    · exact ⟨[], text, read, d, ms₁, ms₂, rfl, fun stack => by rw [run, hmode], hend, hlast⟩
    · obtain ⟨more, rest, read, e, ms₃, ms₄, rfl, hmore, hend, hbehind⟩ := ih hgoes.inString hlast
      rw [hgoes.stack] at hend
      refine ⟨b :: more, rest, read, e, ms₃, ms₄, rfl, fun stack => ?_, hend, hbehind⟩
      rw [run, hgoes.anywhere stack, Option.bind_some, hmore stack]
      rfl

/-- A byte that occurs in no number, in no literal name behind its first letter, and
between no two values. -/
structure Foreign (b : UInt8) : Prop where
  /-- It begins no value. -/
  value : valueStart b = none
  /-- It is not what comes behind a value. -/
  after : ∀ stack, afterStep stack b = none
  /-- No number goes on with it. -/
  number : ∀ phase : NumberPhase, phase.next b = none
  /-- It is no letter of a literal name. -/
  letter : b ∉ literalLetters
  /-- It is no white space, no quote and no colon. -/
  blank : isSpace b = false ∧ b ≠ 34 ∧ b ≠ 58

/-- A letter that occurs in no escape either. -/
structure OnlyInStrings (b : UInt8) : Prop extends Foreign b where
  /-- It comes behind no backslash. -/
  escape : b ≠ 117 ∧ escapeValue b = none
  /-- It is no hexadecimal digit. -/
  digit : hexValue b = none

/-- Such a byte is not read outside of strings. -/
theorem step_foreign {c : Control} {b : UInt8} (hout : c.Outside) (hb : Foreign b) :
    step c b = none := by
  obtain ⟨hblank, hquote, hcolon⟩ := hb.blank
  have hspace : ¬ isSpace b = true := by rw [hblank]; exact Bool.false_ne_true
  have hafter := hb.after c.stack
  obtain ⟨stack, mode⟩ := c
  rw [step]
  cases mode with
  | value =>
    dsimp only
    rw [if_neg hspace, valueStep, hb.value]
    rfl
  | valueOrClose =>
    dsimp only
    rw [if_neg hspace, hafter, valueStep, hb.value]
    exact ite_self _
  | key =>
    dsimp only
    rw [if_neg hspace, if_neg hquote]
  | keyOrClose =>
    dsimp only
    rw [if_neg hspace, if_neg hquote, hafter]
    exact ite_self _
  | colon =>
    dsimp only
    rw [if_neg hspace, if_neg hcolon]
  | after =>
    dsimp only
    rw [hafter]
    rfl
  | number phase =>
    dsimp only
    rw [hb.number, hafter]
    exact ite_self _
  | literal rest =>
    cases rest with
    | nil => rfl
    | cons r rest =>
      refine if_neg ?_
      rintro rfl
      exact hb.letter (hout.spelled (b :: rest) rfl b List.mem_cons_self)
  | string | escape | hex => cases hout.noString

/-- Behind a string comes none of the bytes that are neither white space nor a
colon nor come behind a value. -/
theorem step_behind_string {stack : List Frame} {isKey : Bool} {text : List Symbol} {c : Control}
    {ms : List Member} {b : UInt8} (h : endString stack isKey text = some (c, ms))
    (hafter : ∀ stack, afterStep stack b = none) (hblank : isSpace b = false) (hcolon : b ≠ 58) :
    step c b = none := by
  obtain ⟨stack', mode⟩ := c
  rcases mode_endString h with hmode | hmode
  · cases hmode
    rw [step]
    dsimp only
    rw [hblank, if_neg Bool.false_ne_true, if_neg hcolon]
  · cases hmode
    rw [step]
    dsimp only
    rw [hafter]
    rfl

/-- A zero byte is foreign. -/
theorem foreign_zero : Foreign 0 where
  value := rfl
  after := by rintro (_ | ⟨_ | _, _⟩) <;> rfl
  number := by rintro ⟨⟩ <;> rfl
  letter := by decide
  blank := by decide

/-- A text that is read from outside of strings holds no zero byte. -/
theorem zero_notMem_of_run {c c' : Control} {text : Octets} {ms : List Member} (hout : c.Outside)
    (hrun : run c text = some (c', ms)) : 0 ∉ text := by
  intro hzero
  obtain ⟨front, rest, rfl⟩ := List.append_of_mem hzero
  obtain ⟨d, ms₁, ms₂, hfront, hbehind, -⟩ := run_split hrun
  obtain ⟨e, ms₃, ms₄, hstep, -, -⟩ := run_uncons hbehind
  rcases outside_or_inString hout hfront with hd | ⟨isKey, hin⟩
  · rw [step_foreign hd foreign_zero] at hstep
    cases hstep
  · obtain ⟨stack, mode⟩ := d
    cases mode with
    | string | escape | hex => cases hstep
    | _ => cases hin

/-- A text that is read to its end ends outside of strings. -/
theorem IsJson.exists_run {text : Octets} {ms : List Member} (h : IsJson text ms) :
    ∃ c, run .start text = some (c, ms) ∧ c.mode.inString = none := by
  obtain ⟨⟨c, ms'⟩, hrun, hfinal⟩ := Option.bind_eq_some_iff.mp h
  dsimp only at hfinal
  split_ifs at hfinal with hend
  cases hfinal
  refine ⟨c, hrun, ?_⟩
  obtain ⟨stack, mode⟩ := c
  cases mode with
  | string | escape | hex => cases (Bool.and_eq_true_iff.mp hend).2
  | _ => rfl

/-- A JSON value holds no zero byte. -/
theorem IsJson.zero_notMem {text : Octets} {ms : List Member} (h : IsJson text ms) :
    0 ∉ text := by
  obtain ⟨c, hrun, -⟩ := h.exists_run
  exact zero_notMem_of_run outside_start hrun

/-- Letters that occur in no literal name, in no escape and in no number. -/
def wordLetters : Octets := [103, 104, 105, 106, 107, 109, 111, 112, 113, 118, 119, 120, 121, 122]

/-- They occur only in strings. -/
theorem onlyInStrings_of_mem {b : UInt8} (hb : b ∈ wordLetters) : OnlyInStrings b := by
  have hcommas : ∀ b ∈ wordLetters, isSpace b = false ∧ b ≠ 44 ∧ b ≠ 93 ∧ b ≠ 125 :=
    List.forall_iff_forall_mem.mp (by decide)
  have hnumber (phase : NumberPhase) : ∀ b ∈ wordLetters, phase.next b = none := by
    cases phase <;> exact List.forall_iff_forall_mem.mp (by decide)
  have hvalue : ∀ b ∈ wordLetters, valueStart b = none ∧ b ∉ literalLetters ∧ b ≠ 34 ∧ b ≠ 58 ∧
      b ≠ 117 ∧ escapeValue b = none ∧ hexValue b = none :=
    List.forall_iff_forall_mem.mp (by decide)
  obtain ⟨hspace, hcomma, hbracket, hbrace⟩ := hcommas b hb
  obtain ⟨hstart, hletter, hquote, hcolon, hunicode, hescape, hdigit⟩ := hvalue b hb
  refine ⟨⟨hstart, fun stack => ?_, fun phase => hnumber phase b hb, hletter, hspace, hquote,
    hcolon⟩, ⟨hunicode, hescape⟩, hdigit⟩
  unfold afterStep
  rw [if_neg (by rw [hspace]; exact Bool.false_ne_true)]
  rcases stack with _ | ⟨_ | _, _⟩
  · rfl
  · exact (if_neg hcomma).trans (if_neg hbrace)
  · exact (if_neg hcomma).trans (if_neg hbracket)

/-- A quote ends the string that is read. -/
theorem step_quote (stack : List Frame) (isKey : Bool) (read : List Symbol) :
    step ⟨stack, .string isKey read⟩ 34 = endString stack isKey read := rfl

/-- The byte behind which an escape stands is a backslash. -/
theorem backslash_of_escape {c c' : Control} {text : Octets} {ms : List Member} {isKey : Bool}
    {read : List Symbol} (hout : c.Outside) (hrun : run c text = some (c', ms))
    (hmode : c'.mode = .escape isKey read) : ∃ front, text = front ++ [92] := by
  have hin : c'.mode.inString = some isKey := by rw [hmode]; rfl
  rcases List.eq_nil_or_concat' text with rfl | ⟨front, b, rfl⟩
  · cases hrun
    rw [hout.noString] at hin
    cases hin
  · obtain ⟨d, ms₁, ms₂, hfront, hstep, -⟩ := run_snoc hrun
    rcases outside_or_inString hout hfront with hd | ⟨isKey', hd⟩
    · rcases step_outside hd hstep with ⟨k, -, -, rfl⟩ | ⟨hstill, -⟩
      · cases hmode
      · rw [hstill.noString] at hin
        cases hin
    · rcases step_inString hd hstep with ⟨_, -, -, hend⟩ | hgoes
      · rw [(outside_endString hend).noString] at hin
        cases hin
      · have hsame := hgoes.inString
        rw [hin] at hsame
        cases hsame
        exact ⟨front, by rw [hgoes.backslash read hmode]⟩

/-- Behind a quote a text ends as the whole does, unless it is empty. -/
theorem exists_snoc {front body text : Octets} {q b : UInt8} (h : front ++ q :: body = text ++ [b])
    (hne : q ≠ b) : ∃ body', body = body' ++ [b] := by
  rcases List.eq_nil_or_concat' body with rfl | ⟨body', last, rfl⟩
  · exact absurd (List.cons.inj (List.append_inj' h rfl).2).1 hne
  · rw [← List.cons_append, ← List.append_assoc] at h
    exact ⟨body', congrArg (body' ++ ·) (List.append_inj' h rfl).2⟩

/-- A word whose first letter occurs only in strings stands in a string. -/
theorem word_in_string {c c' : Control} {a b word : Octets} {w : UInt8} {ms : List Member}
    (hout : c.Outside) (hw : OnlyInStrings w) (hword : Unescaped (w :: word))
    (hrun : run c (a ++ (w :: word ++ b)) = some (c', ms)) (hend : c'.mode.inString = none) :
    ∃ front body more rest d ms', a = front ++ 34 :: body ∧ b = more ++ 34 :: rest ∧
      StringIn c (a ++ (w :: word ++ b)) (body ++ (w :: word ++ more)) d rest ∧
      d.Outside ∧ run d rest = some (c', ms') := by
  obtain ⟨d, ms₁, ms₂, hfront, hbehind, -⟩ := run_split hrun
  obtain ⟨e, ms₃, ms₄, hstep, -, -⟩ := run_uncons hbehind
  rcases outside_or_inString hout hfront with hd | ⟨isKey, hin⟩
  · rw [step_foreign hd hw.toForeign] at hstep
    cases hstep
  · obtain ⟨front, body, between, ms₅, rfl, hbetween, hbegins, hstack, hbody⟩ :=
      begun_of_run hout hfront hin
    obtain ⟨stack, mode⟩ := d
    cases hstack
    cases mode with
    | string k read =>
      cases hin
      have hread := run_string between.stack hword isKey read
      obtain ⟨d, ms₆, ms₇, hd, hmore, -⟩ := run_split hbehind
      rw [hread] at hd
      cases hd
      obtain ⟨more, rest, read', d, ms₈, ms₉, rfl, hmore, hends, hrest⟩ :=
        ended_of_run rfl hmore hend
      refine ⟨front, body, more, rest, d, ms₉, rfl, rfl, ⟨front, between, isKey, read', ms₅, ms₈,
        ?_, hbetween, hbegins, ?_, hends⟩, outside_endString hends, hrest⟩
      · simp only [List.append_assoc, List.cons_append]
      · exact fun stack => run_then (hbody stack)
          (run_then (run_string stack hword isKey read) (hmore stack))
    | escape k read =>
      rw [step] at hstep
      dsimp only at hstep
      rw [if_neg hw.escape.1, hw.escape.2] at hstep
      cases hstep
    | hex k read left acc =>
      rw [step] at hstep
      dsimp only at hstep
      rw [hw.digit] at hstep
      cases hstep
    | _ => cases hin

/-- A word between quotes is a whole string, or the end of one behind an escaped
quote, if nothing begins with its first letter behind a string. -/
theorem quoted_in_string {c c' : Control} {a b word : Octets} {w : UInt8} {ms : List Member}
    (hout : c.Outside) (hafter : ∀ stack, afterStep stack w = none) (hblank : isSpace w = false)
    (hcolon : w ≠ 58) (hword : Unescaped (w :: word))
    (hrun : run c (a ++ 34 :: (w :: word ++ 34 :: b)) = some (c', ms)) :
    ∃ body d ms', StringIn c (a ++ 34 :: (w :: word ++ 34 :: b)) body d b ∧
      (body = w :: word ∨ 92 :: 34 :: w :: word <:+ body) ∧ d.Outside ∧
      run d b = some (c', ms') := by
  obtain ⟨d, ms₁, ms₂, hfront, hbehind, -⟩ := run_split hrun
  obtain ⟨e, ms₃, ms₄, hquote, hinside, -⟩ := run_uncons hbehind
  obtain ⟨f, ms₅, ms₆, hf, hclose, -⟩ := run_split hinside
  obtain ⟨g, ms₇, ms₈, hend, hrest, -⟩ := run_uncons hclose
  -- what the quote behind the word does, where the quote in front leads into a string
  have hends {stack : List Frame} {isKey : Bool} {read : List Symbol}
      (he : e = ⟨stack, .string isKey read⟩) :
      f = ⟨stack, .string isKey (read ++ (w :: word).map .byte)⟩ ∧
        endString stack isKey (read ++ (w :: word).map .byte) = some (g, ms₇) := by
    rw [he, run_string stack hword isKey read] at hf
    cases hf
    exact ⟨rfl, hend⟩
  rcases outside_or_inString hout hfront with hd | ⟨isKey, hin⟩
  · rcases step_outside hd hquote with ⟨isKey, hbegins, -, he⟩ | ⟨-, hne⟩
    · obtain ⟨-, hclosed⟩ := hends he
      refine ⟨w :: word, g, ms₈, ⟨a, d, isKey, _, ms₁, ms₇, rfl, hfront, hbegins, ?_, hclosed⟩,
        .inl rfl, outside_endString hclosed, hrest⟩
      exact fun stack => run_string stack hword isKey []
    · exact absurd rfl hne
  · obtain ⟨front, body, between, ms₉, rfl, hbetween, hbegins, hstack, hbody⟩ :=
      begun_of_run hout hfront hin
    obtain ⟨stack, mode⟩ := d
    cases hstack
    cases mode with
    | string k read =>
      -- the quote in front ends the string, and the word cannot follow
      rw [step_quote] at hquote
      obtain ⟨x, ms₁₀, ms₁₁, hstep, -, -⟩ := run_uncons hf
      rw [step_behind_string hquote hafter hblank hcolon] at hstep
      cases hstep
    | escape k read =>
      cases hin
      cases hquote
      obtain ⟨-, hclosed⟩ := hends rfl
      obtain ⟨a', ha⟩ := backslash_of_escape hout hfront rfl
      obtain ⟨body', rfl⟩ := exists_snoc ha (by decide)
      refine ⟨body' ++ [92] ++ 34 :: w :: word, g, ms₈, ⟨front, between, isKey, _, ms₉, ms₇,
        ?_, hbetween, hbegins, fun stack => run_then (hbody stack) ?_, hclosed⟩,
        .inr ⟨body', by rw [List.append_assoc, List.singleton_append]⟩, outside_endString hclosed,
        hrest⟩
      · simp only [List.append_assoc, List.cons_append]
      · have hescaped : step ⟨stack, .escape isKey read⟩ 34 =
            some (⟨stack, .string isKey (read ++ [.byte 34])⟩, []) := rfl
        rw [run, hescaped, Option.bind_some, run_string stack hword isKey]
        rfl
    | hex k read left acc => cases hquote
    | _ => cases hin

/-- The text of a string, the quote behind it and the rest end the text. -/
theorem StringIn.suffix {c c' : Control} {text body rest : Octets}
    (h : StringIn c text body c' rest) : body ++ 34 :: rest <:+ text := by
  obtain ⟨front, -, -, -, -, -, rfl, -⟩ := h
  exact (List.suffix_cons 34 _).trans (List.suffix_append front _)

/-- A word does not reach over a byte that it does not hold. -/
theorem infix_or_infix {word : Octets} (xs : Octets) {ys : Octets} {b : UInt8} (hb : b ∉ word)
    (h : word <:+: xs ++ b :: ys) : word <:+: xs ∨ word <:+: ys := by
  obtain ⟨front, back, heq⟩ := h
  rcases List.append_eq_append_iff.mp heq with ⟨more, rfl, -⟩ | ⟨more, hfront, hback⟩
  · exact .inl ⟨front, more, rfl⟩
  · cases more with
    | nil => exact .inl ⟨front, [], by rw [hfront, List.append_nil, List.append_nil]⟩
    | cons b' more =>
      cases hback
      rcases List.append_eq_append_iff.mp hfront with ⟨between, -, rfl⟩ | ⟨between, -, hword⟩
      · exact absurd (List.mem_append_right between List.mem_cons_self) hb
      · cases between with
        | nil =>
          rw [List.nil_append] at hword
          rw [← hword] at hb
          exact absurd List.mem_cons_self hb
        | cons b' between =>
          cases hword
          exact .inr ⟨between, back, rfl⟩

end TelemetryPlatform.JsonText
