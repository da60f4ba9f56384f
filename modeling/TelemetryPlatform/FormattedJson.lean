import TelemetryPlatform.FormattedText
import TelemetryPlatform.JsonText
import TelemetryPlatform.Utf8Text

/-!
# Formatted text that is JSON

A printed integer is a JSON number, and so is a printed double unless it is NaN
or infinite. Where a string is printed between quotes, the text is read with
that string as the member exactly when the string needs no escapes. So a format
string that fits the grammar with its arguments left out prints a JSON text
exactly when every argument does its part.
-/

namespace TelemetryPlatform.FormattedJson

open CStrings Binary64 FormattedText JsonText Utf8Text

/-- A single digit. -/
theorem decimal_of_lt {n : ℕ} (h : n < 10) : decimal n = [digitAt n 1] := by
  have hall : ∀ k < 10, UInt8.ofNat (Nat.digitChar k).toNat = digitAt k 1 := by decide
  rw [decimal, Nat.toDigits_of_lt_base h, List.map_singleton, hall n h]

/-- The last digit of a longer number. -/
theorem decimal_of_le {n : ℕ} (h : 10 ≤ n) : decimal n = decimal (n / 10) ++ [digitAt n 1] := by
  have hlast : digitAt n 1 = digitAt (n % 10) 1 := by
    rw [digitAt, digitAt, Nat.div_one, Nat.div_one, Nat.mod_mod]
  have hone := decimal_of_lt (Nat.mod_lt n (by decide : 0 < 10))
  rw [decimal, Nat.toDigits_of_lt_base (Nat.mod_lt n (by decide))] at hone
  rw [hlast, decimal, Nat.toDigits_of_base_le (by decide) h, List.map_append, hone, decimal]

/-- A printed digit is one. -/
theorem isDigit_digitAt (n weight : ℕ) : isDigit (digitAt n weight) = true := by
  have hvalue : (digitAt n weight).toNat = 48 + n / weight % 10 := by
    rw [digitAt, UInt8.toNat_ofNat']
    omega
  rw [isDigit, Bool.and_eq_true, decide_eq_true_eq, decide_eq_true_eq, UInt8.le_iff_toNat_le,
    UInt8.le_iff_toNat_le, hvalue]
  change 48 ≤ _ ∧ _ ≤ 57
  omega

/-- A last digit is zero where the number ends in one. -/
theorem digitAt_eq_zero_iff (n : ℕ) : digitAt n 1 = 48 ↔ n % 10 = 0 := by
  rw [← UInt8.toNat_inj, digitAt, UInt8.toNat_ofNat', Nat.div_one]
  change _ = 48 ↔ _
  omega

/-- How much of a number its integer digits are. -/
def integerPhase (n : ℕ) : NumberPhase := if n = 0 then .zero else .digits

/-- A decimal number is read without a superfluous leading zero, from where a
number starts. -/
theorem run_decimal {c : Control} (hzero : step c 48 = some (⟨c.stack, .number .zero⟩, []))
    (hdigit : ∀ b, b ≠ 48 → isDigit b = true → step c b = some (⟨c.stack, .number .digits⟩, []))
    (n : ℕ) : run c (decimal n) = some (⟨c.stack, .number (integerPhase n)⟩, []) := by
  induction n using Nat.strong_induction_on with
  | _ n ih =>
    rcases Nat.lt_or_ge n 10 with hsmall | hlarge
    · rw [decimal_of_lt hsmall]
      by_cases hn : n = 0
      · rw [run, (digitAt_eq_zero_iff n).mpr (by omega), hzero, hn]
        rfl
      · rw [run, hdigit _ (mt (digitAt_eq_zero_iff n).mp (by omega)) (isDigit_digitAt n 1),
          integerPhase, if_neg hn]
        rfl
    · have hnext : NumberPhase.digits.next (digitAt n 1) = some .digits :=
        if_pos (isDigit_digitAt n 1)
      rw [decimal_of_le hlarge, run_append, ih (n / 10) (by omega), integerPhase,
        if_neg (by omega), Option.bind_some, run, step_number hnext,
        integerPhase, if_neg (by omega)]
      rfl

/-- A number may end behind its integer digits. -/
theorem complete_integerPhase (n : ℕ) : (integerPhase n).complete = true := by
  unfold integerPhase
  split_ifs <;> rfl

/-- The digits behind the point. -/
theorem run_fraction {stack : List Frame} {ds : Bytes} (hds : ∀ d ∈ ds, isDigit d = true) :
    run ⟨stack, .number .fraction⟩ ds = some (⟨stack, .number .fraction⟩, []) := by
  induction ds with
  | nil => rfl
  | cons d ds ih =>
    have hnext : NumberPhase.fraction.next d = some .fraction := if_pos (hds d List.mem_cons_self)
    rw [run, step_number hnext, Option.bind_some, ih fun a ha => hds a (List.mem_cons_of_mem d ha)]
    rfl

/-- A decimal number is read where a value starts. -/
theorem run_value_decimal (n : ℕ) :
    run ⟨[], .value⟩ (decimal n) = some (⟨[], .number (integerPhase n)⟩, []) :=
  run_decimal rfl (fun _ hzero hb => step_value_digit hzero hb []) n

/-- A sign in front of a value starts a number. -/
theorem run_sign (text : Bytes) :
    run ⟨[], .value⟩ (45 :: text) = run ⟨[], .number .minus⟩ text := by
  have hsign : step ⟨[], .value⟩ 45 = some (⟨[], .number .minus⟩, []) := rfl
  rw [run, hsign, Option.bind_some]
  exact Option.map_id'

/-- A decimal number is read behind a sign. -/
theorem run_minus_decimal (n : ℕ) :
    run ⟨[], .number .minus⟩ (decimal n) = some (⟨[], .number (integerPhase n)⟩, []) := by
  refine run_decimal rfl (fun b hzero hb => step_number ?_ []) n
  exact (if_neg hzero).trans (if_pos hb)

/-- A signed number is a number. -/
theorem isNumber_signedDecimal (z : ℤ) : IsNumber (signedDecimal z) := by
  unfold signedDecimal
  split_ifs
  · exact ⟨_, complete_integerPhase _, (run_sign _).trans (run_minus_decimal _)⟩
  · exact ⟨_, complete_integerPhase _, run_value_decimal _⟩

/-- So is a natural number. -/
theorem isNumber_decimal (n : ℕ) : IsNumber (decimal n) :=
  ⟨_, complete_integerPhase n, run_value_decimal n⟩

/-- A number with six decimals behind its point goes on from its integer digits. -/
theorem run_millionths {c : Control} {n : ℕ}
    (hinteger : run c (decimal (n / 1000000)) =
      some (⟨[], .number (integerPhase (n / 1000000))⟩, [])) :
    run c (millionths n) = some (⟨[], .number .fraction⟩, []) := by
  have hpoint : step ⟨[], .number (integerPhase (n / 1000000))⟩ 46 =
      some (⟨[], .number .point⟩, []) := by
    unfold integerPhase
    split_ifs <;> rfl
  have hfirst : NumberPhase.point.next (digitAt n 100000) = some .fraction :=
    if_pos (isDigit_digitAt n 100000)
  have hrest : ∀ d ∈ [digitAt n 10000, digitAt n 1000, digitAt n 100, digitAt n 10, digitAt n 1],
      isDigit d = true := by
    simp [isDigit_digitAt]
  rw [millionths, run_append, hinteger, Option.bind_some, run, hpoint, Option.bind_some, run,
    step_number hfirst, Option.bind_some, run_fraction hrest]
  rfl

/-- A finite double is printed as a number. -/
theorem isNumber_fixedSix {x : Double} (h : x.isFinite = true) : IsNumber (fixedSix x) := by
  cases x with
  | nan negative => cases h
  | infinite negative => cases h
  | finite negative mantissa exponent =>
    refine ⟨.fraction, rfl, ?_⟩
    rw [fixedSix]
    split_ifs
    · exact (run_sign _).trans (run_millionths (run_minus_decimal _))
    · exact run_millionths (run_value_decimal _)

/-- Where a number is expected, NaN and infinities are not read. -/
theorem run_fixedSix_of_not {x : Double} (h : ¬ x.isFinite = true) (stack : List Frame) :
    run ⟨stack, .value⟩ (fixedSix x) = none := by
  cases x with
  | nan negative => cases negative <;> rfl
  | infinite negative => cases negative <;> rfl
  | finite negative mantissa exponent => exact absurd rfl h

/-- What is known of a piece without its argument. -/
inductive Shape where
  /-- Literal text. -/
  | text (bytes : Bytes)
  /-- Conversion of a string. -/
  | string
  /-- Conversion of a number. -/
  | number
  deriving DecidableEq

/-- A piece without its argument. -/
def shapeOf : Piece → Shape
  | .text s => .text s.bytes
  | .str _ => .string
  | .fixed _ | .lld _ | .llu _ | .d _ | .u _ => .number

/-- The literal text that comes next. -/
def upcoming : List Shape → Bytes
  | .text bytes :: _ => bytes
  | _ => []

/-- The place of a string member, with its value where that is literal text. -/
abbrev Slot := List Octets × Option Octets

/-- The slot of a string that is read around no text becomes that of the
argument. -/
def openSlot (path : List Octets) : List Slot → Option (List Slot)
  | (place, some []) :: slots => if place = path then some ((path, none) :: slots) else none
  | _ => none

/-- Read a format string without its arguments. A number stands where a value
starts and is followed by a comma or the end of an object, a string stands
between quotes and is followed by a comma and a key, and all literal text is
ASCII. -/
def fits : Control → List Shape → Option (Control × List Slot)
  | c, [] => some (c, [])
  | c, .text bytes :: rest =>
    if Ascii bytes then
      (run c bytes).bind fun x =>
        (fits x.1 rest).map fun y => (y.1, x.2.map (fun m => (m.1, some m.2)) ++ y.2)
    else none
  | c, .number :: rest =>
    if c.mode = .value ∧ ((upcoming rest).head? = some 44 ∨ (upcoming rest).head? = some 125) then
      fits ⟨c.stack, .after⟩ rest
    else none
  | c, .string :: rest =>
    if c.mode = .string false [] ∧ (upcoming rest).take 3 = [34, 44, 34] then
      (fits c rest).bind fun y => (openSlot (c.stack.map Frame.key) y.2).map fun slots => (y.1, slots)
    else none

/-- The strings among the arguments. -/
def strings : List Piece → List Bytes
  | [] => []
  | .str s :: rest => s.bytes :: strings rest
  | _ :: rest => strings rest

/-- The doubles among the arguments. -/
def doubles : List Piece → List Double
  | [] => []
  | .fixed x :: rest => x :: doubles rest
  | _ :: rest => doubles rest

/-- The string members for given strings. -/
def fill : List Slot → List Bytes → List Member
  | (path, some value) :: slots, strings => (path, value) :: fill slots strings
  | (path, none) :: slots, value :: strings => (path, value) :: fill slots strings
  | _, _ => []

/-- The text of pieces. -/
def textOf (pieces : List Piece) : Bytes := (pieces.map Piece.bytes).flatten

/-- The next literal text is the front of the text. -/
theorem upcoming_append (pieces : List Piece) :
    ∃ rest, textOf pieces = upcoming (pieces.map shapeOf) ++ rest := by
  cases pieces with
  | nil => exact ⟨[], rfl⟩
  | cons p pieces =>
    cases p with
    | text s => exact ⟨textOf pieces, rfl⟩
    | _ => exact ⟨_, rfl⟩

/-- So are its first bytes. -/
theorem textOf_of_upcoming {pieces : List Piece} {a b c : UInt8}
    (h : (upcoming (pieces.map shapeOf)).take 3 = [a, b, c]) :
    ∃ tail, textOf pieces = a :: b :: c :: tail := by
  obtain ⟨later, hlater⟩ := upcoming_append pieces
  refine ⟨(upcoming (pieces.map shapeOf)).drop 3 ++ later, ?_⟩
  rw [hlater, ← List.take_append_drop 3 (upcoming (pieces.map shapeOf)), h]
  simp

/-- Literal members stay in front. -/
theorem fill_append (ms : List Member) (slots : List Slot) (strings : List Bytes) :
    fill (ms.map (fun m => (m.1, some m.2)) ++ slots) strings = ms ++ fill slots strings := by
  induction ms with
  | nil => rfl
  | cons m ms ih => rw [List.map_cons, List.cons_append, fill, ih, List.cons_append]

/-- The slot that is opened comes first. -/
theorem openSlot_eq_some {path : List Octets} {slots opened : List Slot}
    (h : openSlot path slots = some opened) :
    ∃ later, slots = (path, some []) :: later ∧ opened = (path, none) :: later := by
  match slots, h with
  | (place, some []) :: later, h =>
    rw [openSlot] at h
    split_ifs at h with hplace
    cases h
    exact ⟨later, by rw [hplace], rfl⟩

section Fits

variable {c last : Control} {rest : List Shape} {slots : List Slot}

/-- Literal text in a format string that fits. -/
theorem fits_text {bytes : Bytes} (h : fits c (.text bytes :: rest) = some (last, slots)) :
    Ascii bytes ∧ ∃ c' ms later, run c bytes = some (c', ms) ∧ fits c' rest = some (last, later) ∧
      slots = ms.map (fun m => (m.1, some m.2)) ++ later := by
  rw [fits] at h
  split_ifs at h with hascii
  obtain ⟨x, hrun, hrest⟩ := Option.bind_eq_some_iff.mp h
  obtain ⟨y, hy, heq⟩ := Option.map_eq_some_iff.mp hrest
  cases heq
  exact ⟨hascii, x.1, x.2, y.2, hrun, hy, rfl⟩

/-- A number in it. -/
theorem fits_number (h : fits c (.number :: rest) = some (last, slots)) :
    c.mode = .value ∧ ((upcoming rest).head? = some 44 ∨ (upcoming rest).head? = some 125) ∧
      fits ⟨c.stack, .after⟩ rest = some (last, slots) := by
  rw [fits] at h
  split_ifs at h with hvalue
  exact ⟨hvalue.1, hvalue.2, h⟩

/-- A string in it: around no text it would be an empty one. -/
theorem fits_string (h : fits c (.string :: rest) = some (last, slots)) :
    c.mode = .string false [] ∧ (upcoming rest).take 3 = [34, 44, 34] ∧
      ∃ later, fits c rest = some (last, (c.stack.map Frame.key, some []) :: later) ∧
        slots = (c.stack.map Frame.key, none) :: later := by
  rw [fits] at h
  split_ifs at h with hstring
  obtain ⟨y, hy, hopen⟩ := Option.bind_eq_some_iff.mp h
  obtain ⟨opened, hslots, heq⟩ := Option.map_eq_some_iff.mp hopen
  cases heq
  obtain ⟨later, hread, rfl⟩ := openSlot_eq_some hslots
  exact ⟨hstring.1, hstring.2, later, by rw [hy, ← hread], rfl⟩

end Fits

/-- A number in front of what ends it. -/
theorem readFrom_number_textOf {text : Bytes} (h : IsNumber text) {pieces : List Piece}
    (hnext : (upcoming (pieces.map shapeOf)).head? = some 44 ∨
      (upcoming (pieces.map shapeOf)).head? = some 125)
    (stack : List Frame) (rest : Bytes) :
    readFrom ⟨stack, .value⟩ (text ++ (textOf pieces ++ rest)) =
      readFrom ⟨stack, .after⟩ (textOf pieces ++ rest) := by
  obtain ⟨later, hlater⟩ := upcoming_append pieces
  obtain ⟨b, front, hfront, hb⟩ : ∃ b front, upcoming (pieces.map shapeOf) = b :: front ∧
      (b = 44 ∨ b = 125) := by
    cases hup : upcoming (pieces.map shapeOf) with
    | nil => simp [hup] at hnext
    | cons b front => exact ⟨b, front, rfl, by simpa [hup] using hnext⟩
  rw [hlater, hfront]
  exact readFrom_number h stack hb _

/-- A string in front of what ends it. -/
theorem readFrom_string_textOf_iff {pieces : List Piece}
    (hnext : (upcoming (pieces.map shapeOf)).take 3 = [34, 44, 34]) (stack : List Frame)
    (text rest : Bytes) (more : List Member) :
    readFrom ⟨stack, .string false []⟩ (text ++ (textOf pieces ++ rest)) =
        some ((stack.map Frame.key, text) :: more) ↔
      Unescaped text ∧ readFrom ⟨stack, .string false []⟩ (textOf pieces ++ rest) =
        some ((stack.map Frame.key, []) :: more) := by
  obtain ⟨tail, htail⟩ := textOf_of_upcoming hnext
  rw [htail]
  exact readFrom_string_iff_empty stack text (tail ++ rest) more

/-- Pieces that fit print a text that is read as expected exactly when no string
needs an escape and all doubles are finite. -/
theorem readFrom_textOf_iff {pieces : List Piece} {c last : Control} {slots : List Slot}
    (hfits : fits c (pieces.map shapeOf) = some (last, slots)) (below : List Frame) (rest : Bytes)
    (more : List Member) :
    readFrom (c.over below) (textOf pieces ++ rest) =
        some ((fill slots (strings pieces)).map (Member.under below) ++ more) ↔
      (∀ s ∈ strings pieces, Unescaped s) ∧ (∀ x ∈ doubles pieces, x.isFinite = true) ∧
        readFrom (last.over below) rest = some more := by
  induction pieces generalizing c slots with
  | nil =>
    cases hfits
    simp [textOf, strings, doubles, fill]
  | cons p pieces ih =>
    have htext : textOf (p :: pieces) ++ rest = p.bytes ++ (textOf pieces ++ rest) :=
      List.append_assoc _ _ _
    rw [List.map_cons] at hfits
    have hnumber : fits c (.number :: pieces.map shapeOf) = some (last, slots) →
        IsNumber p.bytes →
        (readFrom (c.over below) (p.bytes ++ (textOf pieces ++ rest)) =
            some ((fill slots (strings pieces)).map (Member.under below) ++ more) ↔
          (∀ s ∈ strings pieces, Unescaped s) ∧ (∀ x ∈ doubles pieces, x.isFinite = true) ∧
            readFrom (last.over below) rest = some more) := by
      intro h hp
      obtain ⟨hvalue, hnext, hrest⟩ := fits_number h
      have hover : c.over below = ⟨c.stack ++ below, .value⟩ := by
        rw [Control.over, hvalue]
      rw [hover, readFrom_number_textOf hp hnext]
      exact ih hrest
    rw [htext]
    cases p with
    | text s =>
      obtain ⟨-, c', ms, later, hrun, hrest, rfl⟩ := fits_text hfits
      rw [fill_append, List.map_append, List.append_assoc]
      exact (readFrom_append_iff (run_over hrun below) _ _).trans (ih hrest)
    | str s =>
      obtain ⟨hstring, hnext, later, hrest, rfl⟩ := fits_string hfits
      have hover : c.over below = ⟨c.stack ++ below, .string false []⟩ := by
        rw [Control.over, hstring]
      have hempty := ih hrest
      rw [fill, List.map_cons, under_keys, hover] at hempty
      have hdoubles : doubles (.str s :: pieces) = doubles pieces := rfl
      rw [strings, fill, List.map_cons, under_keys, hover, hdoubles, List.forall_mem_cons,
        and_assoc, ← hempty]
      exact readFrom_string_textOf_iff hnext _ _ _ _
    | fixed x =>
      by_cases hx : x.isFinite = true
      · have hdoubles : (∀ z ∈ doubles (.fixed x :: pieces), z.isFinite = true) ↔
            ∀ z ∈ doubles pieces, z.isFinite = true :=
          List.forall_mem_cons.trans (and_iff_right hx)
        rw [hdoubles]
        exact hnumber hfits (isNumber_fixedSix hx)
      · have hnone : run (c.over below) (fixedSix x) = none := by
          rw [Control.over, (fits_number hfits).1]
          exact run_fixedSix_of_not hx _
        refine iff_of_false (fun h => ?_) fun h => hx (h.2.1 x List.mem_cons_self)
        cases (readFrom_of_none hnone _).symm.trans h
    | lld x => exact hnumber hfits (isNumber_signedDecimal _)
    | llu x => exact hnumber hfits (isNumber_decimal _)
    | d x => exact hnumber hfits (isNumber_signedDecimal _)
    | u x => exact hnumber hfits (isNumber_decimal _)

/-- Digits are ASCII. -/
theorem lt_of_isDigit {b : UInt8} (h : isDigit b = true) : b < 128 := by
  rw [isDigit, Bool.and_eq_true, decide_eq_true_eq, decide_eq_true_eq] at h
  exact UInt8.lt_of_le_of_lt h.2 (by decide)

/-- Printed numbers are ASCII. -/
theorem ascii_of_number {p : Piece} (h : shapeOf p = .number) : Ascii p.bytes := by
  have hdecimal : ∀ n, Ascii (decimal n) := by
    intro n b hb
    have hdigit := mem_decimal hb
    rw [UInt8.lt_iff_toNat_lt]
    exact hdigit.2.trans_lt (by decide)
  have hsigned : ∀ z, Ascii (signedDecimal z) := by
    intro z
    unfold signedDecimal
    split_ifs
    · exact List.forall_mem_cons.mpr ⟨by decide, hdecimal _⟩
    · exact hdecimal _
  have hdigitAt : ∀ n weight, digitAt n weight < 128 := fun n weight =>
    lt_of_isDigit (isDigit_digitAt n weight)
  have hmillionths : ∀ n, Ascii (millionths n) := by
    intro n
    refine List.forall_mem_append.mpr ⟨hdecimal _, ?_⟩
    simp [hdigitAt]
  cases p with
  | text s => cases h
  | str s => cases h
  | fixed x =>
    cases x with
    | nan negative => cases negative <;> decide
    | infinite negative => cases negative <;> decide
    | finite negative mantissa exponent =>
      rw [Piece.bytes, fixedSix]
      split_ifs
      · exact List.forall_mem_cons.mpr ⟨by decide, hmillionths _⟩
      · exact hmillionths _
  | lld x => exact hsigned _
  | llu x => exact hdecimal _
  | d x => exact hsigned _
  | u x => exact hdecimal _

/-- They print UTF-8 exactly when all strings are UTF-8. -/
theorem validUtf8_textOf_iff {pieces : List Piece} {c last : Control} {slots : List Slot}
    (hfits : fits c (pieces.map shapeOf) = some (last, slots)) (rest : Bytes) :
    ValidUtf8 (textOf pieces ++ rest) ↔ (∀ s ∈ strings pieces, ValidUtf8 s) ∧ ValidUtf8 rest := by
  induction pieces generalizing c slots with
  | nil => simp [textOf, strings]
  | cons p pieces ih =>
    have htext : textOf (p :: pieces) ++ rest = p.bytes ++ (textOf pieces ++ rest) :=
      List.append_assoc _ _ _
    rw [List.map_cons] at hfits
    have hnumber : shapeOf p = .number →
        (ValidUtf8 (p.bytes ++ (textOf pieces ++ rest)) ↔
          (∀ s ∈ strings pieces, ValidUtf8 s) ∧ ValidUtf8 rest) := by
      intro hp
      rw [hp] at hfits
      rw [validUtf8_ascii_append (ascii_of_number hp)]
      exact ih (fits_number hfits).2.2
    rw [htext]
    cases p with
    | text s =>
      obtain ⟨hascii, c', ms, later, -, hrest, -⟩ := fits_text hfits
      exact (validUtf8_ascii_append hascii).trans (ih hrest)
    | str s =>
      obtain ⟨-, hnext, later, hrest, -⟩ := fits_string hfits
      obtain ⟨tail, htail⟩ := textOf_of_upcoming hnext
      have hempty := ih hrest
      rw [htail, List.cons_append, validUtf8_cons (by decide)] at hempty
      rw [Piece.bytes, htail, List.cons_append, validUtf8_append_cons (by decide), hempty, strings,
        List.forall_mem_cons, and_assoc]
    | fixed x => exact hnumber rfl
    | lld x => exact hnumber rfl
    | llu x => exact hnumber rfl
    | d x => exact hnumber rfl
    | u x => exact hnumber rfl

end TelemetryPlatform.FormattedJson
