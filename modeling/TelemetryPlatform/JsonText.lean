import Mathlib.Data.List.Basic
import Mathlib.Data.List.Induction

/-!
# JSON texts byte by byte

A JSON text is read by a machine with a stack of the objects and arrays that are
open. It takes one byte after the other and puts out the members that are
strings, each with the keys on the way to it and its decoded value. A text is
well formed where the machine takes all of it and nothing is open at the end.
-/

namespace TelemetryPlatform.JsonText

/-- A text as the bytes of its encoding. -/
abbrev Octets := List UInt8

/-- A part of a string: a byte of its own, or a code unit of an escape. -/
inductive Symbol where
  /-- A byte that stands for itself, or that an escape of two characters names. -/
  | byte (b : UInt8)
  /-- The code unit of an escape with four digits. -/
  | unit (n : ℕ)
  deriving DecidableEq

/-- The encoding of a code point; half a surrogate pair is replaced. -/
def encodeScalar (n : ℕ) : Octets :=
  if 0xD800 ≤ n ∧ n < 0xE000 then [0xEF, 0xBF, 0xBD] else String.utf8EncodeChar (Char.ofNat n)

/-- Whether two code units are a surrogate pair. -/
def isPair (high low : ℕ) : Bool := 0xD800 ≤ high && high < 0xDC00 && 0xDC00 ≤ low && low < 0xE000

/-- The decoded value of a string. -/
def decoded : List Symbol → Octets
  | [] => []
  | .byte b :: rest => b :: decoded rest
  | [.unit n] => encodeScalar n
  | .unit n :: .byte b :: rest => encodeScalar n ++ decoded (.byte b :: rest)
  | .unit high :: .unit low :: rest =>
    if isPair high low = true then
      encodeScalar (0x10000 + (high - 0xD800) * 0x400 + (low - 0xDC00)) ++ decoded rest
    else encodeScalar high ++ decoded (.unit low :: rest)

/-- What is open around a value. -/
inductive Frame where
  /-- An object with its current key. -/
  | object (key : Octets)
  /-- An array. -/
  | array
  deriving DecidableEq

/-- The key that a frame adds to a path. -/
def Frame.key : Frame → Octets
  | .object key => key
  | .array => []

/-- How much of a number has been read. -/
inductive NumberPhase where
  /-- The sign. -/
  | minus
  /-- A leading zero. -/
  | zero
  /-- Digits in front of the point. -/
  | digits
  /-- The point. -/
  | point
  /-- Digits behind the point. -/
  | fraction
  /-- The letter of the exponent. -/
  | exponent
  /-- The sign of the exponent. -/
  | exponentSign
  /-- Digits of the exponent. -/
  | exponentDigits
  deriving DecidableEq

/-- Whether a number may end here. -/
def NumberPhase.complete : NumberPhase → Bool
  | .zero | .digits | .fraction | .exponentDigits => true
  | _ => false

/-- A decimal digit. -/
def isDigit (b : UInt8) : Bool := 48 ≤ b && b ≤ 57

/-- The next byte of a number. -/
def NumberPhase.next (phase : NumberPhase) (b : UInt8) : Option NumberPhase :=
  match phase with
  | .minus => if b = 48 then some .zero else if isDigit b = true then some .digits else none
  | .zero => if b = 46 then some .point else if b = 101 ∨ b = 69 then some .exponent else none
  | .digits =>
    if isDigit b = true then some .digits
    else if b = 46 then some .point
    else if b = 101 ∨ b = 69 then some .exponent
    else none
  | .point => if isDigit b = true then some .fraction else none
  | .fraction =>
    if isDigit b = true then some .fraction
    else if b = 101 ∨ b = 69 then some .exponent
    else none
  | .exponent =>
    if b = 43 ∨ b = 45 then some .exponentSign
    else if isDigit b = true then some .exponentDigits
    else none
  | .exponentSign => if isDigit b = true then some .exponentDigits else none
  | .exponentDigits => if isDigit b = true then some .exponentDigits else none

/-- What may come next. -/
inductive Mode where
  /-- A value. -/
  | value
  /-- The first value of an array, or its end. -/
  | valueOrClose
  /-- A key. -/
  | key
  /-- The first key of an object, or its end. -/
  | keyOrClose
  /-- The colon behind a key. -/
  | colon
  /-- A comma, the end of what is open, or the end of the text. -/
  | after
  /-- More of a string, with what was read of it. -/
  | string (isKey : Bool) (text : List Symbol)
  /-- The character behind a backslash. -/
  | escape (isKey : Bool) (text : List Symbol)
  /-- A number of digits of an escape, with the value of those before. -/
  | hex (isKey : Bool) (text : List Symbol) (left acc : ℕ)
  /-- More of a number. -/
  | number (phase : NumberPhase)
  /-- The rest of a literal name. -/
  | literal (rest : Octets)
  deriving DecidableEq

/-- The control of the machine. -/
structure Control where
  /-- What is open, the innermost first. -/
  stack : List Frame
  /-- What may come next. -/
  mode : Mode
  deriving DecidableEq

/-- A string member: the keys on the way to it, the innermost first, and its value. -/
abbrev Member := List Octets × Octets

/-- White space. -/
def isSpace (b : UInt8) : Bool := b = 32 || b = 9 || b = 10 || b = 13

/-- The value of a hexadecimal digit. -/
def hexValue (b : UInt8) : Option ℕ :=
  if 48 ≤ b ∧ b ≤ 57 then some (b.toNat - 48)
  else if 65 ≤ b ∧ b ≤ 70 then some (b.toNat - 55)
  else if 97 ≤ b ∧ b ≤ 102 then some (b.toNat - 87)
  else none

/-- The byte that an escape of two characters names. -/
def escapeValue (b : UInt8) : Option UInt8 :=
  if b = 34 ∨ b = 92 ∨ b = 47 then some b
  else if b = 98 then some 8
  else if b = 102 then some 12
  else if b = 110 then some 10
  else if b = 114 then some 13
  else if b = 116 then some 9
  else none

/-- What the first byte of a value opens, and what may come next. -/
def valueStart (b : UInt8) : Option (List Frame × Mode) :=
  if b = 123 then some ([.object []], .keyOrClose)
  else if b = 91 then some ([.array], .valueOrClose)
  else if b = 34 then some ([], .string false [])
  else if b = 45 then some ([], .number .minus)
  else if b = 48 then some ([], .number .zero)
  else if isDigit b = true then some ([], .number .digits)
  else if b = 116 then some ([], .literal [114, 117, 101])
  else if b = 102 then some ([], .literal [97, 108, 115, 101])
  else if b = 110 then some ([], .literal [117, 108, 108])
  else none

/-- A first byte of a value. -/
def valueStep (stack : List Frame) (b : UInt8) : Option Control :=
  (valueStart b).map fun x => ⟨x.1 ++ stack, x.2⟩

/-- A byte behind a value. -/
def afterStep (stack : List Frame) (b : UInt8) : Option Control :=
  if isSpace b = true then some ⟨stack, .after⟩
  else
    match stack with
    | [] => none
    | .object key :: below =>
      if b = 44 then some ⟨.object key :: below, .key⟩
      else if b = 125 then some ⟨below, .after⟩
      else none
    | .array :: below =>
      if b = 44 then some ⟨.array :: below, .value⟩
      else if b = 93 then some ⟨below, .after⟩
      else none

/-- The end of a string. -/
def endString (stack : List Frame) (isKey : Bool) (text : List Symbol) :
    Option (Control × List Member) :=
  if isKey = true then
    match stack with
    | .object _ :: below => some (⟨.object (decoded text) :: below, .colon⟩, [])
    | _ => none
  else some (⟨stack, .after⟩, [(stack.map Frame.key, decoded text)])

/-- One byte. -/
def step (c : Control) (b : UInt8) : Option (Control × List Member) :=
  match c.mode with
  | .value =>
    if isSpace b = true then some (c, []) else (valueStep c.stack b).map (·, [])
  | .valueOrClose =>
    if isSpace b = true then some (c, [])
    else if b = 93 then (afterStep c.stack b).map (·, [])
    else (valueStep c.stack b).map (·, [])
  | .key =>
    if isSpace b = true then some (c, [])
    else if b = 34 then some (⟨c.stack, .string true []⟩, [])
    else none
  | .keyOrClose =>
    if isSpace b = true then some (c, [])
    else if b = 34 then some (⟨c.stack, .string true []⟩, [])
    else if b = 125 then (afterStep c.stack b).map (·, [])
    else none
  | .colon =>
    if isSpace b = true then some (c, [])
    else if b = 58 then some (⟨c.stack, .value⟩, [])
    else none
  | .after => (afterStep c.stack b).map (·, [])
  | .string isKey text =>
    if b = 34 then endString c.stack isKey text
    else if b = 92 then some (⟨c.stack, .escape isKey text⟩, [])
    else if b < 32 then none
    else some (⟨c.stack, .string isKey (text ++ [.byte b])⟩, [])
  | .escape isKey text =>
    if b = 117 then some (⟨c.stack, .hex isKey text 4 0⟩, [])
    else (escapeValue b).map fun v => (⟨c.stack, .string isKey (text ++ [.byte v])⟩, [])
  | .hex isKey text left acc =>
    (hexValue b).map fun v =>
      if left ≤ 1 then (⟨c.stack, .string isKey (text ++ [.unit (acc * 16 + v)])⟩, [])
      else (⟨c.stack, .hex isKey text (left - 1) (acc * 16 + v)⟩, [])
  | .number phase =>
    match phase.next b with
    | some phase => some (⟨c.stack, .number phase⟩, [])
    | none => if phase.complete = true then (afterStep c.stack b).map (·, []) else none
  | .literal rest =>
    match rest with
    | [] => none
    | r :: rest =>
      if b = r then some (⟨c.stack, if rest = [] then .after else .literal rest⟩, []) else none

/-- All bytes of a text, with the members that are put out. -/
def run : Control → Octets → Option (Control × List Member)
  | c, [] => some (c, [])
  | c, b :: rest => (step c b).bind fun x => (run x.1 rest).map fun y => (y.1, x.2 ++ y.2)

/-- A value is expected and nothing is open. -/
def Control.start : Control := ⟨[], .value⟩

/-- Nothing is open and a value is complete. -/
def Control.final (c : Control) : Bool :=
  c.stack.isEmpty &&
    match c.mode with
    | .after => true
    | .number phase => phase.complete
    | _ => false

/-- The string members of a text that is read to its end. -/
def readFrom (c : Control) (text : Octets) : Option (List Member) :=
  (run c text).bind fun x => if x.1.final = true then some x.2 else none

/-- A text is a JSON value whose string members are the given ones, in their
order. -/
def IsJson (text : Octets) (ms : List Member) : Prop := readFrom .start text = some ms

instance (text : Octets) (ms : List Member) : Decidable (IsJson text ms) :=
  inferInstanceAs (Decidable (_ = _))

example : IsJson ("\x7b\"a\":[\"b\\n\",-1.5e3,true]\x7d".toList.map fun c => UInt8.ofNat c.toNat)
    [([[], [97]], [98, 10])] := by decide

/-- Two parts of a text are read one after the other. -/
theorem run_append (c : Control) (xs ys : Octets) :
    run c (xs ++ ys) =
      (run c xs).bind fun x => (run x.1 ys).map fun y => (y.1, x.2 ++ y.2) := by
  induction xs generalizing c with
  | nil =>
    rw [List.nil_append, run, Option.bind_some]
    simp only [List.nil_append, Option.map_id']
  | cons b xs ih =>
    rw [List.cons_append, run, run]
    cases step c b with
    | none => rfl
    | some next =>
      rw [Option.bind_some, Option.bind_some, ih]
      cases run next.1 xs with
      | none => rfl
      | some later =>
        rw [Option.bind_some, Option.map_some, Option.bind_some, Option.map_map]
        simp only [Function.comp_def, List.append_assoc]

/-- Two parts that are read are read together. -/
theorem run_then {c d e : Control} {xs ys : Octets} {ms ms' : List Member}
    (hxs : run c xs = some (d, ms)) (hys : run d ys = some (e, ms')) :
    run c (xs ++ ys) = some (e, ms ++ ms') := by
  rw [run_append, hxs, Option.bind_some, hys, Option.map_some]

/-- Two parts that are read together are read one after the other. -/
theorem run_split {c e : Control} {xs ys : Octets} {ms : List Member}
    (h : run c (xs ++ ys) = some (e, ms)) :
    ∃ d ms₁ ms₂, run c xs = some (d, ms₁) ∧ run d ys = some (e, ms₂) ∧ ms = ms₁ ++ ms₂ := by
  rw [run_append] at h
  obtain ⟨x, hx, hlast⟩ := Option.bind_eq_some_iff.mp h
  obtain ⟨y, hy, heq⟩ := Option.map_eq_some_iff.mp hlast
  cases heq
  exact ⟨x.1, x.2, y.2, hx, hy, rfl⟩

/-- A first byte is read before the others. -/
theorem run_uncons {c e : Control} {b : UInt8} {text : Octets} {ms : List Member}
    (h : run c (b :: text) = some (e, ms)) :
    ∃ d ms₁ ms₂, step c b = some (d, ms₁) ∧ run d text = some (e, ms₂) ∧ ms = ms₁ ++ ms₂ := by
  rw [run] at h
  obtain ⟨x, hx, hlast⟩ := Option.bind_eq_some_iff.mp h
  obtain ⟨y, hy, heq⟩ := Option.map_eq_some_iff.mp hlast
  cases heq
  exact ⟨x.1, x.2, y.2, hx, hy, rfl⟩

/-- A last byte is read after the others. -/
theorem run_snoc {c e : Control} {text : Octets} {b : UInt8} {ms : List Member}
    (h : run c (text ++ [b]) = some (e, ms)) :
    ∃ d ms₁ ms₂, run c text = some (d, ms₁) ∧ step d b = some (e, ms₂) ∧ ms = ms₁ ++ ms₂ := by
  obtain ⟨d, ms₁, ms₂, htext, hb, rfl⟩ := run_split h
  obtain ⟨d', ms₃, ms₄, hstep, hnil, rfl⟩ := run_uncons hb
  cases hnil
  exact ⟨d, ms₁, ms₃, htext, hstep, congrArg (ms₁ ++ ·) (List.append_nil ms₃)⟩

/-- What was put out for a part that was read comes in front of the rest. -/
theorem readFrom_append {c c' : Control} {xs : Octets} {ms : List Member}
    (hrun : run c xs = some (c', ms)) (ys : Octets) :
    readFrom c (xs ++ ys) = (readFrom c' ys).map (ms ++ ·) := by
  rw [readFrom, readFrom, run_append, hrun, Option.bind_some]
  cases run c' ys with
  | none => rfl
  | some last =>
    rw [Option.map_some, Option.bind_some, Option.bind_some]
    split_ifs <;> rfl

/-- What follows a part that was read decides. -/
theorem readFrom_append_iff {c c' : Control} {xs : Octets} {ms : List Member}
    (hrun : run c xs = some (c', ms)) (ys : Octets) (more : List Member) :
    readFrom c (xs ++ ys) = some (ms ++ more) ↔ readFrom c' ys = some more := by
  rw [readFrom_append hrun]
  cases readFrom c' ys with
  | none => exact iff_of_false nofun nofun
  | some last =>
    rw [Option.map_some, Option.some.injEq, Option.some.injEq, List.append_cancel_left_eq]

/-- One byte that puts nothing out. -/
theorem readFrom_cons {c c' : Control} {b : UInt8} (hstep : step c b = some (c', []))
    (rest : Octets) : readFrom c (b :: rest) = readFrom c' rest := by
  have hrun : run c [b] = some (c', []) := by
    rw [run, hstep]
    rfl
  have hall := readFrom_append hrun rest
  simpa using hall

/-- A text with a part that is not read is not read. -/
theorem readFrom_of_none {c : Control} {xs : Octets} (hrun : run c xs = none) (ys : Octets) :
    readFrom c (xs ++ ys) = none := by
  rw [readFrom, run_append, hrun]
  rfl

/-- The bytes that may stand in a string as they are, apart from being UTF-8. -/
def Unescaped (text : Octets) : Prop := ∀ b ∈ text, 32 ≤ b ∧ b ≠ 34 ∧ b ≠ 92

instance (text : Octets) : Decidable (Unescaped text) := List.decidableBAll _ text

/-- An upper bound for the bytes of a part of a string. -/
def Symbol.size : Symbol → ℕ
  | .byte _ => 1
  | .unit _ => 4

/-- An upper bound for the bytes of a string. -/
def totalSize : List Symbol → ℕ
  | [] => 0
  | x :: rest => x.size + totalSize rest

/-- One more part. -/
theorem totalSize_append (text : List Symbol) (x : Symbol) :
    totalSize (text ++ [x]) = totalSize text + x.size := by
  induction text with
  | nil => exact Nat.add_comm x.size 0
  | cons y text ih => rw [List.cons_append, totalSize, totalSize, ih, Nat.add_assoc]

/-- Bytes that stand for themselves have their number as size. -/
theorem totalSize_map_byte (text : Octets) : totalSize (text.map .byte) = text.length := by
  induction text with
  | nil => rfl
  | cons b text ih =>
    rw [List.map_cons, totalSize, ih, Symbol.size, List.length_cons, Nat.add_comm]

/-- A code point has four bytes at most. -/
theorem length_encodeScalar_le (n : ℕ) : (encodeScalar n).length ≤ 4 := by
  unfold encodeScalar
  split_ifs
  · decide
  · rw [String.length_utf8EncodeChar]
    exact Char.utf8Size_le_four _

/-- A decoded string is no longer than its size. -/
theorem length_decoded_le (text : List Symbol) : (decoded text).length ≤ totalSize text := by
  fun_induction decoded text with
  | case1 => exact Nat.le_refl _
  | case2 b rest ih =>
    rw [List.length_cons, totalSize, Symbol.size]
    omega
  | case3 n => exact length_encodeScalar_le n
  | case4 n b rest ih =>
    have hscalar := length_encodeScalar_le n
    rw [List.length_append, totalSize, Symbol.size]
    omega
  | case5 high low rest hpair ih =>
    have hscalar := length_encodeScalar_le (0x10000 + (high - 0xD800) * 0x400 + (low - 0xDC00))
    rw [List.length_append, totalSize, totalSize, Symbol.size, Symbol.size]
    omega
  | case6 high low rest hpair ih =>
    have hscalar := length_encodeScalar_le high
    rw [List.length_append, totalSize, Symbol.size]
    omega

/-- Bytes that stand for themselves are decoded to themselves. -/
theorem decoded_map_byte (text : Octets) : decoded (text.map .byte) = text := by
  induction text with
  | nil => rfl
  | cons b text ih => rw [List.map_cons, decoded, ih]

/-- So is a last byte. -/
theorem decoded_append_byte (text : List Symbol) (b : UInt8) :
    decoded (text ++ [.byte b]) = decoded text ++ [b] := by
  fun_induction decoded text with
  | case1 => rfl
  | case2 a rest ih => rw [List.cons_append, decoded, ih, List.cons_append]
  | case3 n => rfl
  | case4 n a rest ih =>
    change encodeScalar n ++ decoded (.byte a :: rest ++ [.byte b]) = _
    rw [ih, List.append_assoc]
  | case5 high low rest hpair ih =>
    rw [List.cons_append, List.cons_append, decoded, if_pos hpair, ih, List.append_assoc]
  | case6 high low rest hpair ih =>
    rw [List.cons_append, List.cons_append, decoded, if_neg hpair, ← List.cons_append, ih,
      List.append_assoc]

/-- What reading a text inside a string can come to: the string has ended before
the text, and is shorter; it goes on, and is either the text or shorter; or the
text ends inside an escape. -/
inductive StringRead (stack : List Frame) (text : Octets) : Control × List Member → Prop
  /-- The string has ended. -/
  | closed {c : Control} {v : Octets} {more : List Member} :
      v.length < text.length → StringRead stack text (c, (stack.map Frame.key, v) :: more)
  /-- The text is the string so far. -/
  | same : Unescaped text →
      StringRead stack text (⟨stack, .string false (text.map .byte)⟩, [])
  /-- The string goes on and is shorter. -/
  | shorter {read : List Symbol} : totalSize read < text.length →
      StringRead stack text (⟨stack, .string false read⟩, [])
  /-- The text ends behind a backslash. -/
  | escaped {read : List Symbol} : totalSize read < text.length → text.getLast? = some 92 →
      StringRead stack text (⟨stack, .escape false read⟩, [])
  /-- The text ends inside an escape with digits. -/
  | digits {read : List Symbol} {left acc : ℕ} : left ≤ 4 →
      totalSize read + 2 + (4 - left) ≤ text.length →
      StringRead stack text (⟨stack, .hex false read left acc⟩, [])

/-- One byte of a string. -/
theorem step_string {stack : List Frame} {read : List Symbol} {b : UInt8}
    {y : Control × List Member} (h : step ⟨stack, .string false read⟩ b = some y) :
    (b = 34 ∧ y = (⟨stack, .after⟩, [(stack.map Frame.key, decoded read)])) ∨
      (b = 92 ∧ y = (⟨stack, .escape false read⟩, [])) ∨
      ((32 ≤ b ∧ b ≠ 34 ∧ b ≠ 92) ∧ y = (⟨stack, .string false (read ++ [.byte b])⟩, [])) := by
  rw [step] at h
  dsimp only at h
  split_ifs at h with hquote hback hcontrol
  · exact .inl ⟨hquote, (Option.some.inj h).symm⟩
  · exact .inr (.inl ⟨hback, (Option.some.inj h).symm⟩)
  · exact .inr (.inr ⟨⟨UInt8.not_lt.mp hcontrol, hquote, hback⟩, (Option.some.inj h).symm⟩)

/-- One more byte. -/
theorem StringRead.step {stack : List Frame} {text : Octets} {x : Control × List Member} {b : UInt8}
    {y : Control × List Member} (h : StringRead stack text x) (hstep : step x.1 b = some y) :
    StringRead stack (text ++ [b]) (y.1, x.2 ++ y.2) := by
  have hlen : (text ++ [b]).length = text.length + 1 := List.length_append
  have hlast : (text ++ [b]).getLast? = some b := List.getLast?_concat
  cases h with
  | closed hshort => exact .closed (by omega)
  | same hplain =>
    have hsize := totalSize_map_byte text
    have hvalue := length_decoded_le (text.map .byte)
    rcases step_string hstep with ⟨rfl, rfl⟩ | ⟨rfl, rfl⟩ | ⟨hb, rfl⟩
    · exact .closed (by omega)
    · exact .escaped (by omega) hlast
    · have hmap : text.map Symbol.byte ++ [.byte b] = (text ++ [b]).map .byte := by
        rw [List.map_append, List.map_singleton]
      rw [hmap]
      refine .same fun a ha => ?_
      rcases List.mem_append.mp ha with hold | hnew
      · exact hplain a hold
      · rw [List.mem_singleton.mp hnew]
        exact hb
  | @shorter read hsize =>
    have hvalue := length_decoded_le read
    rcases step_string hstep with ⟨rfl, rfl⟩ | ⟨rfl, rfl⟩ | ⟨-, rfl⟩
    · exact .closed (by omega)
    · exact .escaped (by omega) hlast
    · refine .shorter ?_
      rw [totalSize_append, hlen, Symbol.size]
      omega
  | @escaped read hsize hback =>
    rw [JsonText.step] at hstep
    dsimp only at hstep
    split_ifs at hstep
    · cases hstep
      exact .digits (Nat.le_refl 4) (by omega)
    · obtain ⟨v, -, rfl⟩ := Option.map_eq_some_iff.mp hstep
      refine .shorter ?_
      rw [totalSize_append, hlen, Symbol.size]
      omega
  | @digits read left acc hleft hsize =>
    rw [JsonText.step] at hstep
    obtain ⟨v, -, hy⟩ := Option.map_eq_some_iff.mp hstep
    split_ifs at hy
    · cases hy
      refine .shorter ?_
      rw [totalSize_append, hlen, Symbol.size]
      omega
    · cases hy
      exact .digits (by omega) (by omega)

/-- So every text that is read inside a string is one of these cases. -/
theorem stringRead_of_run {stack : List Frame} (text : Octets) {x : Control × List Member}
    (hrun : run ⟨stack, .string false []⟩ text = some x) : StringRead stack text x := by
  induction text using List.reverseRecOn generalizing x with
  | nil =>
    cases hrun
    exact .same nofun
  | append_singleton text b ih =>
    obtain ⟨c, ms⟩ := x
    obtain ⟨d, ms₁, ms₂, hd, hstep, rfl⟩ := run_snoc hrun
    exact (ih hd).step hstep

/-- Bytes that may stand in a string as they are, are read as they are. -/
theorem run_string (stack : List Frame) {text : Octets} (h : Unescaped text) (isKey : Bool)
    (read : List Symbol) :
    run ⟨stack, .string isKey read⟩ text =
      some (⟨stack, .string isKey (read ++ text.map .byte)⟩, []) := by
  induction text generalizing read with
  | nil => rw [run, List.map_nil, List.append_nil]
  | cons b text ih =>
    obtain ⟨hcontrol, hquote, hback⟩ := h b List.mem_cons_self
    have hstep : step ⟨stack, .string isKey read⟩ b =
        some (⟨stack, .string isKey (read ++ [.byte b])⟩, []) := by
      rw [step]
      dsimp only
      rw [if_neg hquote, if_neg hback, if_neg (UInt8.not_lt.mpr hcontrol)]
    rw [run, hstep, Option.bind_some, ih fun a ha => h a (List.mem_cons_of_mem b ha)]
    simp

/-- A quote ends a string. -/
theorem readFrom_quote (stack : List Frame) (read : List Symbol) (rest : Octets) :
    readFrom ⟨stack, .string false read⟩ (34 :: rest) =
      (readFrom ⟨stack, .after⟩ rest).map ((stack.map Frame.key, decoded read) :: ·) := by
  have hrun : run ⟨stack, .string false read⟩ [34] =
      some (⟨stack, .after⟩, [(stack.map Frame.key, decoded read)]) := rfl
  have hall := readFrom_append hrun rest
  simpa using hall

/-- A string whose end is followed by a comma and a key has the text in front of
its end as its value exactly where that text needs no escapes. -/
theorem readFrom_string_iff (stack : List Frame) (text rest : Octets) (more : List Member) :
    readFrom ⟨stack, .string false []⟩ (text ++ 34 :: 44 :: 34 :: rest) =
        some ((stack.map Frame.key, text) :: more) ↔
      Unescaped text ∧ readFrom ⟨stack, .after⟩ (44 :: 34 :: rest) = some more := by
  constructor
  · intro hread
    cases hrun : run ⟨stack, .string false []⟩ text with
    | none =>
      rw [readFrom_of_none hrun] at hread
      cases hread
    | some x =>
      have hafter := stringRead_of_run text hrun
      obtain ⟨c, ms⟩ := x
      rw [readFrom_append hrun] at hread
      obtain ⟨later, hlater, heq⟩ := Option.map_eq_some_iff.mp hread
      cases hafter with
      | @closed _ v _ hshort =>
        cases (List.cons.inj heq).1
        omega
      | same hplain =>
        rw [readFrom_quote, decoded_map_byte] at hlater
        obtain ⟨last, hlast, rfl⟩ := Option.map_eq_some_iff.mp hlater
        cases (List.cons.inj heq).2
        exact ⟨hplain, hlast⟩
      | @shorter read hsize =>
        rw [readFrom_quote] at hlater
        obtain ⟨last, -, rfl⟩ := Option.map_eq_some_iff.mp hlater
        have hlen := length_decoded_le read
        have hvalue : decoded read = text := congrArg Prod.snd (List.cons.inj heq).1
        rw [hvalue] at hlen
        omega
      | @escaped read hsize hback =>
        -- the quote is escaped, so the comma joins the string and the next quote ends it
        have hescape : step ⟨stack, .escape false read⟩ 34 =
            some (⟨stack, .string false (read ++ [.byte 34])⟩, []) := rfl
        have hcomma : step ⟨stack, .string false (read ++ [.byte 34])⟩ 44 =
            some (⟨stack, .string false (read ++ [.byte 34] ++ [.byte 44])⟩, []) := rfl
        rw [readFrom_cons hescape, readFrom_cons hcomma, readFrom_quote, decoded_append_byte] at hlater
        obtain ⟨last, -, rfl⟩ := Option.map_eq_some_iff.mp hlater
        have hvalue : decoded (read ++ [.byte 34]) ++ [44] = text :=
          congrArg Prod.snd (List.cons.inj heq).1
        rw [← hvalue, List.getLast?_concat] at hback
        exact absurd hback (by decide)
      | digits hleft hsize =>
        -- a quote is no hexadecimal digit
        cases hlater
  · rintro ⟨hplain, hrest⟩
    have hrun := run_string stack hplain false []
    rw [readFrom_append hrun, List.nil_append, readFrom_quote, hrest, decoded_map_byte]
    rfl

/-- So such a string takes the place of an empty one exactly where it needs no
escapes. -/
theorem readFrom_string_iff_empty (stack : List Frame) (text rest : Octets)
    (more : List Member) :
    readFrom ⟨stack, .string false []⟩ (text ++ 34 :: 44 :: 34 :: rest) =
        some ((stack.map Frame.key, text) :: more) ↔
      Unescaped text ∧ readFrom ⟨stack, .string false []⟩ (34 :: 44 :: 34 :: rest) =
        some ((stack.map Frame.key, []) :: more) := by
  have hempty := readFrom_string_iff stack [] rest more
  rw [List.nil_append] at hempty
  rw [readFrom_string_iff, hempty]
  exact and_congr_right fun _ => (and_iff_right (fun _ h => absurd h List.not_mem_nil)).symm

/-- The same control with more open around it. -/
def Control.over (c : Control) (below : List Frame) : Control := ⟨c.stack ++ below, c.mode⟩

/-- The same member with more open around it. -/
def Member.under (below : List Frame) (m : Member) : Member := (m.1 ++ below.map Frame.key, m.2)

/-- The member that a string is has the keys of all that is open. -/
theorem under_keys (stack below : List Frame) (value : Octets) :
    Member.under below (stack.map Frame.key, value) = ((stack ++ below).map Frame.key, value) := by
  rw [Member.under, List.map_append]

/-- Nothing more changes nothing. -/
theorem map_under_nil (ms : List Member) : ms.map (Member.under []) = ms := by
  have hone : ∀ m ∈ ms, Member.under [] m = id m := by
    intro m _
    rw [Member.under, List.map_nil, List.append_nil]
    rfl
  rw [List.map_congr_left hone, List.map_id]

/-- A byte behind a value does the same with more open around it. -/
theorem afterStep_over {stack : List Frame} {b : UInt8} {c : Control}
    (h : afterStep stack b = some c) (below : List Frame) :
    afterStep (stack ++ below) b = some (c.over below) := by
  unfold afterStep at h ⊢
  by_cases hspace : isSpace b = true
  · rw [if_pos hspace] at h ⊢
    cases h
    rfl
  · rw [if_neg hspace] at h ⊢
    cases stack with
    | nil => cases h
    | cons frame rest =>
      cases frame <;>
      · dsimp only [List.cons_append] at h ⊢
        split_ifs at h ⊢ <;> (cases h; rfl)

/-- So does the first byte of a value. -/
theorem valueStep_over {stack : List Frame} {b : UInt8} {c : Control}
    (h : valueStep stack b = some c) (below : List Frame) :
    valueStep (stack ++ below) b = some (c.over below) := by
  obtain ⟨x, hx, rfl⟩ := Option.map_eq_some_iff.mp h
  rw [valueStep, hx, Option.map_some, ← List.append_assoc]
  rfl

/-- So does the end of a string. -/
theorem endString_over {stack : List Frame} {isKey : Bool} {text : List Symbol}
    {y : Control × List Member} (h : endString stack isKey text = some y) (below : List Frame) :
    endString (stack ++ below) isKey text = some (y.1.over below, y.2.map (Member.under below)) := by
  unfold endString at h ⊢
  by_cases hkey : isKey = true
  · rw [if_pos hkey] at h ⊢
    cases stack with
    | nil => cases h
    | cons frame rest =>
      cases frame with
      | object key =>
        cases h
        rfl
      | array => cases h
  · rw [if_neg hkey] at h ⊢
    cases h
    rw [List.map_singleton, under_keys]
    rfl

/-- So does every byte. -/
theorem step_over {c : Control} {b : UInt8} {y : Control × List Member} (h : step c b = some y)
    (below : List Frame) :
    step (c.over below) b = some (y.1.over below, y.2.map (Member.under below)) := by
  have hlift : ∀ {x : Option Control} {x' : Option Control},
      (∀ d, x = some d → x' = some (d.over below)) → x.map (·, ([] : List Member)) = some y →
        x'.map (·, ([] : List Member)) = some (y.1.over below, y.2.map (Member.under below)) := by
    intro x x' hx hmap
    obtain ⟨d, hd, rfl⟩ := Option.map_eq_some_iff.mp hmap
    rw [hx d hd]
    rfl
  obtain ⟨stack, mode⟩ := c
  have hafter := fun d (hd : afterStep stack b = some d) => afterStep_over hd below
  have hvalue := fun d (hd : valueStep stack b = some d) => valueStep_over hd below
  rw [step] at h ⊢
  cases mode with
  | value =>
    dsimp only [Control.over] at h ⊢
    split_ifs at h ⊢
    · cases h
      rfl
    · exact hlift hvalue h
  | valueOrClose =>
    dsimp only [Control.over] at h ⊢
    split_ifs at h ⊢
    · cases h
      rfl
    · exact hlift hafter h
    · exact hlift hvalue h
  | key =>
    dsimp only [Control.over] at h ⊢
    split_ifs at h ⊢ <;> (cases h; rfl)
  | keyOrClose =>
    dsimp only [Control.over] at h ⊢
    split_ifs at h ⊢
    · cases h
      rfl
    · cases h
      rfl
    · exact hlift hafter h
  | colon =>
    dsimp only [Control.over] at h ⊢
    split_ifs at h ⊢ <;> (cases h; rfl)
  | after => exact hlift hafter h
  | string isKey text =>
    dsimp only [Control.over] at h ⊢
    split_ifs at h ⊢
    · exact endString_over h below
    · cases h
      rfl
    · cases h
      rfl
  | escape isKey text =>
    dsimp only [Control.over] at h ⊢
    split_ifs at h ⊢
    · cases h
      rfl
    · obtain ⟨v, hv, rfl⟩ := Option.map_eq_some_iff.mp h
      rw [hv]
      rfl
  | hex isKey text left acc =>
    dsimp only [Control.over] at h ⊢
    obtain ⟨v, hv, rfl⟩ := Option.map_eq_some_iff.mp h
    rw [hv, Option.map_some]
    split_ifs <;> rfl
  | number phase =>
    dsimp only [Control.over] at h ⊢
    cases hnext : phase.next b with
    | some phase' =>
      rw [hnext] at h
      cases h
      rfl
    | none =>
      rw [hnext] at h
      dsimp only at h ⊢
      split_ifs at h ⊢
      exact hlift hafter h
  | literal rest =>
    dsimp only [Control.over] at h ⊢
    match rest, h with
    | r :: rest, h =>
      dsimp only at h ⊢
      split_ifs at h ⊢ <;> (cases h; rfl)

/-- A text is read in the same way with more open around it. -/
theorem run_over {c c' : Control} {text : Octets} {ms : List Member}
    (h : run c text = some (c', ms)) (below : List Frame) :
    run (c.over below) text = some (c'.over below, ms.map (Member.under below)) := by
  induction text generalizing c ms with
  | nil =>
    cases h
    rfl
  | cons b text ih =>
    rw [run] at h ⊢
    obtain ⟨y, hy, hrest⟩ := Option.bind_eq_some_iff.mp h
    obtain ⟨z, hz, heq⟩ := Option.map_eq_some_iff.mp hrest
    cases heq
    rw [step_over hy, Option.bind_some, ih hz, Option.map_some, List.map_append]

/-- One more byte of a number. -/
theorem step_number {phase more : NumberPhase} {b : UInt8} (h : phase.next b = some more)
    (stack : List Frame) :
    step ⟨stack, .number phase⟩ b = some (⟨stack, .number more⟩, []) := by
  rw [step]
  dsimp only
  rw [h]

/-- A digit that is no zero starts a number. -/
theorem step_value_digit {b : UInt8} (hzero : b ≠ 48) (hb : isDigit b = true)
    (stack : List Frame) :
    step ⟨stack, .value⟩ b = some (⟨stack, .number .digits⟩, []) := by
  have hother : ∀ a : UInt8, isDigit a = false → b ≠ a := by
    rintro a ha rfl
    exact absurd (hb.symm.trans ha) (by decide)
  have hspace : ¬ isSpace b = true := by
    simp [isSpace, hother 32 rfl, hother 9 rfl, hother 10 rfl, hother 13 rfl]
  rw [step]
  dsimp only
  rw [if_neg hspace, valueStep, valueStart, if_neg (hother 123 rfl), if_neg (hother 91 rfl),
    if_neg (hother 34 rfl), if_neg (hother 45 rfl), if_neg hzero, if_pos hb]
  rfl

/-- A text that is a number: it is read as one, and it may end there. -/
def IsNumber (text : Octets) : Prop :=
  ∃ phase : NumberPhase, phase.complete = true ∧
    run ⟨[], .value⟩ text = some (⟨[], .number phase⟩, [])

/-- A byte that no number goes on with ends it. -/
theorem readFrom_number {text : Octets} (h : IsNumber text) (stack : List Frame) {b : UInt8}
    (hb : b = 44 ∨ b = 125) (rest : Octets) :
    readFrom ⟨stack, .value⟩ (text ++ b :: rest) = readFrom ⟨stack, .after⟩ (b :: rest) := by
  obtain ⟨phase, hphase, hrun⟩ := h
  have hnext : phase.next b = none := by
    rcases hb with rfl | rfl <;> cases phase <;> rfl
  have hover : run ⟨stack, .value⟩ text = some (⟨stack, .number phase⟩, []) := run_over hrun stack
  have hstep : step ⟨stack, .number phase⟩ b = step ⟨stack, .after⟩ b := by
    rw [step, step]
    dsimp only
    rw [hnext]
    dsimp only
    rw [if_pos hphase]
  have hread : readFrom ⟨stack, .number phase⟩ (b :: rest) =
      readFrom ⟨stack, .after⟩ (b :: rest) := by
    rw [readFrom, readFrom, run, run, hstep]
  rw [readFrom_append hover, hread]
  exact Option.map_id'

end TelemetryPlatform.JsonText
