import TelemetryPlatform.Binary64
import TelemetryPlatform.CStrings

/-!
# Formatted text as a list of pieces

A printf call is its format string cut at the conversions, each conversion
holding its argument. Two calls with the same cuts print the same text exactly
when they print the same pieces, provided that pieces which differ already
differ in their first byte.
-/

namespace TelemetryPlatform.FormattedText

open CStrings Binary64

/-- A part of a format string with the argument of its conversion. -/
inductive Piece where
  /-- Literal text between conversions. -/
  | text (s : CString)
  /-- Conversion of a string. -/
  | str (s : CString)
  /-- Conversion of a double with six decimals. -/
  | fixed (x : Double)
  /-- Conversion of a signed 64-bit integer. -/
  | lld (x : BitVec 64)
  /-- Conversion of an unsigned 64-bit integer. -/
  | llu (x : BitVec 64)
  /-- Conversion of a signed 32-bit integer. -/
  | d (x : BitVec 32)
  /-- Conversion of an unsigned 32-bit integer. -/
  | u (x : BitVec 32)

/-- Decimal digits of a natural number. -/
def decimal (n : ℕ) : Bytes := (Nat.toDigits 10 n).map fun c => UInt8.ofNat c.toNat

/-- Decimal digits of an integer after its minus sign. -/
def signedDecimal (z : ℤ) : Bytes := if z < 0 then 45 :: decimal z.natAbs else decimal z.natAbs

/-- The digit of the given weight. -/
def digitAt (n weight : ℕ) : UInt8 := UInt8.ofNat (48 + n / weight % 10)

/-- A count of millionths with the decimal point in place. -/
def millionths (n : ℕ) : Bytes :=
  decimal (n / 1000000) ++ [46, digitAt n 100000, digitAt n 10000, digitAt n 1000, digitAt n 100,
    digitAt n 10, digitAt n 1]

/-- A double with six decimals, rounded to the nearest even millionth. -/
def fixedSix (x : Double) : Bytes :=
  match x with
  | .nan negative => if negative = true then lit "-nan" else lit "nan"
  | .infinite negative => if negative = true then lit "-inf" else lit "inf"
  | .finite negative mantissa exponent =>
    let size := ((Double.finite negative mantissa exponent).nearestScaled 1000000).getD 0
    if negative = true then 45 :: millionths size else millionths size

/-- The text of a piece. -/
def Piece.bytes : Piece → Bytes
  | .text s => s.bytes
  | .str s => s.bytes
  | .fixed x => fixedSix x
  | .lld x => signedDecimal x.toInt
  | .llu x => decimal x.toNat
  | .d x => signedDecimal x.toInt
  | .u x => decimal x.toNat

/-- Every character of a decimal number is a digit. -/
theorem mem_decimal {n : ℕ} {b : UInt8} (hb : b ∈ decimal n) : 48 ≤ b.toNat ∧ b.toNat ≤ 57 := by
  obtain ⟨c, hc, rfl⟩ := List.mem_map.mp hb
  have hdigit := Nat.isDigit_of_mem_toDigits (by decide) (by decide) hc
  simp only [Char.isDigit, Bool.and_eq_true, decide_eq_true_eq, UInt32.le_iff_toNat_le] at hdigit
  have hlow : 48 ≤ c.toNat := hdigit.1
  have hhigh : c.toNat ≤ 57 := hdigit.2
  rw [UInt8.toNat_ofNat']
  omega

/-- A list of digits holds no terminator. -/
theorem zero_notMem_decimal (n : ℕ) : 0 ∉ decimal n :=
  fun h => absurd (mem_decimal h).1 (by decide)

/-- A signed number holds no terminator. -/
theorem zero_notMem_signedDecimal (z : ℤ) : 0 ∉ signedDecimal z := by
  unfold signedDecimal
  split <;> simp [zero_notMem_decimal]

/-- Decimals behind the point hold no terminator. -/
theorem zero_notMem_millionths (n : ℕ) : 0 ∉ millionths n := by
  have hdigit : ∀ weight, digitAt n weight ≠ 0 := by
    intro weight h
    have hval : (digitAt n weight).toNat = 48 + n / weight % 10 := by
      rw [digitAt, UInt8.toNat_ofNat']
      omega
    rw [h, UInt8.toNat_zero] at hval
    omega
  simp [millionths, zero_notMem_decimal, (hdigit _).symm]

/-- No piece prints a terminator. -/
theorem Piece.zero_notMem_bytes (p : Piece) : 0 ∉ p.bytes := by
  cases p with
  | text s => exact s.nulFree
  | str s => exact s.nulFree
  | fixed x =>
    cases x with
    | nan negative => cases negative <;> decide
    | infinite negative => cases negative <;> decide
    | finite negative mantissa exponent =>
      simp only [Piece.bytes, fixedSix]
      split <;> simp [zero_notMem_millionths]
  | lld x => exact zero_notMem_signedDecimal _
  | llu x => exact zero_notMem_decimal _
  | d x => exact zero_notMem_signedDecimal _
  | u x => exact zero_notMem_decimal _

/-- The string that a printf call writes. -/
def format (pieces : List Piece) : CString where
  bytes := (pieces.map Piece.bytes).flatten
  nulFree := by simp [Piece.zero_notMem_bytes]

/-- Printing in two calls prints the concatenation. -/
theorem format_append (xs ys : List Piece) :
    (format (xs ++ ys)).bytes = (format xs).bytes ++ (format ys).bytes := by
  simp [format]

/-- A decimal number has a first digit. -/
theorem decimal_eq_cons (n : ℕ) : ∃ b rest, decimal n = b :: rest ∧ 48 ≤ b.toNat ∧ b.toNat ≤ 57 := by
  cases hn : decimal n with
  | nil => exact absurd (List.map_eq_nil_iff.mp hn) Nat.toDigits_ne_nil
  | cons b rest => exact ⟨b, rest, rfl, mem_decimal (hn ▸ List.mem_cons_self)⟩

/-- Two texts that differ in their first byte. -/
def Apart (xs ys : Bytes) : Prop := ∃ x xs' y ys', xs = x :: xs' ∧ ys = y :: ys' ∧ x ≠ y

/-- A natural number and a negative number start apart. -/
theorem apart_decimal_negative {n : ℕ} {z : ℤ} (hz : z < 0) :
    Apart (decimal n) (signedDecimal z) := by
  obtain ⟨b, rest, hb, hlow, -⟩ := decimal_eq_cons n
  refine ⟨b, rest, 45, decimal z.natAbs, hb, by rw [signedDecimal, if_pos hz], ?_⟩
  rintro rfl
  exact absurd hlow (by decide)

/-- NaN and zero start apart. -/
theorem apart_nan_zero {x : Double} (hx : x.isNan = true) :
    Apart (fixedSix x) (fixedSix Double.zero) := by
  have hzero : fixedSix Double.zero = lit "0.000000" := by decide
  rw [hzero]
  cases x with
  | nan negative =>
    cases negative with
    | false => exact ⟨_, _, _, _, rfl, rfl, by decide⟩
    | true => exact ⟨_, _, _, _, rfl, rfl, by decide⟩
  | infinite negative => cases hx
  | finite negative mantissa exponent => cases hx

/-- A negative and a positive double start apart, also where both are zero. -/
theorem apart_signs (mantissa mantissa' : ℕ) (exponent exponent' : ℤ) :
    Apart (fixedSix (.finite true mantissa exponent)) (fixedSix (.finite false mantissa' exponent')) := by
  obtain ⟨b, rest, hb, hlow, -⟩ := decimal_eq_cons
    ((((Double.finite false mantissa' exponent').nearestScaled 1000000).getD 0) / 1000000)
  refine ⟨45, _, b, _, rfl, congrArg (· ++ _) hb, ?_⟩
  rintro rfl
  exact absurd hlow (by decide)

/-- Texts that start apart stay apart under any continuation. -/
theorem Apart.append_ne {xs ys : Bytes} (h : Apart xs ys) (us vs : Bytes) : xs ++ us ≠ ys ++ vs := by
  obtain ⟨x, xs', y, ys', rfl, rfl, hne⟩ := h
  intro heq
  exact hne (List.cons.inj heq).1

/-- Two piece lists print one text exactly when they print the same pieces. -/
theorem flatten_eq_iff {xs ys : List Bytes}
    (h : List.Forall₂ (fun a b => a = b ∨ Apart a b) xs ys) : xs.flatten = ys.flatten ↔ xs = ys := by
  induction h with
  | nil => exact ⟨fun _ => rfl, fun _ => rfl⟩
  | @cons a b xs ys hab _ ih =>
    rw [List.flatten_cons, List.flatten_cons]
    rcases hab with rfl | hapart
    · rw [List.append_cancel_left_eq, ih, List.cons_inj_right]
    · constructor
      · intro heq
        exact absurd heq (hapart.append_ne _ _)
      · intro heq
        obtain ⟨hhead, -⟩ := List.cons.inj heq
        have hsame := hapart.append_ne [] []
        rw [hhead] at hsame
        exact absurd rfl hsame

end TelemetryPlatform.FormattedText
