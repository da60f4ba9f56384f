import Mathlib.Algebra.Order.Ring.Nat
import Mathlib.Data.Nat.Log
import Mathlib.Tactic.Ring
import Mathlib.Tactic.Linarith

/-!
# Rounding to integers and to binary64 numbers

Nearest-even rounding of a quotient of naturals, and binary64 values as signed
dyadic numbers. The nearest binary64 number to a quotient has its exponent
fixed by the size of the quotient. Rounding such a number to an integer gives
the nearest-even integer of the exact quotient as long as the numerator stays
below 2^52.
-/

namespace TelemetryPlatform.Binary64

/-- The integer nearest to a quotient, ties going to the even neighbour. -/
def nearestEven (num den : ℕ) : ℕ :=
  if 2 * (num % den) < den then num / den
  else if den < 2 * (num % den) then num / den + 1
  else num / den + num / den % 2

/-- A value k is the nearest-even integer exactly when it is closer than a
half, or exactly a half away and even. -/
def IsNearestEven (num den k : ℕ) : Prop :=
  (2 * (k * den) < 2 * num + den ∧ 2 * num < 2 * (k * den) + den) ∨
    ((2 * (k * den) = 2 * num + den ∨ 2 * num = 2 * (k * den) + den) ∧ k % 2 = 0)

/-- A multiple of the denominator is rounded to its factor. -/
theorem isNearestEven_mul (k : ℕ) {den : ℕ} (hden : 0 < den) : IsNearestEven (k * den) den k := by
  left
  omega

/-- At most one value is nearest even. -/
theorem IsNearestEven.unique {num den k k' : ℕ} (hden : 0 < den) (h : IsNearestEven num den k)
    (h' : IsNearestEven num den k') : k = k' := by
  have hstep : ∀ {a b : ℕ}, IsNearestEven num den a → IsNearestEven num den b → ¬ a < b := by
    intro a b ha hb hab
    obtain ⟨c, rfl⟩ := Nat.exists_eq_add_of_lt hab
    have hexpand : (a + c + 1) * den = a * den + c * den + den := by ring
    have hsmall : c = 0 ∨ den ≤ c * den := by
      rcases Nat.eq_zero_or_pos c with rfl | hc
      · exact .inl rfl
      · exact .inr (Nat.le_mul_of_pos_left den hc)
    unfold IsNearestEven at ha hb
    rw [hexpand] at hb
    rcases hsmall with rfl | hc
    · simp only [Nat.zero_mul, Nat.add_zero] at hb
      omega
    · omega
  exact Nat.le_antisymm (Nat.not_lt.mp (hstep h' h)) (Nat.not_lt.mp (hstep h h'))

/-- The computed value is nearest even. -/
theorem nearestEven_spec (num : ℕ) {den : ℕ} (hden : 0 < den) :
    IsNearestEven num den (nearestEven num den) := by
  have hsplit : num / den * den + num % den = num := by
    rw [Nat.mul_comm]
    exact Nat.div_add_mod num den
  have hmod := Nat.mod_lt num hden
  unfold nearestEven IsNearestEven
  split_ifs with hlow hhigh
  · omega
  · have hexpand : (num / den + 1) * den = num / den * den + den := by ring
    omega
  · rcases Nat.mod_two_eq_zero_or_one (num / den) with hpar | hpar
    · rw [hpar, Nat.add_zero]
      omega
    · have hexpand : (num / den + 1) * den = num / den * den + den := by ring
      rw [hpar]
      omega

/-- The nearest-even integer is the one value with the defining property. -/
theorem nearestEven_eq_iff {num den k : ℕ} (hden : 0 < den) :
    nearestEven num den = k ↔ IsNearestEven num den k :=
  ⟨fun h => h ▸ nearestEven_spec num hden, fun h => (nearestEven_spec num hden).unique hden h⟩

/-- A value that is no NaN and not infinite is a signed dyadic number. -/
inductive Double where
  /-- Not a number, with its sign bit. -/
  | nan (negative : Bool)
  /-- Signed infinity. -/
  | infinite (negative : Bool)
  /-- The number with the given sign and size mantissa times 2^exponent. -/
  | finite (negative : Bool) (mantissa : ℕ) (exponent : ℤ)
  deriving DecidableEq

/-- Recognize NaN. -/
def Double.isNan : Double → Bool
  | .nan _ => true
  | _ => false

/-- Recognize a value that is no NaN and not infinite. -/
def Double.isFinite : Double → Bool
  | .finite .. => true
  | _ => false

/-- Recognize negative zero. -/
def Double.isNegativeZero : Double → Bool
  | .finite true 0 _ => true
  | _ => false

/-- Positive zero. -/
def Double.zero : Double := .finite false 0 0

/-- Widening of a binary32 image; it is exact. -/
def Double.ofBinary32 (image : BitVec 32) : Double :=
  let negative := image.msb
  let exponent : ℕ := image.toNat / 2 ^ 23 % 2 ^ 8
  let fraction := image.toNat % 2 ^ 23
  if exponent = 255 then
    if fraction = 0 then .infinite negative else .nan negative
  else if exponent = 0 then .finite negative fraction (-149)
  else .finite negative (2 ^ 23 + fraction) ((exponent : ℤ) - 150)

/-- An image stands for a finite number unless its exponent field is full. -/
theorem isFinite_ofBinary32_iff (image : BitVec 32) :
    (Double.ofBinary32 image).isFinite = true ↔ image.toNat / 2 ^ 23 % 2 ^ 8 ≠ 255 := by
  unfold Double.ofBinary32
  dsimp only
  split_ifs with hfull hfraction hzero
  · exact iff_of_false Bool.false_ne_true fun h => h hfull
  · exact iff_of_false Bool.false_ne_true fun h => h hfull
  · exact iff_of_true rfl hfull
  · exact iff_of_true rfl hfull

/-- Divide a quotient by 2^exponent and round to the nearest-even integer. -/
def scaledNearest (num den : ℕ) (exponent : ℤ) : ℕ :=
  if 0 ≤ exponent then nearestEven num (den * 2 ^ exponent.toNat)
  else nearestEven (num * 2 ^ (-exponent).toNat) den

/-- The position of the leading bit of a positive quotient. -/
def leadingBit (num den : ℕ) : ℤ :=
  let guess : ℤ := Nat.log2 num - Nat.log2 den
  if 0 ≤ guess then if den * 2 ^ guess.toNat ≤ num then guess else guess - 1
  else if den ≤ num * 2 ^ (-guess).toNat then guess else guess - 1

/-- Exponent of the nearest binary64 number: 53 bits down from the leading
bit, and no lower than the subnormal exponent. -/
def quotientExponent (num den : ℕ) : ℤ := max (leadingBit num den - 52) (-1074)

/-- The nearest binary64 number to a signed quotient. -/
def roundQuotient (negative : Bool) (num den : ℕ) : Double :=
  let exponent := quotientExponent num den
  let mantissa := scaledNearest num den exponent
  if 971 ≤ exponent ∧ 2 ^ 1024 ≤ mantissa * 2 ^ exponent.toNat then .infinite negative
  else .finite negative mantissa exponent

/-- Conversion of a signed 64-bit integer. -/
def Double.ofInt64 (x : BitVec 64) : Double := roundQuotient (x.toInt < 0) x.toInt.natAbs 1

/-- Division by a positive natural that is exact in binary64. -/
def Double.divNat (d : Double) (n : ℕ) : Double :=
  match d with
  | .nan negative => .nan negative
  | .infinite negative => .infinite negative
  | .finite negative mantissa exponent =>
    if 0 ≤ exponent then roundQuotient negative (mantissa * 2 ^ exponent.toNat) n
    else roundQuotient negative mantissa (n * 2 ^ (-exponent).toNat)

/-- The size of a finite number times a scale, rounded to the nearest-even
integer; absent for NaN and infinities. -/
def Double.nearestScaled (d : Double) (scale : ℕ) : Option ℕ :=
  match d with
  | .nan _ => none
  | .infinite _ => none
  | .finite _ mantissa exponent =>
    some (if 0 ≤ exponent then mantissa * scale * 2 ^ exponent.toNat
      else nearestEven (mantissa * scale) (2 ^ (-exponent).toNat))

/-- The leading bit of a quotient that is at least one. -/
theorem leadingBit_of_le {num den : ℕ} (hden : 0 < den) (hle : den ≤ num) :
    ∃ bit : ℕ, leadingBit num den = bit ∧ den * 2 ^ bit ≤ num := by
  have hnum : num ≠ 0 := by omega
  have hlog : Nat.log2 den ≤ Nat.log2 num :=
    (Nat.le_log2 hnum).mpr ((Nat.log2_self_le hden.ne').trans hle)
  obtain ⟨guess, hguess⟩ := Nat.exists_eq_add_of_le hlog
  have hint : ((Nat.log2 num : ℤ) - Nat.log2 den) = guess := by omega
  unfold leadingBit
  simp only [hint, Int.natCast_nonneg, if_true, Int.toNat_natCast]
  split_ifs with hfit
  · exact ⟨guess, rfl, hfit⟩
  · cases guess with
    | zero => exact absurd (by simpa using hle) hfit
    | succ g =>
      refine ⟨g, by push_cast; ring, ?_⟩
      have hlt : den < 2 ^ (Nat.log2 den + 1) := Nat.lt_log2_self
      calc den * 2 ^ g ≤ 2 ^ (Nat.log2 den + 1) * 2 ^ g := Nat.mul_le_mul_right _ hlt.le
        _ = 2 ^ Nat.log2 num := by rw [← Nat.pow_add, hguess]; congr 1; omega
        _ ≤ num := Nat.log2_self_le hnum

/-- Rounding a scaled quotient to an integer and then removing the scale
rounds the quotient itself, when the scale exceeds the denominator. -/
theorem nearestEven_nearestEven {num den scale : ℕ} (hden : 0 < den) (hscale : den < 2 * scale) :
    nearestEven (nearestEven (num * (2 * scale)) den) (2 * scale) = nearestEven num den := by
  have hinner := nearestEven_spec (num * (2 * scale)) hden
  have houter := nearestEven_spec num hden
  generalize nearestEven (num * (2 * scale)) den = mantissa at hinner ⊢
  generalize nearestEven num den = k at houter ⊢
  rw [nearestEven_eq_iff (by omega)]
  have hbound : 2 * (mantissa * den) ≤ 2 * (num * (2 * scale)) + den ∧
      2 * (num * (2 * scale)) ≤ 2 * (mantissa * den) + den := by
    unfold IsNearestEven at hinner
    omega
  rcases houter with ⟨hlow, hhigh⟩ | ⟨htie, heven⟩
  · -- strictly closer than a half: the scaled value cannot reach the half
    left
    constructor
    · by_contra hcon
      have hmul := Nat.mul_le_mul_right den (Nat.not_lt.mp hcon)
      nlinarith
    · by_contra hcon
      have hmul := Nat.mul_le_mul_right den (Nat.not_lt.mp hcon)
      nlinarith
  · -- a tie is scaled exactly, so it stays a tie
    right
    refine ⟨?_, heven⟩
    rcases htie with htie | htie
    · left
      obtain ⟨j, rfl⟩ : ∃ j, k = j + 1 := Nat.exists_eq_add_one_of_ne_zero (by rintro rfl; omega)
      have hscaled : num * (2 * scale) = (2 * j + 1) * scale * den := by nlinarith
      have hmantissa := hinner.unique hden (hscaled ▸ isNearestEven_mul _ hden)
      rw [hmantissa]
      ring
    · right
      have hscaled : num * (2 * scale) = (2 * k + 1) * scale * den := by nlinarith
      have hmantissa := hinner.unique hden (hscaled ▸ isNearestEven_mul _ hden)
      rw [hmantissa]
      ring

/-- Rounding the nearest binary64 number of a quotient to an integer rounds
the exact quotient, for a quotient of at least one with a numerator below 2^52. -/
theorem nearestScaled_roundQuotient {num den : ℕ} (negative : Bool) (hden : 0 < den)
    (hle : den ≤ num) (hsmall : num < 2 ^ 52) :
    (roundQuotient negative num den).nearestScaled 1 = some (nearestEven num den) := by
  obtain ⟨bit, hbit, hfit⟩ := leadingBit_of_le hden hle
  have hbit51 : bit < 52 := by
    have hpow : 2 ^ bit < 2 ^ 52 :=
      (Nat.le_mul_of_pos_left (2 ^ bit) hden).trans_lt (hfit.trans_lt hsmall)
    exact (Nat.pow_lt_pow_iff_right (by decide)).mp hpow
  obtain ⟨down, hdown⟩ : ∃ down, bit + (down + 1) = 52 := ⟨51 - bit, by omega⟩
  have hexp : quotientExponent num den = -((down + 1 : ℕ) : ℤ) := by
    unfold quotientExponent
    rw [hbit]
    omega
  have hneg : ¬ (0 : ℤ) ≤ -((down + 1 : ℕ) : ℤ) := by omega
  have hscale : den < 2 * 2 ^ down := by
    have hwide : den * 2 ^ 52 ≤ num * (2 * 2 ^ down) := by
      calc den * 2 ^ 52 = den * 2 ^ bit * 2 ^ (down + 1) := by rw [← hdown, Nat.pow_add]; ring
        _ ≤ num * 2 ^ (down + 1) := Nat.mul_le_mul_right _ hfit
        _ = num * (2 * 2 ^ down) := by rw [Nat.pow_succ]; ring
    by_contra hcon
    have hmul := Nat.mul_le_mul_left num (Nat.not_lt.mp hcon)
    nlinarith
  have hround : nearestEven (nearestEven (num * 2 ^ (down + 1)) den) (2 ^ (down + 1)) =
      nearestEven num den := by
    rw [Nat.pow_succ']
    exact nearestEven_nearestEven hden hscale
  unfold roundQuotient
  rw [hexp, if_neg (by omega)]
  simp only [Double.nearestScaled, scaledNearest, if_neg hneg, neg_neg, Int.toNat_natCast,
    Nat.mul_one, hround]

/-- A quotient whose numerator is below 2^200 is rounded to a finite number. -/
theorem isFinite_roundQuotient (negative : Bool) {num : ℕ} (den : ℕ) (hsmall : num < 2 ^ 200) :
    (roundQuotient negative num den).isFinite = true := by
  have hlog : Nat.log2 num < 200 := by
    by_cases hnum : num = 0
    · rw [hnum, Nat.log2_zero]
      decide
    · exact (Nat.log2_lt hnum).mpr hsmall
  have hbit : leadingBit num den < 200 := by
    unfold leadingBit
    dsimp only
    split_ifs <;> omega
  have hexp : ¬ 971 ≤ quotientExponent num den := by
    unfold quotientExponent
    omega
  unfold roundQuotient
  dsimp only
  rw [if_neg fun h => hexp h.1]
  rfl

/-- Rounding to an integer adds less than one. -/
theorem nearestEven_le (num den : ℕ) : nearestEven num den ≤ num + 1 := by
  have hdiv := Nat.div_le_self num den
  have hpar := Nat.mod_lt (num / den) (by decide : 0 < 2)
  unfold nearestEven
  split_ifs <;> omega

/-- The leading bit of a natural number. -/
theorem leadingBit_bounds {num : ℕ} (hnum : num < 2 ^ 64) :
    -1 ≤ leadingBit num 1 ∧ leadingBit num 1 < 64 := by
  have hone : Nat.log2 1 = 0 := by decide
  have hlog : Nat.log2 num < 64 := by
    by_cases hzero : num = 0
    · rw [hzero, Nat.log2_zero]
      decide
    · exact (Nat.log2_lt hzero).mpr hnum
  unfold leadingBit
  rw [hone]
  dsimp only
  split_ifs <;> omega

/-- A signed 64-bit integer divided by a natural number is finite. -/
theorem isFinite_divNat_ofInt64 (x : BitVec 64) (n : ℕ) :
    ((Double.ofInt64 x).divNat n).isFinite = true := by
  have hnum : x.toInt.natAbs < 2 ^ 64 := by
    have hlt := x.isLt
    rw [BitVec.toInt_eq_toNat_cond]
    split_ifs <;> omega
  rw [Double.ofInt64]
  generalize x.toInt.natAbs = num at hnum ⊢
  obtain ⟨hlow, hhigh⟩ := leadingBit_bounds hnum
  have hexp : -53 ≤ quotientExponent num 1 ∧ quotientExponent num 1 < 12 := by
    unfold quotientExponent
    omega
  rw [roundQuotient, if_neg (by omega), Double.divNat, scaledNearest, Nat.one_mul]
  generalize quotientExponent num 1 = exponent at hexp ⊢
  by_cases hneg : 0 ≤ exponent
  · have hpow : 2 ^ exponent.toNat ≤ 2 ^ 11 := Nat.pow_le_pow_right (by decide) (by omega)
    have hle := nearestEven_le num (2 ^ exponent.toNat)
    rw [if_pos hneg, if_pos hneg]
    refine isFinite_roundQuotient _ n ?_
    calc nearestEven num (2 ^ exponent.toNat) * 2 ^ exponent.toNat
        ≤ 2 ^ 64 * 2 ^ 11 := Nat.mul_le_mul (by omega) hpow
      _ < 2 ^ 200 := by decide
  · have hpow : 2 ^ (-exponent).toNat ≤ 2 ^ 53 := Nat.pow_le_pow_right (by decide) (by omega)
    have hle := nearestEven_le (num * 2 ^ (-exponent).toNat) 1
    have hmul : num * 2 ^ (-exponent).toNat ≤ 2 ^ 64 * 2 ^ 53 := Nat.mul_le_mul hnum.le hpow
    rw [if_neg hneg, if_neg hneg]
    refine isFinite_roundQuotient _ _ ?_
    calc nearestEven (num * 2 ^ (-exponent).toNat) 1
        ≤ 2 ^ 64 * 2 ^ 53 + 1 := by omega
      _ < 2 ^ 200 := by decide

end TelemetryPlatform.Binary64
