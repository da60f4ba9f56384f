import TelemetryPlatform.Sha1

/-!
# Base64

Three bytes become four characters. The last group is filled up with zero bits,
and the characters that nothing of the input is in are replaced by padding.
-/

namespace TelemetryPlatform.Base64

open CStrings Sha1

/-- The table of characters. -/
def b64Tbl : Bytes := lit "ABCDEFGHIJKLMNOPQRSTUVWXYZabcdefghijklmnopqrstuvwxyz0123456789+/"

/-- The character of a six-bit value. -/
def b64Char (n : ℕ) : UInt8 := b64Tbl.getD n 0

/-- The four characters of a round of the loop, with the number of bytes that
were left before it. -/
def b64Group (rem : ℕ) (octetA octetB octetC : UInt8) : Bytes :=
  let triple := octetA.toUInt32 <<< 16 ||| octetB.toUInt32 <<< 8 ||| octetC.toUInt32
  [b64Char (triple >>> 18 &&& 0x3F).toNat, b64Char (triple >>> 12 &&& 0x3F).toNat,
    if 1 < rem then b64Char (triple >>> 6 &&& 0x3F).toNat else 61,
    if 2 < rem then b64Char (triple &&& 0x3F).toNat else 61]

/-- The characters that the loop writes. -/
def b64Loop : Bytes → Bytes
  | [] => []
  | [a] => b64Group 1 a 0 0
  | [a, b] => b64Group 2 a b 0
  | a :: b :: c :: rest => b64Group (rest.length + 3) a b c ++ b64Loop rest

/-- The conversion of a size to an int. -/
def sizeToInt (n : ℕ) : ℤ := (BitVec.ofNat 32 n).toInt

/-- Encode into a buffer: the number of characters, or -1 where they and the
terminator do not fit, and what the buffer holds. -/
def base64Encode (input out : Bytes) : ℤ × Bytes :=
  let olen := 4 * ((input.length + 2) / 3)
  if out.length < olen + 1 then (-1, out)
  else (sizeToInt (b64Loop input).length, memcpyAt out 0 (b64Loop input ++ [0]))

/-- The 24 bits of a group as a number. -/
def groupValue (a b c : UInt8) : ℕ := a.toNat * 65536 + b.toNat * 256 + c.toNat

/-- A digit of the standard: a letter, a decimal digit or one of two signs. -/
def alphabetChar (n : ℕ) : UInt8 :=
  if n < 26 then UInt8.ofNat (65 + n) else if n < 52 then UInt8.ofNat (97 + (n - 26))
  else if n < 62 then UInt8.ofNat (48 + (n - 52)) else if n = 62 then 43 else 47

/-- The alphabet of the standard. -/
def alphabet : Bytes := (List.range 64).map alphabetChar

/-- The encoding of the standard: a group of three bytes is written with four
digits of six bits. -/
def base64 : Bytes → Bytes
  | [] => []
  | [a] =>
    [alphabetChar (groupValue a 0 0 / 2 ^ 18), alphabetChar (groupValue a 0 0 / 2 ^ 12 % 64), 61,
      61]
  | [a, b] =>
    [alphabetChar (groupValue a b 0 / 2 ^ 18), alphabetChar (groupValue a b 0 / 2 ^ 12 % 64),
      alphabetChar (groupValue a b 0 / 2 ^ 6 % 64), 61]
  | a :: b :: c :: rest =>
    [alphabetChar (groupValue a b c / 2 ^ 18), alphabetChar (groupValue a b c / 2 ^ 12 % 64),
      alphabetChar (groupValue a b c / 2 ^ 6 % 64), alphabetChar (groupValue a b c % 64)] ++
      base64 rest

/-- The value of a character of the alphabet. -/
def sextet (c : UInt8) : Option ℕ :=
  if 65 ≤ c ∧ c ≤ 90 then some (c.toNat - 65)
  else if 97 ≤ c ∧ c ≤ 122 then some (26 + (c.toNat - 97))
  else if 48 ≤ c ∧ c ≤ 57 then some (52 + (c.toNat - 48))
  else if c = 43 then some 62 else if c = 47 then some 63 else none

/-- The decoding of the standard. Padding stands in the last group only. -/
def base64Decode : Bytes → Option Bytes
  | [] => some []
  | [a, b, 61, 61] => do
    let x ← sextet a
    let y ← sextet b
    return [UInt8.ofNat (x * 4 + y / 16)]
  | [a, b, c, 61] => do
    let x ← sextet a
    let y ← sextet b
    let z ← sextet c
    return [UInt8.ofNat (x * 4 + y / 16), UInt8.ofNat (y % 16 * 16 + z / 4)]
  | a :: b :: c :: d :: rest => do
    let x ← sextet a
    let y ← sextet b
    let z ← sextet c
    let w ← sextet d
    let tail ← base64Decode rest
    return UInt8.ofNat (x * 4 + y / 16) :: UInt8.ofNat (y % 16 * 16 + z / 4) ::
      UInt8.ofNat (z % 4 * 64 + w) :: tail
  | _ => none

/-- The table of the code holds the alphabet. -/
theorem b64Char_eq {n : ℕ} (hn : n < 64) : b64Char n = alphabetChar n := by
  have hall : ∀ n < 64, b64Char n = alphabetChar n := by decide +kernel
  exact hall n hn

/-- The 24 bits of a group are put together by shifts. -/
theorem toNat_triple (a b c : UInt8) :
    (a.toUInt32 <<< 16 ||| b.toUInt32 <<< 8 ||| c.toUInt32).toNat = groupValue a b c := by
  have hword := toNat_bytes 0 a b c
  have hzero : (0 : UInt8).toUInt32 <<< 24 = 0 := rfl
  rw [hzero, UInt32.zero_or] at hword
  rw [hword, groupValue]
  change ((0 * 256 + a.toNat) * 256 + b.toNat) * 256 + c.toNat = _
  omega

/-- A group has 24 bits. -/
theorem groupValue_lt (a b c : UInt8) : groupValue a b c < 2 ^ 24 := by
  have ha := a.toNat_lt
  have hb := b.toNat_lt
  have hc := c.toNat_lt
  unfold groupValue
  omega

/-- The last six bits. -/
theorem toNat_and_sixBits (x : UInt32) : (x &&& 0x3F).toNat = x.toNat % 64 := by
  rw [UInt32.toNat_and]
  change x.toNat &&& (2 ^ 6 - 1) = _
  rw [Nat.and_two_pow_sub_one_eq_mod]

/-- The characters of a round of the loop are the digits of the group, up to
the padding. -/
theorem b64Group_eq (rem : ℕ) (a b c : UInt8) :
    b64Group rem a b c = [alphabetChar (groupValue a b c / 2 ^ 18),
      alphabetChar (groupValue a b c / 2 ^ 12 % 64),
      if 1 < rem then alphabetChar (groupValue a b c / 2 ^ 6 % 64) else 61,
      if 2 < rem then alphabetChar (groupValue a b c % 64) else 61] := by
  have hlt := groupValue_lt a b c
  have hmod (n : ℕ) : b64Char (n % 64) = alphabetChar (n % 64) :=
    b64Char_eq (Nat.mod_lt n (by decide))
  have htop : groupValue a b c / 2 ^ 18 % 64 = groupValue a b c / 2 ^ 18 := by omega
  have hshift (n : ℕ) (hn : n < 32) :
      ((a.toUInt32 <<< 16 ||| b.toUInt32 <<< 8 ||| c.toUInt32) >>> UInt32.ofNat n).toNat =
        groupValue a b c / 2 ^ n := by
    rw [UInt32.toNat_shiftRight, UInt32.toNat_ofNat', Nat.shiftRight_eq_div_pow, toNat_triple,
      Nat.mod_eq_of_lt (a := n) (by omega), Nat.mod_eq_of_lt hn]
  unfold b64Group
  dsimp only
  rw [toNat_and_sixBits, toNat_and_sixBits, toNat_and_sixBits, toNat_and_sixBits, toNat_triple,
    show (18 : UInt32) = UInt32.ofNat 18 from rfl, show (12 : UInt32) = UInt32.ofNat 12 from rfl,
    show (6 : UInt32) = UInt32.ofNat 6 from rfl, hshift 18 (by decide), hshift 12 (by decide),
    hshift 6 (by decide), hmod, hmod, hmod, hmod, htop]

/-- The loop writes the encoding of the standard. -/
theorem b64Loop_eq (input : Bytes) : b64Loop input = base64 input := by
  fun_induction base64 input with
  | case1 => rfl
  | case2 a => rw [b64Loop, b64Group_eq, if_neg (by decide), if_neg (by decide)]
  | case3 a b => rw [b64Loop, b64Group_eq, if_pos (by decide), if_neg (by decide)]
  | case4 a b c rest ih =>
    rw [b64Loop, b64Group_eq, ih, if_pos (by omega), if_pos (by omega)]

/-- The characters of the alphabet are told apart, and none is the padding or a
terminator. -/
theorem sextet_alphabetChar {n : ℕ} (hn : n < 64) :
    sextet (alphabetChar n) = some n ∧ alphabetChar n ≠ 61 ∧ alphabetChar n ≠ 0 := by
  have hall : ∀ n < 64,
      sextet (alphabetChar n) = some n ∧ alphabetChar n ≠ 61 ∧ alphabetChar n ≠ 0 := by
    decide +kernel
  exact hall n hn

/-- The four digits of a group give its three bytes back. -/
theorem bytes_of_digits (a b c : UInt8) :
    let v := groupValue a b c
    UInt8.ofNat (v / 2 ^ 18 * 4 + v / 2 ^ 12 % 64 / 16) = a ∧
      UInt8.ofNat (v / 2 ^ 12 % 64 % 16 * 16 + v / 2 ^ 6 % 64 / 4) = b ∧
      UInt8.ofNat (v / 2 ^ 6 % 64 % 4 * 64 + v % 64) = c := by
  have ha := a.toNat_lt
  have hb := b.toNat_lt
  have hc := c.toNat_lt
  dsimp only
  unfold groupValue
  refine ⟨?_, ?_, ?_⟩ <;>
    · refine UInt8.toNat_inj.mp ?_
      rw [UInt8.toNat_ofNat']
      omega

/-- The decoding of the standard undoes its encoding. -/
theorem base64Decode_base64 (m : Bytes) : base64Decode (base64 m) = some m := by
  have hdigits (a b c : UInt8) : groupValue a b c / 2 ^ 18 < 64 := by
    have hlt := groupValue_lt a b c
    omega
  have hmod (n : ℕ) : n % 64 < 64 := Nat.mod_lt n (by decide)
  fun_induction base64 m with
  | case1 => rfl
  | case2 a =>
    obtain ⟨h1, -, -⟩ := sextet_alphabetChar (hdigits a 0 0)
    obtain ⟨h2, -, -⟩ := sextet_alphabetChar (hmod (groupValue a 0 0 / 2 ^ 12))
    rw [base64Decode, h1, h2]
    exact congrArg (fun x => some [x]) (bytes_of_digits a 0 0).1
  | case3 a b =>
    obtain ⟨h1, -, -⟩ := sextet_alphabetChar (hdigits a b 0)
    obtain ⟨h2, -, -⟩ := sextet_alphabetChar (hmod (groupValue a b 0 / 2 ^ 12))
    obtain ⟨h3, hpad, -⟩ := sextet_alphabetChar (hmod (groupValue a b 0 / 2 ^ 6))
    obtain ⟨hfst, hsnd, -⟩ := bytes_of_digits a b 0
    rw [base64Decode, h1, h2, h3]
    · exact congrArg₂ (fun x y => some [x, y]) hfst hsnd
    · exact hpad
  | case4 a b c rest ih =>
    obtain ⟨h1, -, -⟩ := sextet_alphabetChar (hdigits a b c)
    obtain ⟨h2, -, -⟩ := sextet_alphabetChar (hmod (groupValue a b c / 2 ^ 12))
    obtain ⟨h3, -, -⟩ := sextet_alphabetChar (hmod (groupValue a b c / 2 ^ 6))
    obtain ⟨h4, hpad, -⟩ := sextet_alphabetChar (hmod (groupValue a b c))
    obtain ⟨hfst, hsnd, hthd⟩ := bytes_of_digits a b c
    simp only [List.cons_append, List.nil_append]
    rw [base64Decode, h1, h2, h3, h4, ih]
    · change some (_ :: _ :: _ :: rest) = _
      rw [hfst, hsnd, hthd]
    · exact fun _ hd => absurd hd hpad
    · exact fun hd => absurd hd hpad

/-- Messages with the same encoding are the same. -/
theorem base64_injective : Function.Injective base64 := fun m m' h =>
  Option.some.inj ((base64Decode_base64 m).symm.trans (h ▸ base64Decode_base64 m'))

/-- Every started group of three bytes takes four characters. -/
theorem length_base64 (m : Bytes) : (base64 m).length = 4 * ((m.length + 2) / 3) := by
  fun_induction base64 m with
  | case1 => rfl
  | case2 a => simp only [List.length_cons, List.length_nil]
  | case3 a b => simp only [List.length_cons, List.length_nil]
  | case4 a b c rest ih =>
    rw [List.length_append, ih]
    simp only [List.length_cons, List.length_nil]
    omega

/-- An encoding holds no terminator. -/
theorem zero_notMem_base64 (m : Bytes) : 0 ∉ base64 m := by
  have hchar {n : ℕ} (hn : n < 64) : (0 : UInt8) ≠ alphabetChar n :=
    (sextet_alphabetChar hn).2.2.symm
  have htop (a b c : UInt8) : (0 : UInt8) ≠ alphabetChar (groupValue a b c / 2 ^ 18) := by
    have hlt := groupValue_lt a b c
    exact hchar (by omega)
  have hdigit (n : ℕ) : (0 : UInt8) ≠ alphabetChar (n % 64) := hchar (Nat.mod_lt n (by decide))
  have hpad : (0 : UInt8) ≠ 61 := by decide
  fun_induction base64 m with
  | case1 => exact List.not_mem_nil
  | case2 a =>
    simp only [List.mem_cons, htop, hdigit, hpad, List.not_mem_nil, or_false, not_false_eq_true]
  | case3 a b =>
    simp only [List.mem_cons, htop, hdigit, hpad, List.not_mem_nil, or_false, not_false_eq_true]
  | case4 a b c rest ih =>
    simp only [List.mem_append, List.mem_cons, htop, hdigit, ih, List.not_mem_nil, or_false,
      not_false_eq_true]

/-- A message whose encoding fits into the buffer is encoded there. -/
theorem base64Encode_of_fits {m out : Bytes} (hfits : 4 * ((m.length + 2) / 3) + 1 ≤ out.length) :
    base64Encode m out = (sizeToInt (base64 m).length, memcpyAt out 0 (base64 m ++ [0])) := by
  unfold base64Encode
  dsimp only
  rw [if_neg (by omega), b64Loop_eq]

/-- Then the buffer holds it as a string. -/
theorem ofMemory_base64Encode {m out : Bytes} (hfits : 4 * ((m.length + 2) / 3) + 1 ≤ out.length) :
    CString.ofMemory (base64Encode m out).2 = ⟨base64 m, zero_notMem_base64 m⟩ := by
  rw [base64Encode_of_fits hfits]
  change CString.ofMemory (memcpyAt out 0 (base64 m ++ [0])) = _
  rw [memcpyAt, List.take_zero, List.nil_append, List.append_assoc]
  exact CString.ofMemory_terminated ⟨base64 m, zero_notMem_base64 m⟩ _

/-- A number of whole groups is never taken for the error, even where it wraps
around. -/
theorem sizeToInt_groups_ne (n : ℕ) : sizeToInt (4 * n) ≠ -1 := by
  intro h
  have hbits : BitVec.ofNat 32 (4 * n) = BitVec.ofInt 32 (-1) :=
    BitVec.eq_of_toInt_eq (h.trans (by decide))
  have hnat := congrArg BitVec.toNat hbits
  rw [BitVec.toNat_ofNat, show (BitVec.ofInt 32 (-1)).toNat = 4294967295 from rfl] at hnat
  omega

/-- An encoding is characters of the alphabet and then the padding that the
last group requires. -/
theorem base64_eq_append_padding (m : Bytes) :
    ∃ body, base64 m = body ++ List.replicate ((3 - m.length % 3) % 3) 61 ∧
      ∀ c ∈ body, c ∈ alphabet := by
  have hchar {n : ℕ} (hn : n < 64) : alphabetChar n ∈ alphabet :=
    List.mem_map_of_mem (List.mem_range.mpr hn)
  have htop (a b c : UInt8) : alphabetChar (groupValue a b c / 2 ^ 18) ∈ alphabet :=
    hchar (by have hlt := groupValue_lt a b c; omega)
  have hdigit (n : ℕ) : alphabetChar (n % 64) ∈ alphabet := hchar (Nat.mod_lt n (by decide))
  fun_induction base64 m with
  | case1 => exact ⟨[], rfl, fun c hc => absurd hc List.not_mem_nil⟩
  | case2 a =>
    refine ⟨[alphabetChar (groupValue a 0 0 / 2 ^ 18),
      alphabetChar (groupValue a 0 0 / 2 ^ 12 % 64)], rfl, ?_⟩
    simp only [List.forall_mem_cons, htop, hdigit, true_and]
    exact fun c hc => absurd hc List.not_mem_nil
  | case3 a b =>
    refine ⟨[alphabetChar (groupValue a b 0 / 2 ^ 18),
      alphabetChar (groupValue a b 0 / 2 ^ 12 % 64),
      alphabetChar (groupValue a b 0 / 2 ^ 6 % 64)], rfl, ?_⟩
    simp only [List.forall_mem_cons, htop, hdigit, true_and]
    exact fun c hc => absurd hc List.not_mem_nil
  | case4 a b c rest ih =>
    obtain ⟨body, hbody, halphabet⟩ := ih
    refine ⟨[alphabetChar (groupValue a b c / 2 ^ 18),
      alphabetChar (groupValue a b c / 2 ^ 12 % 64), alphabetChar (groupValue a b c / 2 ^ 6 % 64),
      alphabetChar (groupValue a b c % 64)] ++ body, ?_, ?_⟩
    · have hrest : (a :: b :: c :: rest).length % 3 = rest.length % 3 := by
        simp only [List.length_cons]
        omega
      rw [hbody, hrest, List.append_assoc]
    · simp only [List.cons_append, List.nil_append, List.forall_mem_cons, htop, hdigit, true_and]
      exact halphabet

/-- The encoder refuses exactly the buffers that are too small for every started
group of three bytes and the terminator, and leaves them alone. Into any other it writes the
characters, with no more padding than required, and the terminator, and the
decoding of the standard gives the input back. -/
theorem base64Encode_exact (input out : Bytes) :
    ((base64Encode input out).1 = -1 ↔ out.length < 4 * ((input.length + 2) / 3) + 1) ∧
      if out.length < 4 * ((input.length + 2) / 3) + 1 then (base64Encode input out).2 = out
      else ∃ body, let chars := body ++ List.replicate ((3 - input.length % 3) % 3) 61
        (base64Encode input out).2 = chars ++ 0 :: out.drop (4 * ((input.length + 2) / 3) + 1) ∧
          chars.length = 4 * ((input.length + 2) / 3) ∧ (∀ c ∈ body, c ∈ alphabet) ∧
          base64Decode chars = some input := by
  by_cases hsmall : out.length < 4 * ((input.length + 2) / 3) + 1
  · have hencode : base64Encode input out = (-1, out) := by
      unfold base64Encode
      dsimp only
      rw [if_pos hsmall]
    rw [if_pos hsmall, hencode]
    exact ⟨iff_of_true rfl hsmall, rfl⟩
  · have hencode : base64Encode input out = (sizeToInt (base64 input).length,
        memcpyAt out 0 (base64 input ++ [0])) := base64Encode_of_fits (by omega)
    obtain ⟨body, hbody, halphabet⟩ := base64_eq_append_padding input
    have hlen := length_base64 input
    rw [if_neg hsmall, hencode]
    refine ⟨iff_of_false ?_ hsmall, body, ?_⟩
    · rw [hlen]
      exact sizeToInt_groups_ne _
    · rw [← hbody]
      refine ⟨?_, hlen, halphabet, base64Decode_base64 input⟩
      rw [memcpyAt, List.take_zero, List.nil_append, List.append_assoc, Nat.zero_add,
        List.length_append, hlen]
      rfl

end TelemetryPlatform.Base64
