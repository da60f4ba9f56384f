import Mathlib.Data.List.Basic

/-!
# UTF-8 texts around ASCII bytes

A byte below 128 is the whole encoding of a character and part of no other. A
text is therefore UTF-8 exactly when the parts on both sides of such a byte are.
-/

namespace TelemetryPlatform.Utf8Text

/-- A text is the encoding of characters. -/
def ValidUtf8 (text : List UInt8) : Prop :=
  ∃ chars : List Char, text = chars.flatMap String.utf8EncodeChar

/-- The empty text encodes no characters. -/
theorem validUtf8_nil : ValidUtf8 [] := ⟨[], rfl⟩

/-- One character has a text. -/
theorem validUtf8_utf8EncodeChar (c : Char) : ValidUtf8 (String.utf8EncodeChar c) :=
  ⟨[c], (List.flatMap_singleton _ c).symm⟩

/-- Two texts make one. -/
theorem ValidUtf8.append {xs ys : List UInt8} (hxs : ValidUtf8 xs) (hys : ValidUtf8 ys) :
    ValidUtf8 (xs ++ ys) := by
  obtain ⟨cs, rfl⟩ := hxs
  obtain ⟨ds, rfl⟩ := hys
  exact ⟨cs ++ ds, List.flatMap_append.symm⟩

/-- A byte below 128 in the encoding of a character is all of it. -/
theorem utf8EncodeChar_eq_of_mem {c : Char} {b : UInt8} (hb : b < 128)
    (hmem : b ∈ String.utf8EncodeChar c) : String.utf8EncodeChar c = [b] := by
  have hcontinued : ∀ n k : ℕ, 128 ≤ k → n + k < 256 → ¬ UInt8.ofNat (n + k) < 128 := by
    intro n k hk hsmall
    rw [UInt8.lt_iff_toNat_lt, UInt8.toNat_ofNat']
    change ¬ (n + k) % 256 < 128
    omega
  unfold String.utf8EncodeChar at hmem ⊢
  dsimp only at hmem ⊢
  split_ifs at hmem ⊢
  · rw [List.mem_singleton.mp hmem]
  · simp only [List.mem_cons, List.not_mem_nil, or_false] at hmem
    rcases hmem with rfl | rfl <;> exact absurd hb (hcontinued _ _ (by decide) (by omega))
  · simp only [List.mem_cons, List.not_mem_nil, or_false] at hmem
    rcases hmem with rfl | rfl | rfl <;> exact absurd hb (hcontinued _ _ (by decide) (by omega))
  · simp only [List.mem_cons, List.not_mem_nil, or_false] at hmem
    rcases hmem with rfl | rfl | rfl | rfl <;>
      exact absurd hb (hcontinued _ _ (by decide) (by omega))

/-- A byte below 128 is the encoding of a character. -/
theorem validUtf8_singleton {b : UInt8} (hb : b < 128) : ValidUtf8 [b] := by
  have henc : String.utf8EncodeChar (Char.ofNat b.toNat) = [b] := by
    have hsmall : b.toNat < 128 := hb
    have hvalue : (Char.ofNat b.toNat).val.toNat = b.toNat := by
      rw [Char.ofNat, dif_pos (.inl (by omega))]
      rfl
    rw [String.utf8EncodeChar, hvalue, if_pos (by omega), UInt8.ofNat_toNat]
  exact henc ▸ validUtf8_utf8EncodeChar _

/-- In front of a byte below 128, and behind it, stand whole characters. -/
theorem ValidUtf8.split {xs ys : List UInt8} {b : UInt8} (hb : b < 128)
    (h : ValidUtf8 (xs ++ b :: ys)) : ValidUtf8 xs ∧ ValidUtf8 ys := by
  obtain ⟨chars, heq⟩ := h
  induction chars generalizing xs with
  | nil =>
    rw [List.flatMap_nil] at heq
    exact absurd heq (by simp)
  | cons c chars ih =>
    rw [List.flatMap_cons] at heq
    rcases List.append_eq_append_iff.mp heq with ⟨front, henc, hrest⟩ | ⟨back, rfl, hrest⟩
    · cases front with
      | nil =>
        obtain ⟨-, hys⟩ := ih (show [] ++ b :: ys = _ from hrest)
        rw [List.append_nil] at henc
        exact ⟨henc ▸ validUtf8_utf8EncodeChar c, hys⟩
      | cons a front =>
        obtain ⟨rfl, hys⟩ := List.cons.inj hrest
        -- the byte is the whole encoding of this character
        have hone := utf8EncodeChar_eq_of_mem hb
          (henc ▸ List.mem_append_right xs List.mem_cons_self)
        rw [hone] at henc
        rcases List.append_eq_singleton_iff.mp henc.symm with ⟨rfl, hfront⟩ | ⟨-, hnone⟩
        · cases hfront
          exact ⟨validUtf8_nil, chars, hys⟩
        · cases hnone
    · obtain ⟨hfront, hys⟩ := ih hrest.symm
      exact ⟨(validUtf8_utf8EncodeChar c).append hfront, hys⟩

/-- A byte below 128 parts a text. -/
theorem validUtf8_append_cons {xs ys : List UInt8} {b : UInt8} (hb : b < 128) :
    ValidUtf8 (xs ++ b :: ys) ↔ ValidUtf8 xs ∧ ValidUtf8 ys :=
  ⟨ValidUtf8.split hb, fun ⟨hxs, hys⟩ => hxs.append ((validUtf8_singleton hb).append hys)⟩

/-- All bytes of a text are below 128. -/
def Ascii (text : List UInt8) : Prop := ∀ b ∈ text, b < 128

instance (text : List UInt8) : Decidable (Ascii text) := List.decidableBAll _ text

/-- A byte below 128 in front of a text changes nothing. -/
theorem validUtf8_cons {b : UInt8} (hb : b < 128) (ys : List UInt8) :
    ValidUtf8 (b :: ys) ↔ ValidUtf8 ys := by
  have hsplit : ValidUtf8 ([] ++ b :: ys) ↔ ValidUtf8 [] ∧ ValidUtf8 ys :=
    validUtf8_append_cons hb
  exact hsplit.trans (and_iff_right validUtf8_nil)

/-- Nor does ASCII. -/
theorem validUtf8_ascii_append {xs ys : List UInt8} (hxs : Ascii xs) :
    ValidUtf8 (xs ++ ys) ↔ ValidUtf8 ys := by
  induction xs with
  | nil => rfl
  | cons b xs ih =>
    rw [List.cons_append, validUtf8_cons (hxs b List.mem_cons_self)]
    exact ih fun a ha => hxs a (List.mem_cons_of_mem b ha)

/-- ASCII is UTF-8. -/
theorem validUtf8_of_ascii {xs : List UInt8} (hxs : Ascii xs) : ValidUtf8 xs := by
  rw [← List.append_nil xs, validUtf8_ascii_append hxs]
  exact validUtf8_nil

end TelemetryPlatform.Utf8Text
