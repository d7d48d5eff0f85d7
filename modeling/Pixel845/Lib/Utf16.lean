import Mathlib.Data.List.Basic

/-!
# Text in UTF-16

Code units are taken to characters: a high surrogate and a low one behind it make one, and a surrogate without its other half
stands for the replacement character.
-/

namespace Pixel845.Utf16

/-- The first half of a pair. -/
def isHigh (u : Nat) : Bool := 0xD800 ≤ u && u < 0xDC00

/-- The second half of a pair. -/
def isLow (u : Nat) : Bool := 0xDC00 ≤ u && u < 0xE000

/-- The scalar value of a pair. -/
def pairValue (hi lo : Nat) : Nat := 0x10000 + (hi - 0xD800) * 1024 + (lo - 0xDC00)

/-- The character of a unit that has no other half. -/
def unitChar (u : Nat) : Char := if isHigh u || isLow u then Char.ofNat 0xFFFD else Char.ofNat u

/-- The characters of a text. -/
def chars : List Nat → List Char
  | [] => []
  | [u] => [unitChar u]
  | u :: w :: us => if isHigh u && isLow w then Char.ofNat (pairValue u w) :: chars us else unitChar u :: chars (w :: us)

/-- The text in UTF-8. -/
def utf8 (us : List Nat) : List UInt8 := (chars us).flatMap String.utf8EncodeChar

variable {u w hi lo n : Nat} {us : List Nat}

/-- A unit that is no high surrogate stands alone. -/
theorem chars_cons_of_not_high (h : isHigh u = false) (us : List Nat) : chars (u :: us) = unitChar u :: chars us := by
  cases us with
  | nil => rfl
  | cons w us => simp [chars, h]

/-- A unit without a low surrogate behind it stands alone. -/
theorem chars_cons_of_not_low (u : Nat) (h : isLow w = false) (us : List Nat) :
    chars (u :: w :: us) = unitChar u :: chars (w :: us) := by
  simp [chars, h]

/-- A high and a low surrogate are one character. -/
theorem chars_pair (hhi : isHigh hi = true) (hlo : isLow lo = true) (us : List Nat) :
    chars (hi :: lo :: us) = Char.ofNat (pairValue hi lo) :: chars us := by
  simp [chars, hhi, hlo]

/-- The bytes of the first character come first. -/
theorem utf8_cons {c : Char} {us' : List Nat} (h : chars us = c :: chars us') :
    utf8 us = String.utf8EncodeChar c ++ utf8 us' := by
  rw [utf8, h]
  rfl

theorem isHigh_iff : isHigh u = true ↔ 0xD800 ≤ u ∧ u < 0xDC00 := by simp [isHigh]

theorem isLow_iff : isLow u = true ↔ 0xDC00 ≤ u ∧ u < 0xE000 := by simp [isLow]

/-- A pair stands for a character above the first 65536. -/
theorem pairValue_bounds (hhi : isHigh hi = true) (hlo : isLow lo = true) :
    0x10000 ≤ pairValue hi lo ∧ pairValue hi lo < 0x110000 := by
  rw [isHigh_iff] at hhi
  rw [isLow_iff] at hlo
  unfold pairValue
  omega

/-- A valid number is that of its character. -/
theorem toNat_ofNat (h : n.isValidChar) : (Char.ofNat n).toNat = n := by
  rw [Char.ofNat, dif_pos h]
  rfl

end Pixel845.Utf16
