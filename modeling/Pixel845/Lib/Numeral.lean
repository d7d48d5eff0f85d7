import Mathlib.Tactic.Ring
import Pixel845.Lib.Decimal

/-!
# Numerals of C

`strtoul` and `strtol` with base 0, where a `long` has 64 bits: they skip white space, take a sign, choose the base by the prefix
and read as many digits as there are; a number that does not fit is replaced by the nearest limit, and a negative one wraps around
in `strtoul`. `numeral` is the integer that a whole string spells. A string that spells an integer which fits is read as this
integer, or as its residue (`strtoul_of_numeral`, `strtol_of_numeral`).
-/

namespace Pixel845

/-- The value of a digit in some base, letters included. -/
def digitOf (c : UInt8) : Option Nat :=
  if isDigit c then some (c.toNat - 48)
  else if 97 ≤ c && c ≤ 122 then some (c.toNat - 87)
  else if 65 ≤ c && c ≤ 90 then some (c.toNat - 55)
  else none

/-- The byte is a digit in a base. -/
def isDigitIn (base : Nat) (c : UInt8) : Bool := (digitOf c).any (· < base)

/-- The number that digits stand for in a base. -/
def digitsIn (base : Nat) (ds : List UInt8) : Nat := ds.foldl (fun v c => base * v + (digitOf c).getD 0) 0

/-- The base of a numeral, and its digits with what follows them: `0x` in front of a digit is a prefix, and so is `0`. -/
def basePrefix : List UInt8 → Nat × List UInt8
  | 48 :: x :: d :: s => if (x == 120 || x == 88) && isDigitIn 16 d then (16, d :: s) else (8, 48 :: x :: d :: s)
  | 48 :: s => (8, 48 :: s)
  | s => (10, s)

/-- A numeral at the start of a string: its sign, the number that its digits stand for, if there are any, and what follows it. -/
structure Numeral where
  neg : Bool
  magnitude : Option Nat
  rest : List UInt8

/-- The sign of a numeral. -/
def signPrefix : List UInt8 → Bool × List UInt8
  | 45 :: s => (true, s)
  | 43 :: s => (false, s)
  | s => (false, s)

/-- The numeral at the start of a string, in base 0. -/
def scanNumeral (s : List UInt8) : Numeral :=
  let signed := signPrefix (s.dropWhile isSpace)
  let based := basePrefix signed.2
  let ds := based.2.takeWhile (isDigitIn based.1)
  { neg := signed.1
    magnitude := if ds = [] then none else some (digitsIn based.1 ds)
    rest := based.2.dropWhile (isDigitIn based.1) }

/-- The integer of a sign and a magnitude. -/
def signedInt (neg : Bool) (n : Nat) : Int := if neg then -n else n

/-- The integer that a whole string spells. -/
def numeral (s : List UInt8) : Option Int :=
  if (scanNumeral s).rest = [] then (scanNumeral s).magnitude.map (signedInt (scanNumeral s).neg) else none

/-- `strtoul(s, NULL, 0)` -/
def strtoul (s : List UInt8) : Nat :=
  match (scanNumeral s).magnitude with
  | none => 0
  | some n => if 2 ^ 64 ≤ n then 2 ^ 64 - 1 else if (scanNumeral s).neg then (2 ^ 64 - n) % 2 ^ 64 else n

/-- `strtol(s, NULL, 0)` -/
def strtol (s : List UInt8) : Int :=
  match (scanNumeral s).magnitude with
  | none => 0
  | some n => max (-2 ^ 63) (min (2 ^ 63 - 1) (signedInt (scanNumeral s).neg n))

variable {s : List UInt8} {n : Int}

/-- What a numeral stands for has a magnitude and its sign. -/
theorem magnitude_of_numeral (h : numeral s = some n) :
    ∃ k, (scanNumeral s).magnitude = some k ∧ n = signedInt (scanNumeral s).neg k := by
  unfold numeral at h
  split at h
  · obtain ⟨k, hk, rfl⟩ := Option.map_eq_some_iff.mp h
    exact ⟨k, hk, rfl⟩
  · cases h

/-- A string that spells an integer of at most 64 bits is read as its residue. -/
theorem strtoul_of_numeral (h : numeral s = some n) (hn : n.natAbs < 2 ^ 64) : (strtoul s : Int) = n % 2 ^ 64 := by
  obtain ⟨k, hk, rfl⟩ := magnitude_of_numeral h
  unfold strtoul
  rw [hk]
  cases hneg : (scanNumeral s).neg with
  | true =>
    simp only [hneg, signedInt, if_true] at hn ⊢
    rw [if_neg (by omega)]
    omega
  | false =>
    simp only [hneg, signedInt, Bool.false_eq_true, if_false] at hn ⊢
    rw [if_neg (by omega)]
    omega

/-- A string that spells a `long` is read as it. -/
theorem strtol_of_numeral (h : numeral s = some n) (hlo : -2 ^ 63 ≤ n) (hhi : n < 2 ^ 63) : strtol s = n := by
  obtain ⟨k, hk, rfl⟩ := magnitude_of_numeral h
  unfold strtol
  rw [hk]
  simp only
  omega

/-! ## Integer types -/

/-- The integer types that a number is converted to. -/
inductive IntType where
  | u8
  | u16
  | u32
  | i32
deriving DecidableEq

namespace IntType

/-- The bytes of the type. -/
def width : IntType → Nat
  | u8 => 1
  | u16 => 2
  | u32 | i32 => 4

/-- The conversion of an integer to the type. -/
def wrap : IntType → Int → Int
  | u8, n => n % 2 ^ 8
  | u16, n => n % 2 ^ 16
  | u32, n => n % 2 ^ 32
  | i32, n => n.bmod (2 ^ 32)

/-- The integers of the type. -/
def Has : IntType → Int → Prop
  | u8, n => 0 ≤ n ∧ n < 2 ^ 8
  | u16, n => 0 ≤ n ∧ n < 2 ^ 16
  | u32, n => 0 ≤ n ∧ n < 2 ^ 32
  | i32, n => -2 ^ 31 ≤ n ∧ n < 2 ^ 31

instance (t : IntType) (n : Int) : Decidable (t.Has n) := by cases t <;> unfold Has <;> infer_instance

/-- A conversion keeps the integers of the type and no others. -/
theorem wrap_eq_iff (t : IntType) (n : Int) : t.wrap n = n ↔ t.Has n := by
  cases t with
  | i32 =>
    simp only [wrap, Has]
    rw [Int.bmod_def]
    constructor <;> intro h <;> omega
  | _ =>
    simp only [wrap, Has]
    omega

/-- Only the last 64 bits matter for a conversion. -/
theorem wrap_emod (t : IntType) (n : Int) : t.wrap (n % 2 ^ 64) = t.wrap n := by
  cases t with
  | i32 =>
    simp only [wrap, Int.bmod_def]
    omega
  | _ =>
    simp only [wrap]
    omega

/-- A conversion changes nothing a second time. -/
theorem wrap_wrap (t : IntType) (n : Int) : t.wrap (t.wrap n) = t.wrap n := by
  cases t with
  | i32 => exact Int.bmod_bmod
  | _ =>
    simp only [wrap]
    omega

/-- The bytes of the type are enough for a conversion. -/
theorem wrap_width (t : IntType) (n : Nat) : t.wrap ((n % 256 ^ t.width : Nat) : Int) = t.wrap n := by
  cases t with
  | i32 =>
    simp only [wrap, width, Int.bmod_def]
    omega
  | _ =>
    simp only [wrap, width]
    omega

/-- Wrapping into 32 bits without a sign first makes no difference. -/
theorem wrap_i32_u32 (n : Int) : i32.wrap (u32.wrap n) = i32.wrap n := by
  simp only [wrap, Int.bmod_def]
  omega

end IntType

example : numeral [48, 120, 49, 48] = some 16 ∧ numeral [32, 45, 48, 49, 55] = some (-15) ∧ numeral [49, 97] = none := by decide

end Pixel845
