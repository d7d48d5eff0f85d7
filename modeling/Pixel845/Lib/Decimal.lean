import Mathlib.Data.List.TakeWhile

/-!
# Decimal numerals

A numeral is a list of ASCII bytes: `decimal` writes a natural number, `decimalInt` an integer with its sign, `digitsVal` reads
digits and `scanInt` reads what `scanf` takes for an integer. Reading what was written gives the number back, so different numbers
are written differently.
-/

namespace Pixel845

/-- The digits from `0` to `9`. -/
def isDigit (c : UInt8) : Bool := 48 ≤ c && c ≤ 57

/-- The white space of `isspace`. -/
def isSpace (c : UInt8) : Bool := c == 32 || (9 ≤ c && c ≤ 13)

/-- The number that digits stand for. -/
def digitsVal (ds : List UInt8) : Nat := ds.foldl (fun v c => 10 * v + (c.toNat - 48)) 0

/-- A number in decimal. -/
def decimal (n : Nat) : List UInt8 := (Nat.toDigits 10 n).map (fun c => UInt8.ofNat c.toNat)

/-- An integer in decimal, with a sign if it is negative. -/
def decimalInt (z : Int) : List UInt8 := if z < 0 then 45 :: decimal z.natAbs else decimal z.natAbs

/-- The integer at the start of a string, after white space: whether it has a minus sign, and the number that its digits
stand for. -/
def scanInt (s : List UInt8) : Option (Bool × Nat) :=
  let s := s.dropWhile isSpace
  let (neg, s) := match s with
    | 45 :: s => (true, s)
    | 43 :: s => (false, s)
    | s => (false, s)
  let ds := s.takeWhile isDigit
  if ds = [] then none else some (neg, digitsVal ds)

variable {n m : Nat}

/-- A digit is the same number as a byte. -/
theorem toUInt8_toNat_of_isDigit {c : Char} (h : c.isDigit = true) : (UInt8.ofNat c.toNat).toNat = c.toNat := by
  have hc : c.toNat ≤ 57 := (Char.isDigit_iff_toNat.mp h).2
  simp only [UInt8.toNat_ofNat']
  omega

/-- The text of a natural number has only digits. -/
theorem isDigit_of_mem_decimal {c : UInt8} (h : c ∈ decimal n) : isDigit c = true := by
  obtain ⟨d, hd, rfl⟩ := List.mem_map.mp h
  have hdig := Nat.isDigit_of_mem_toDigits (by decide) (by decide) hd
  have hc := Char.isDigit_iff_toNat.mp hdig
  have hval := toUInt8_toNat_of_isDigit hdig
  simp only [isDigit, Bool.and_eq_true, decide_eq_true_eq, UInt8.le_iff_toNat_le, hval]
  exact ⟨hc.1, hc.2⟩

/-- Reading the digits of a number gives it back. -/
theorem digitsVal_decimal (n : Nat) : digitsVal (decimal n) = n := by
  have hfold : ∀ (cs : List Char) (v : Nat), (∀ c ∈ cs, c.isDigit = true) →
      (cs.map (fun c => UInt8.ofNat c.toNat)).foldl (fun v c => 10 * v + (c.toNat - 48)) v = Nat.ofDigitChars 10 cs v := by
    intro cs
    induction cs with
    | nil => simp
    | cons c cs ih =>
      intro v hc
      rw [List.map_cons, List.foldl_cons, toUInt8_toNat_of_isDigit (hc c List.mem_cons_self), Nat.ofDigitChars_cons]
      exact ih _ (fun d hd => hc d (List.mem_cons_of_mem c hd))
  rw [digitsVal, decimal, hfold _ _ (fun c hc => Nat.isDigit_of_mem_toDigits (by decide) (by decide) hc)]
  exact Nat.ofDigitChars_ten_toDigits

/-- Different natural numbers have different texts. -/
theorem decimal_injective (h : decimal n = decimal m) : n = m := by
  rw [← digitsVal_decimal n, h, digitsVal_decimal]

/-- A numeral without a sign does not start with one. -/
theorem decimal_ne_sign (n : Nat) (ds : List UInt8) : decimal n ≠ 45 :: ds := by
  intro h
  have hd : isDigit 45 = true := isDigit_of_mem_decimal (n := n) (by simp [h])
  exact absurd hd (by decide)

/-- Different integers have different texts. -/
theorem decimalInt_injective {a b : Int} (h : decimalInt a = decimalInt b) : a = b := by
  unfold decimalInt at h
  split at h
  · split at h
    · have := decimal_injective (List.cons.inj h).2
      omega
    · exact absurd h.symm (decimal_ne_sign _ _)
  · split at h
    · exact absurd h (decimal_ne_sign _ _)
    · have := decimal_injective h
      omega

/-- What a numeral consists of. -/
theorem mem_decimalInt {z : Int} {c : UInt8} (h : c ∈ decimalInt z) : c = 45 ∨ isDigit c = true := by
  unfold decimalInt at h
  split at h
  · rcases List.mem_cons.mp h with rfl | h
    · exact .inl rfl
    · exact .inr (isDigit_of_mem_decimal h)
  · exact .inr (isDigit_of_mem_decimal h)

/-! ## Reading -/

/-- A digit is no space. -/
theorem isSpace_of_isDigit {c : UInt8} (h : isDigit c = true) : isSpace c = false := by
  simp only [isDigit, Bool.and_eq_true, decide_eq_true_eq, UInt8.le_iff_toNat_le] at h
  simp only [isSpace, Bool.or_eq_false_iff, beq_eq_false_iff_ne, ne_eq, ← UInt8.toNat_inj, Bool.and_eq_false_iff,
    decide_eq_false_iff_not, UInt8.le_iff_toNat_le]
  have h48 : (48 : UInt8).toNat = 48 := rfl
  have h32 : (32 : UInt8).toNat = 32 := rfl
  have h13 : (13 : UInt8).toNat = 13 := rfl
  omega

/-- A string of digits, with or without a minus sign, is read as the number it stands for. -/
theorem scanInt_digits (neg : Bool) {ds : List UInt8} (hne : ds ≠ []) (hds : ∀ c ∈ ds, isDigit c = true) :
    scanInt ((if neg then [45] else []) ++ ds) = some (neg, digitsVal ds) := by
  have htake : ds.takeWhile isDigit = ds := List.takeWhile_eq_self_iff.mpr hds
  cases neg with
  | true => simp [scanInt, htake, hne, show isSpace 45 = false by decide]
  | false =>
    cases ds with
    | nil => exact absurd rfl hne
    | cons d ds =>
      have hd := hds d List.mem_cons_self
      have hdrop : (d :: ds).dropWhile isSpace = d :: ds := by
        rw [List.dropWhile_cons, isSpace_of_isDigit hd]
        rfl
      have h45 : d ≠ 45 := by
        rintro rfl
        exact absurd hd (by decide)
      have h43 : d ≠ 43 := by
        rintro rfl
        exact absurd hd (by decide)
      simp only [scanInt, Bool.false_eq_true, if_false, List.nil_append, hdrop]
      split
      · rename_i heq
        simp_all
      · rename_i heq
        simp_all
      · simp [htake]

/-! ## Leading digits -/

/-- What was read so far is not lost by reading on. -/
theorem foldl_digits_lt {v w : Nat} (ds : List UInt8) (h : v < w) :
    ds.foldl (fun v c => 10 * v + (c.toNat - 48)) v < ds.foldl (fun v c => 10 * v + (c.toNat - 48)) w := by
  induction ds generalizing v w with
  | nil => exact h
  | cons d ds ih =>
    rw [List.foldl_cons, List.foldl_cons]
    exact ih (by omega)

/-- A digit in front makes more of a number, unless it is a zero. -/
theorem digitsVal_lt_cons {d : UInt8} (hd : isDigit d = true) (hne : d ≠ 48) (ds : List UInt8) :
    digitsVal ds < digitsVal (d :: ds) := by
  have hle : (48 : UInt8).toNat ≤ d.toNat := by
    simp only [isDigit, Bool.and_eq_true, decide_eq_true_eq, UInt8.le_iff_toNat_le] at hd
    exact hd.1
  have hval : d.toNat ≠ (48 : UInt8).toNat := fun h => hne (UInt8.toNat_inj.mp h)
  have h48 : (48 : UInt8).toNat = 48 := rfl
  have hpos : 0 < 10 * 0 + (d.toNat - 48) := by omega
  exact foldl_digits_lt ds hpos

/-- The first digit can be left out exactly if it is a zero. -/
theorem digitsVal_cons_eq_iff {d : UInt8} (hd : isDigit d = true) (ds : List UInt8) :
    digitsVal (d :: ds) = digitsVal ds ↔ d = 48 := by
  constructor
  · intro h
    by_contra hne
    have hlt := digitsVal_lt_cons hd hne ds
    omega
  · rintro rfl
    rfl

/-- Digits stand for zero exactly if all of them are zeros. -/
theorem digitsVal_eq_zero_iff {ds : List UInt8} (hds : ∀ d ∈ ds, isDigit d = true) : digitsVal ds = 0 ↔ ∀ d ∈ ds, d = 48 := by
  induction ds with
  | nil => simp [digitsVal]
  | cons d ds ih =>
    obtain ⟨hd, hds⟩ := List.forall_mem_cons.mp hds
    rw [List.forall_mem_cons, ← ih hds]
    by_cases hzero : d = 48
    · rw [(digitsVal_cons_eq_iff hd ds).mpr hzero]
      simp [hzero]
    · have hlt := digitsVal_lt_cons hd hzero ds
      exact iff_of_false (by omega) fun h => hzero h.1

end Pixel845
