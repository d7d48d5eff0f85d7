import Pixel845.Lib.Utf16
import Pixel845.Lemmas.JsonReadValue

/-!
# Escapes of code units

A quoted text of escapes is read as UTF-16 is: a pair of surrogates for its character and a lone one for the replacement
character, whatever units there are. The exception are the pairs whose character has the bits of a surrogate in its lower half,
which are replaced or taken for the first half of another pair.
-/

namespace Pixel845.Json

open Utf16

/-- The four digits of a code unit. -/
def unitDigits (u : Nat) : List UInt8 :=
  [jsonHexChar (UInt8.ofNat (u / 4096)), jsonHexChar (UInt8.ofNat (u / 256 % 16)), jsonHexChar (UInt8.ofNat (u / 16 % 16)),
    jsonHexChar (UInt8.ofNat (u % 16))]

/-- The escape of a code unit. -/
def unitEscape (u : Nat) : List UInt8 := 92 :: 117 :: unitDigits u

/-- A character that is not taken for a surrogate. -/
def Distinct (c : Char) : Prop := c.toNat / 1024 % 64 ≠ 54 ∧ c.toNat / 1024 % 64 ≠ 55

namespace JsonEscapesAux

variable {ρ : Type} {ops : DoubleOps ρ} {chunk : Bool} {t t' : Tokener ρ} {obj : JsonObject ρ} {d x : UInt8} {more : List UInt8}
  {u w hi n : Nat} {us : List Nat}

/-! ## Units -/

/-- What the tokener makes of units; `hi` is a high surrogate that came before, or 0. -/
def codeText : Nat → List Nat → List UInt8
  | hi, [] => if hi = 0 then [] else utf8ReplacementChar
  | hi, u :: us =>
    let v := if hi ≠ 0 ∧ isLowSurrogate u = true then decodeSurrogatePair hi u else u
    let lead := if hi ≠ 0 ∧ isLowSurrogate u = false then utf8ReplacementChar else []
    lead ++ match unescapedUtf v with
      | some bs => bs ++ codeText 0 us
      | none => codeText v us

/-- The bytes of the replacement character. -/
theorem utf8_replacement : String.utf8EncodeChar (Char.ofNat 0xFFFD) = utf8ReplacementChar := by decide

/-- A scalar value is written in UTF-8, if it has not the bits of a surrogate. -/
theorem unescapedUtf_scalar (hn : n.isValidChar) (hdistinct : n / 1024 % 64 ≠ 54 ∧ n / 1024 % 64 ≠ 55) :
    unescapedUtf n = some (String.utf8EncodeChar (Char.ofNat n)) := by
  have hval : (Char.ofNat n).val.toNat = n := toNat_ofNat hn
  have hlt : n < 0x110000 := by
    rcases hn with h | ⟨-, h⟩
    · omega
    · exact h
  have hhigh : isHighSurrogate n = false := by simpa [isHighSurrogate] using hdistinct.1
  have hlow : isLowSurrogate n = false := by simpa [isLowSurrogate] using hdistinct.2
  unfold unescapedUtf String.utf8EncodeChar
  simp only [hval, hhigh, hlow, hlt, Bool.false_eq_true, if_false, if_true]
  by_cases h1 : n < 0x80
  · rw [if_pos h1, if_pos (show n ≤ 0x7f by omega)]
  · rw [if_neg h1, if_neg (show ¬ n ≤ 0x7f by omega)]
    by_cases h2 : n < 0x800
    · rw [if_pos h2, if_pos (show n ≤ 0x7ff by omega), Nat.mod_eq_of_lt (a := n / 64) (by omega), Nat.add_comm 0xC0,
        Nat.add_comm 0x80]
    · rw [if_neg h2, if_neg (show ¬ n ≤ 0x7ff by omega)]
      by_cases h3 : n < 0x10000
      · rw [if_pos h3, if_pos (show n ≤ 0xffff by omega), Nat.mod_eq_of_lt (a := n / 4096) (by omega), Nat.add_comm 0xE0,
          Nat.add_comm 0x80, Nat.add_comm 0x80]
      · rw [if_neg h3, if_neg (show ¬ n ≤ 0xffff by omega), Nat.add_comm 0xF0, Nat.add_comm 0x80, Nat.add_comm 0x80,
          Nat.add_comm 0x80]

/-- The tokener's test of a high surrogate is that of UTF-16 on a unit. -/
theorem isHighSurrogate_eq (hu : u < 65536) : isHighSurrogate u = isHigh u := by
  rw [Bool.eq_iff_iff, isHigh_iff, isHighSurrogate, beq_iff_eq]
  omega

/-- Of units, the test of the tokener is that of UTF-16. -/
theorem isLowSurrogate_eq (hu : u < 65536) : isLowSurrogate u = isLow u := by
  rw [Bool.eq_iff_iff, isLow_iff, isLowSurrogate, beq_iff_eq]
  omega

/-- Of pairs, the tokener decodes as UTF-16 does. -/
theorem decodeSurrogatePair_eq (hhi : isHigh hi = true) (hlo : isLow u = true) : decodeSurrogatePair hi u = pairValue hi u := by
  rw [isHigh_iff] at hhi
  rw [isLow_iff] at hlo
  unfold decodeSurrogatePair pairValue
  omega

/-- Only a value with the bits of a high surrogate waits for what follows. -/
theorem high_of_unescapedUtf_none (h : unescapedUtf u = none) : isHighSurrogate u = true ∧ 0x800 ≤ u := by
  unfold unescapedUtf at h
  split at h
  · cases h
  · split at h
    · cases h
    · split at h
      · exact ⟨‹_›, by omega⟩
      · split at h
        · cases h
        · split at h
          · cases h
          · split at h <;> cases h

theorem unescapedUtf_length {bs : List UInt8} (h : unescapedUtf u = some bs) : bs.length ≤ 4 := by
  unfold unescapedUtf at h
  have hlen : ∀ bs' : List UInt8, bs'.length ≤ 4 → some bs' = some bs → bs.length ≤ 4 := fun bs' hle heq =>
    Option.some.inj heq ▸ hle
  split at h
  · exact hlen _ (by simp) h
  · split at h
    · exact hlen _ (by simp) h
    · split at h
      · cases h
      · split at h
        · exact hlen _ (by decide) h
        · split at h
          · exact hlen _ (by simp) h
          · split at h
            · exact hlen _ (by simp) h
            · exact hlen _ (by decide) h

/-! ## What units stand for -/

/-- The first unit is written, or kept for the next one. -/
theorem codeText_first (u : Nat) (us : List Nat) :
    codeText 0 (u :: us) = match unescapedUtf u with
      | some bs => bs ++ codeText 0 us
      | none => codeText u us := by
  simp [codeText]

/-- A low surrogate behind a high one. -/
theorem codeText_low (hhi : hi ≠ 0) (hlo : isLowSurrogate u = true) (us : List Nat) :
    codeText hi (u :: us) = match unescapedUtf (decodeSurrogatePair hi u) with
      | some bs => bs ++ codeText 0 us
      | none => codeText (decodeSurrogatePair hi u) us := by
  simp [codeText, hhi, hlo]

/-- Another unit behind a high surrogate. -/
theorem codeText_other (hhi : hi ≠ 0) (hlo : isLowSurrogate u = false) (us : List Nat) :
    codeText hi (u :: us) = utf8ReplacementChar ++ codeText 0 (u :: us) := by
  simp [codeText, hhi, hlo]

/-- How a text of units compares with what the tokener makes of it. -/
structure Compares (us : List Nat) : Prop where
  eq : (∀ c ∈ chars us, Distinct c) → codeText 0 us = utf8 us
  le : (codeText 0 us).length ≤ (utf8 us).length
  lt : ¬ (∀ c ∈ chars us, Distinct c) → (codeText 0 us).length < (utf8 us).length

/-- A character and a text behind it. -/
theorem Compares.cons {c : Char} {us' : List Nat} {bs : List UInt8} (hchars : chars us = c :: chars us')
    (hcode : codeText 0 us = bs ++ codeText 0 us') (hbs : bs = String.utf8EncodeChar c) (hc : Distinct c) (h : Compares us') :
    Compares us where
  eq := by
    intro hall
    rw [hchars, List.forall_mem_cons] at hall
    rw [hcode, utf8_cons hchars, hbs, h.eq hall.2]
  le := by
    rw [hcode, utf8_cons hchars, hbs, List.length_append, List.length_append]
    exact Nat.add_le_add_left h.le _
  lt := by
    intro hnot
    have hrest : ¬ ∀ c ∈ chars us', Distinct c := fun hall => hnot (by rw [hchars, List.forall_mem_cons]; exact ⟨hc, hall⟩)
    rw [hcode, utf8_cons hchars, hbs, List.length_append, List.length_append]
    exact Nat.add_lt_add_left (h.lt hrest) _

/-- A high surrogate is kept for the next unit. -/
theorem unescapedUtf_high (h : isHighSurrogate u = true) (hle : 0x800 ≤ u) : unescapedUtf u = none := by
  rw [unescapedUtf, if_neg (by omega), if_neg (by omega), if_pos h]

/-- A low surrogate that comes alone is replaced. -/
theorem unescapedUtf_low (h : isLowSurrogate u = true) (hle : 0x800 ≤ u) : unescapedUtf u = some utf8ReplacementChar := by
  have hhigh : isHighSurrogate u = false := by
    rw [isLowSurrogate, beq_iff_eq] at h
    rw [isHighSurrogate, h]
    rfl
  rw [unescapedUtf, if_neg (by omega), if_neg (by omega), if_neg (by simp [hhigh]), if_pos h]

/-- A surrogate that stands alone is replaced. -/
theorem unitChar_surrogate (h : isHigh u = true ∨ isLow u = true) : unitChar u = Char.ofNat 0xFFFD := by
  rcases h with h | h <;> simp [unitChar, h]

/-- The replacement character is not taken for a surrogate. -/
theorem distinct_replacement : Distinct (Char.ofNat 0xFFFD) := by
  unfold Distinct
  decide

/-- The characters that are not taken for a surrogate. -/
theorem distinct_iff (hn : n.isValidChar) : Distinct (Char.ofNat n) ↔ n / 1024 % 64 ≠ 54 ∧ n / 1024 % 64 ≠ 55 := by
  rw [Distinct, toNat_ofNat hn]

theorem utf8EncodeChar_length (hn : n.isValidChar) (hle : 0x10000 ≤ n) : (String.utf8EncodeChar (Char.ofNat n)).length = 4 := by
  have hval : (Char.ofNat n).val.toNat = n := toNat_ofNat hn
  unfold String.utf8EncodeChar
  simp only [hval]
  rw [if_neg (by omega), if_neg (by omega), if_neg (by omega)]
  rfl

/-- What a pair is taken for that is mistaken for the first half of another one is no longer than a replacement and the rest. -/
theorem pending_le {m : Nat} (hle : ∀ us : List Nat, us.length ≤ m → (∀ u ∈ us, u < 65536) →
    (codeText 0 us).length ≤ (utf8 us).length) (hhi : isHighSurrogate hi = true) (hus : ∀ u ∈ us, u < 65536)
    (hlen : us.length ≤ m) : (codeText hi us).length ≤ 3 + (utf8 us).length := by
  have hne : hi ≠ 0 := by
    rintro rfl
    exact absurd hhi (by decide)
  induction us generalizing hi with
  | nil => simp [codeText, hne, utf8ReplacementChar]
  | cons w us ih =>
    rw [List.forall_mem_cons] at hus
    rw [List.length_cons] at hlen
    cases hlow : isLowSurrogate w with
    | false =>
      have hrest := hle (w :: us) (by simpa using hlen) (List.forall_mem_cons.mpr hus)
      rw [codeText_other hne hlow, List.length_append]
      exact Nat.add_le_add_left hrest 3
    | true =>
      -- the other half of a pair that is none
      have hlow' : isLow w = true := (isLowSurrogate_eq hus.1).symm.trans hlow
      have hnot : isHigh w = false := by
        rw [isLow_iff] at hlow'
        simp [isHigh]
        omega
      have htext : (utf8 (w :: us)).length = 3 + (utf8 us).length := by
        rw [utf8_cons (chars_cons_of_not_high hnot us), unitChar_surrogate (.inr hlow'), utf8_replacement, List.length_append]
        rfl
      have hrest := hle us (by omega) hus.2
      rw [codeText_low hne hlow, htext]
      cases hbs : unescapedUtf (decodeSurrogatePair hi w) with
      | some bs =>
        have hbound := unescapedUtf_length hbs
        rw [List.length_append]
        omega
      | none =>
        have hagain := ih (high_of_unescapedUtf_none hbs).1 hus.2 (by omega) (by unfold decodeSurrogatePair; omega)
        simp only
        omega

/-- The text of the tokener compares with UTF-8 for all units. -/
theorem compares (us : List Nat) (hus : ∀ u ∈ us, u < 65536) : Compares us := by
  induction hn : us.length using Nat.strong_induction_on generalizing us with
  | _ n ih =>
    cases us with
    | nil => exact ⟨fun _ => rfl, Nat.le_refl _, fun hnot => absurd (List.forall_mem_nil _) hnot⟩
    | cons u us =>
      rw [List.forall_mem_cons] at hus
      rw [List.length_cons] at hn
      have hrest : Compares us := ih us.length (by omega) us hus.2 rfl
      cases hhigh : isHigh u with
      | false =>
        have hchars := chars_cons_of_not_high hhigh us
        cases hlow : isLow u with
        | true =>
          have hcode : unescapedUtf u = some utf8ReplacementChar :=
            unescapedUtf_low ((isLowSurrogate_eq hus.1).trans hlow) (by rw [isLow_iff] at hlow; omega)
          rw [unitChar_surrogate (.inr hlow)] at hchars
          exact hrest.cons hchars (by rw [codeText_first, hcode]) utf8_replacement.symm distinct_replacement
        | false =>
          have hvalid : u.isValidChar := by
            have h1 : ¬ (0xD800 ≤ u ∧ u < 0xDC00) := fun h => by simp [isHigh_iff.mpr h] at hhigh
            have h2 : ¬ (0xDC00 ≤ u ∧ u < 0xE000) := fun h => by simp [isLow_iff.mpr h] at hlow
            unfold Nat.isValidChar
            omega
          have hbits : u / 1024 % 64 ≠ 54 ∧ u / 1024 % 64 ≠ 55 := by
            unfold Nat.isValidChar at hvalid
            omega
          have hunit : unitChar u = Char.ofNat u := by simp [unitChar, hhigh, hlow]
          rw [hunit] at hchars
          exact hrest.cons hchars (by rw [codeText_first, unescapedUtf_scalar hvalid hbits]) rfl ((distinct_iff hvalid).mpr hbits)
      | true =>
        have hbounds := isHigh_iff.mp hhigh
        have hne : u ≠ 0 := by omega
        have hwaits : codeText 0 (u :: us) = codeText u us := by
          rw [codeText_first, unescapedUtf_high ((isHighSurrogate_eq hus.1).trans hhigh) (by omega)]
        cases us with
        | nil =>
          have hchars : chars [u] = Char.ofNat 0xFFFD :: chars [] := congrArg (· :: []) (unitChar_surrogate (.inl hhigh))
          exact hrest.cons hchars (by rw [hwaits]; simp [codeText, hne]) utf8_replacement.symm distinct_replacement
        | cons w us =>
          have hw := hus.2 w List.mem_cons_self
          have hus' : ∀ u ∈ us, u < 65536 := fun u hu => hus.2 u (List.mem_cons_of_mem _ hu)
          cases hlow : isLow w with
          | false =>
            have hchars := chars_cons_of_not_low u hlow us
            rw [unitChar_surrogate (.inl hhigh)] at hchars
            exact hrest.cons hchars (by rw [hwaits, codeText_other hne ((isLowSurrogate_eq hw).trans hlow)]) utf8_replacement.symm
              distinct_replacement
          | true =>
            have hchars := chars_pair hhigh hlow us
            have hpair := pairValue_bounds hhigh hlow
            have hvalid : (pairValue u w).isValidChar := .inr ⟨by omega, hpair.2⟩
            have hbehind : Compares us := ih us.length (by rw [← hn, List.length_cons]; omega) us hus' rfl
            have hcode : codeText 0 (u :: w :: us) = match unescapedUtf (pairValue u w) with
                | some bs => bs ++ codeText 0 us
                | none => codeText (pairValue u w) us := by
              rw [hwaits, codeText_low hne ((isLowSurrogate_eq hw).trans hlow), decodeSurrogatePair_eq hhigh hlow]
            by_cases hbits : pairValue u w / 1024 % 64 ≠ 54 ∧ pairValue u w / 1024 % 64 ≠ 55
            · rw [unescapedUtf_scalar hvalid hbits] at hcode
              exact hbehind.cons hchars hcode rfl ((distinct_iff hvalid).mpr hbits)
            · -- the pair is taken for a surrogate
              have hnot : ¬ ∀ c ∈ chars (u :: w :: us), Distinct c := by
                intro hall
                rw [hchars, List.forall_mem_cons, distinct_iff hvalid] at hall
                exact hbits hall.1
              have hlonger : (codeText 0 (u :: w :: us)).length < (utf8 (u :: w :: us)).length := by
                rw [utf8_cons hchars, List.length_append, utf8EncodeChar_length hvalid hpair.1, hcode]
                by_cases hfirst : pairValue u w / 1024 % 64 = 54
                · have hhigh' : isHighSurrogate (pairValue u w) = true := by simp [isHighSurrogate, hfirst]
                  have hpending : (codeText (pairValue u w) us).length ≤ 3 + (utf8 us).length :=
                    pending_le (fun us' hle hus' => (ih us'.length (by rw [List.length_cons] at hn; omega) us' hus' rfl).le)
                      hhigh' hus' (Nat.le_refl _)
                  rw [unescapedUtf_high hhigh' (by omega)]
                  simp only
                  omega
                · have hlow' : isLowSurrogate (pairValue u w) = true := by
                    simp [isLowSurrogate]
                    omega
                  have hle := hbehind.le
                  rw [unescapedUtf_low hlow' (by omega)]
                  simp only [List.length_append, utf8ReplacementChar, List.length_cons, List.length_nil]
                  omega
              exact ⟨fun hall => absurd hall hnot, hlonger.le, fun _ => hlonger⟩

/-! ## The tokener on escapes -/

/-- A digit that is written is read. -/
theorem hexDigit_spec {m : Nat} (hm : m < 16) : IsHexDigit (jsonHexChar (UInt8.ofNat m)) ∧
      jtHexdigit (jsonHexChar (UInt8.ofNat m)) = m := by
  interval_cases m <;> exact ⟨⟨by decide, by decide⟩, by decide⟩

/-- The digits of a unit are read as the unit. -/
theorem unitDigits_spec (hu : u < 65536) : ∃ d₁ d₂ d₃ d₄, unitDigits u = [d₁, d₂, d₃, d₄] ∧ IsHexDigit d₁ ∧ IsHexDigit d₂ ∧
      IsHexDigit d₃ ∧ IsHexDigit d₄ ∧ codeUnit d₁ d₂ d₃ d₄ = u := by
  obtain ⟨h₁, e₁⟩ := hexDigit_spec (m := u / 4096) (by omega)
  obtain ⟨h₂, e₂⟩ := hexDigit_spec (m := u / 256 % 16) (by omega)
  obtain ⟨h₃, e₃⟩ := hexDigit_spec (m := u / 16 % 16) (by omega)
  obtain ⟨h₄, e₄⟩ := hexDigit_spec (m := u % 16) (by omega)
  refine ⟨_, _, _, _, rfl, h₁, h₂, h₃, h₄, ?_⟩
  rw [codeUnit, e₁, e₂, e₃, e₄]
  omega

/-- What a surrogate that was kept makes of the next unit. -/
theorem joinSurrogates_spec (hi : Nat) (t : Tokener ρ) :
    (joinSurrogates hi t).ucsChar = (if hi ≠ 0 ∧ isLowSurrogate t.ucsChar = true then
      decodeSurrogatePair hi t.ucsChar else t.ucsChar) ∧
      t.Gathers (joinSurrogates hi t) (if hi ≠ 0 ∧ isLowSurrogate t.ucsChar = false then utf8ReplacementChar else []) ∧
      (joinSurrogates hi t).state = t.state ∧ (joinSurrogates hi t).savedState = t.savedState := by
  unfold joinSurrogates
  by_cases hhi : hi = 0
  · rw [if_pos hhi, if_neg (fun h => h.1 hhi), if_neg (fun h => h.1 hhi)]
    exact ⟨rfl, ⟨⟨rfl, rfl, rfl, rfl⟩, (List.append_nil _).symm, rfl, rfl, rfl⟩, rfl, rfl⟩
  · cases hlow : isLowSurrogate t.ucsChar with
    | true =>
      rw [if_neg hhi, if_pos rfl, if_pos ⟨hhi, rfl⟩, if_neg (by rintro ⟨-, ⟨⟩⟩)]
      exact ⟨rfl, ⟨⟨rfl, rfl, rfl, rfl⟩, (List.append_nil _).symm, rfl, rfl, rfl⟩, rfl, rfl⟩
    | false =>
      rw [if_neg hhi, if_neg (by rintro ⟨⟩), if_neg (by rintro ⟨-, ⟨⟩⟩), if_pos ⟨hhi, rfl⟩]
      exact ⟨rfl, ⟨⟨rfl, rfl, rfl, rfl⟩, rfl, rfl, rfl, rfl⟩, rfl, rfl⟩

/-- The loop goes on in the text behind the escapes that it has taken, with what they stand for. -/
def Takes (o : Outcome ρ) (t : Tokener ρ) (obj : JsonObject ρ) (hi : Nat) (us : List Nat) (behind : List UInt8) : Prop :=
  ∃ t' bs us' c, o = .next ⟨t', obj, c, c :: (us'.flatMap unitEscape ++ behind)⟩ ∧ c ≠ 0 ∧ us' <:+ us.tail ∧
    codeText hi us = bs ++ codeText 0 us' ∧ t.Gathers t' bs ∧ t'.state = t.savedState

/-- The value of a unit, with the high surrogate before it. -/
def unitValue (hi u : Nat) : Nat := if hi ≠ 0 ∧ isLowSurrogate u = true then decodeSurrogatePair hi u else u

/-- What is put for a high surrogate that the unit is not the other half of. -/
def unitLead (hi u : Nat) : List UInt8 := if hi ≠ 0 ∧ isLowSurrogate u = false then utf8ReplacementChar else []

/-- A unit that is a character is written. -/
theorem codeText_some {bs : List UInt8} (h : unescapedUtf (unitValue hi u) = some bs) (us : List Nat) :
    codeText hi (u :: us) = unitLead hi u ++ bs ++ codeText 0 us := by
  have hcode : codeText hi (u :: us) = unitLead hi u ++ match unescapedUtf (unitValue hi u) with
    | some bs => bs ++ codeText 0 us
    | none => codeText (unitValue hi u) us := rfl
  rw [hcode, h, List.append_assoc]

/-- A unit that is a high surrogate is kept. -/
theorem codeText_none (h : unescapedUtf (unitValue hi u) = none) (us : List Nat) :
    codeText hi (u :: us) = unitLead hi u ++ codeText (unitValue hi u) us := by
  have hcode : codeText hi (u :: us) = unitLead hi u ++ match unescapedUtf (unitValue hi u) with
    | some bs => bs ++ codeText 0 us
    | none => codeText (unitValue hi u) us := rfl
  rw [hcode, h]

/-- Four digits of a unit: the tokener has its value, and the loop is at the last of them. -/
theorem reads_digits (chunk : Bool) (hi : Nat) (hu : u < 65536) (hpos : t.stPos = 0) (hucs : t.ucsChar = 0) (obj : JsonObject ρ)
    (d : UInt8) (str rest : List UInt8) :
    ∃ t3 t4 c,
      unicodeLoop chunk hi ⟨t, obj, d, str⟩ (unitDigits u ++ rest) = unicodeLoop chunk hi ⟨t3, obj, c, str⟩ (c :: rest) ∧
      IsHexDigit c ∧ takeHexdigit t3 c = some t4 ∧ t4.stPos = 4 ∧ (joinSurrogates hi t4).ucsChar = unitValue hi u ∧
      t.Gathers (joinSurrogates hi t4) (unitLead hi u) ∧ (joinSurrogates hi t4).state = t.state ∧
      (joinSurrogates hi t4).savedState = t.savedState := by
  obtain ⟨d₁, d₂, d₃, d₄, hdigits, h₁, h₂, h₃, h₄, hunit⟩ := unitDigits_spec hu
  obtain ⟨t4, ht4, t3, htake, hloop⟩ := unicodeLoop_digits chunk hi obj d rest h₁ h₂ h₃ h₄ hpos hucs str
  rw [hunit] at ht4
  obtain ⟨hvalue, hgathers, hstate, hsaved⟩ := joinSurrogates_spec hi t4
  have hgathers4 : t.Gathers t4 [] := ht4 ▸ ⟨⟨rfl, rfl, rfl, rfl⟩, (List.append_nil _).symm, rfl, rfl, rfl⟩
  have hucs4 : t4.ucsChar = u := ht4 ▸ rfl
  rw [hucs4] at hvalue hgathers
  refine ⟨t3, t4, d₄, ?_, h₄, htake, ht4 ▸ rfl, hvalue, hgathers4.trans hgathers, hstate.trans (ht4 ▸ rfl),
    hsaved.trans (ht4 ▸ rfl)⟩
  rw [hdigits]
  exact hloop

/-- A unit whose value is known with its last digit. -/
theorem takes_unit {bs : List UInt8} (hbs : unescapedUtf (unitValue hi u) = some bs) (us : List Nat) (hu : u < 65536)
    (hpos : t.stPos = 0) (hucs : t.ucsChar = 0) (obj : JsonObject ρ) (d : UInt8) (str behind : List UInt8) :
    Takes (unicodeLoop chunk hi ⟨t, obj, d, str⟩ (unitDigits u ++ (us.flatMap unitEscape ++ behind))) t obj hi
      (u :: us) behind := by
  obtain ⟨t3, t4, c, hloop, hc, htake, hfour, hvalue, hgathers, hstate, hsaved⟩ :=
    reads_digits chunk hi hu hpos hucs obj d str (us.flatMap unitEscape ++ behind)
  rw [hloop, unicodeLoop, if_pos hc.1, htake]
  simp only [hfour, if_true, hvalue, hbs]
  exact ⟨_, _, us, c, rfl, hc.2, List.suffix_refl us, codeText_some hbs us,
    hgathers.trans ⟨⟨rfl, rfl, rfl, rfl⟩, rfl, rfl, rfl, rfl⟩, hsaved⟩

/-- From the digits of a unit the loop takes this one and those behind it that it needs. -/
theorem unicodeLoop_units (hi : Nat) (u : Nat) (us : List Nat) (hu : u < 65536) (hus : ∀ w ∈ us, w < 65536) (hpos : t.stPos = 0)
    (hucs : t.ucsChar = 0) (obj : JsonObject ρ) (d : UInt8) (str : List UInt8) :
    Takes (unicodeLoop chunk hi ⟨t, obj, d, str⟩ (unitDigits u ++ (us.flatMap unitEscape ++ 34 :: x :: more))) t obj hi (u :: us)
      (34 :: x :: more) := by
  induction us generalizing hi u t d with
  | nil =>
    cases hbs : unescapedUtf (unitValue hi u) with
    | some bs => exact takes_unit hbs [] hu hpos hucs obj d str (34 :: x :: more)
    | none =>
      obtain ⟨t3, t4, c, hloop, hc, htake, hfour, hvalue, hgathers, hstate, hsaved⟩ :=
        reads_digits chunk hi hu hpos hucs obj d str (List.flatMap unitEscape [] ++ 34 :: x :: more)
      have hne : unitValue hi u ≠ 0 := by
        have hle := (high_of_unescapedUtf_none hbs).2
        omega
      rw [hloop, unicodeLoop, if_pos hc.1, htake]
      simp only [hfour, if_true, hvalue, hbs]
      refine ⟨_, unitLead hi u ++ utf8ReplacementChar, [], c, rfl, hc.2, List.suffix_refl [], ?_,
        hgathers.trans ⟨⟨rfl, rfl, rfl, rfl⟩, rfl, rfl, rfl, rfl⟩, hsaved⟩
      have hend : codeText (unitValue hi u) [] = utf8ReplacementChar := by rw [codeText, if_neg hne]
      rw [codeText_none hbs, hend]
      exact (List.append_nil _).symm
  | cons w us ih =>
    rw [List.forall_mem_cons] at hus
    cases hbs : unescapedUtf (unitValue hi u) with
    | some bs => exact takes_unit hbs (w :: us) hu hpos hucs obj d str (34 :: x :: more)
    | none =>
      obtain ⟨t3, t4, c, hloop, hc, htake, hfour, hvalue, hgathers, hstate, hsaved⟩ :=
        reads_digits chunk hi hu hpos hucs obj d str ((w :: us).flatMap unitEscape ++ 34 :: x :: more)
      have htext : (w :: us).flatMap unitEscape ++ 34 :: x :: more =
          92 :: 117 :: (unitDigits w ++ (us.flatMap unitEscape ++ 34 :: x :: more)) := by
        simp [unitEscape]
      rw [hloop, htext, unicodeLoop, if_pos hc.1, htake]
      simp only [hfour, if_true, hvalue, hbs, if_neg hc.2]
      -- the next escape belongs to the surrogate
      obtain ⟨t', bs, us', c', hnext, hc', hsuffix, hcode, hgathers', hstate'⟩ :=
        ih (t := { joinSurrogates hi t4 with ucsChar := 0, stPos := 0 }) (d := jsonHexChar (UInt8.ofNat (w / 4096)))
          (unitValue hi u) w hus.1 hus.2 rfl rfl
      have hgathers0 : (joinSurrogates hi t4).Gathers { joinSurrogates hi t4 with ucsChar := 0, stPos := 0 } [] :=
        ⟨⟨rfl, rfl, rfl, rfl⟩, (List.append_nil _).symm, rfl, rfl, rfl⟩
      refine ⟨t', unitLead hi u ++ bs, us', c', hnext, hc', hsuffix.trans (List.suffix_cons w us), ?_, ?_, hstate'.trans hsaved⟩
      · rw [codeText_none hbs, hcode, List.append_assoc]
      · exact hgathers.trans (hgathers0.trans hgathers')

theorem escapes_length (us : List Nat) : (us.flatMap unitEscape).length = 6 * us.length := by
  induction us with
  | nil => rfl
  | cons u us ih =>
    rw [List.flatMap_cons, List.length_append, ih, List.length_cons, Nat.mul_succ, Nat.add_comm]
    rfl

/-- A quoted text of escapes is read up to its quote. -/
theorem reaches_units (us : List Nat) (hus : ∀ u ∈ us, u < 65536) (hst : t.state = .string) (hquote : t.quoteChar = 34)
    (obj : JsonObject ρ) (d : UInt8) : ∃ t', Reaches (tokRound ops chunk) ⟨t, obj, d, us.flatMap unitEscape ++ 34 :: x :: more⟩
      ⟨closeQuoted .string t', obj, x, x :: more⟩ ∧ t.Gathers t' (codeText 0 us) := by
  induction hn : us.length using Nat.strong_induction_on generalizing us t d with
  | _ n ih =>
    cases us with
    | nil =>
      have hclose : Reaches (tokRound ops chunk) ⟨t, obj, d, [] ++ t.quoteChar :: x :: more⟩
        ⟨closeQuoted .string (t.append []), obj, x, x :: more⟩ :=
        quoted_close (.inl rfl) hst (List.forall_mem_nil _) (by rw [hquote]; decide)
      rw [hquote] at hclose
      exact ⟨_, hclose, ⟨⟨rfl, rfl, rfl, rfl⟩, rfl, rfl, rfl, rfl⟩⟩
    | cons u us =>
      rw [List.forall_mem_cons] at hus
      have htext : (u :: us).flatMap unitEscape ++ 34 :: x :: more =
          [] ++ 92 :: 117 :: (unitDigits u ++ (us.flatMap unitEscape ++ 34 :: x :: more)) := by
        simp [unitEscape]
      generalize ht1 : ((t.append []).setSaved .string).setState .stringEscape = t1
      generalize ht2 : ({ t1.setState .escapeUnicode with ucsChar := 0, stPos := 0 } : Tokener ρ) = t2
      obtain ⟨z, zs, hz⟩ : ∃ z zs, unitDigits u ++ (us.flatMap unitEscape ++ 34 :: x :: more) = z :: zs :=
        List.exists_cons_of_ne_nil (by simp)
      have hescape : Reaches (tokRound ops chunk) ⟨t, obj, d, [] ++ 92 :: 117 :: z :: zs⟩ ⟨t1, obj, 117, 117 :: z :: zs⟩ :=
        ht1 ▸ quoted_escape (.inl rfl) hst (List.forall_mem_nil _) (by rw [hquote]; decide)
      have hletter : dispatch ops chunk ⟨t1, obj, 117, 117 :: z :: zs⟩ = .next ⟨t2, obj, 117, 117 :: z :: zs⟩ := by
        rw [← ht2, ← ht1]
        rfl
      obtain ⟨t', bs, us', c, hloop, hc, hsuffix, hcode, hgathers, hstate⟩ : Takes (unicodeLoop chunk 0 ⟨t2, obj, z, z :: zs⟩
          (unitDigits u ++ (us.flatMap unitEscape ++ 34 :: x :: more))) t2 obj 0 (u :: us) (34 :: x :: more) :=
        unicodeLoop_units 0 u us hus.1 hus.2 (ht2 ▸ rfl) (ht2 ▸ rfl) obj z (z :: zs)
      obtain ⟨y, ys, hy⟩ : ∃ y ys, us'.flatMap unitEscape ++ 34 :: x :: more = y :: ys := List.exists_cons_of_ne_nil (by simp)
      have hunits : dispatch ops chunk ⟨t2, obj, z, z :: zs⟩ = .next ⟨t', obj, c, c :: y :: ys⟩ := by
        rw [hz, hy] at hloop
        rw [← hloop, ← ht2]
        rfl
      have hgathers2 : t.Gathers t2 [] := by
        rw [← ht2, ← ht1]
        exact ⟨⟨rfl, rfl, rfl, rfl⟩, by simp [Tokener.setState, Tokener.setSaved, Tokener.append], rfl, rfl, rfl⟩
      have hstate' : t'.state = .string := hstate.trans (by rw [← ht2, ← ht1]; rfl)
      have hle := hsuffix.length_le
      rw [List.tail_cons] at hle
      rw [List.length_cons] at hn
      obtain ⟨t'', hrest, hgathers'⟩ := ih us'.length (by omega) us'
        (fun w hw => hus.2 w (hsuffix.subset hw)) hstate' (hgathers.quoteChar.trans (hgathers2.quoteChar.trans hquote)) y rfl
      refine ⟨t'', ?_, ?_⟩
      · rw [htext, hz]
        rw [hy] at hrest
        exact hescape.trans (Reaches.head (tokRound_of_next hletter (show (117 : UInt8) ≠ 0 by decide) rfl)
          (Reaches.head (tokRound_of_next hunits hc rfl) hrest))
      · rw [hcode]
        exact hgathers2.trans (hgathers.trans hgathers')

end JsonEscapesAux

open JsonEscapesAux in
/-- Any units in quotes are read, and as UTF-16 exactly if no pair stands for a character that is taken for a surrogate. -/
theorem escapes_read_as_utf16 {ρ : Type} (ops : DoubleOps ρ) (us : List Nat) (hus : ∀ u ∈ us, u < 65536)
    (hlen : 6 * us.length + 2 ≤ intMax) :
      ∃ n s, (∀ rounds ≥ n, jsonTokenerParseVerbose ops rounds (34 :: (us.flatMap unitEscape ++ [34])) =
      some (some (.string s, .success))) ∧ (s = utf8 us ↔ ∀ c ∈ chars us, Distinct c) := by
  have hcompares := compares us hus
  have htext : (34 :: (us.flatMap unitEscape ++ [34])).length ≤ intMax := by
    simp only [List.length_cons, List.length_append, escapes_length, List.length_nil]
    omega
  have hyields (d : UInt8) : Yields ops false
      ⟨jsonTokenerNewEx jsonTokenerDefaultDepth false, .null, d, 34 :: (us.flatMap unitEscape ++ [34]) ++ [0]⟩
      (.string (codeText 0 us)) 0 [] := by
    have hquoted : Yields ops false ⟨jsonTokenerNewEx jsonTokenerDefaultDepth false, .null, d,
        34 :: (us.flatMap unitEscape ++ 34 :: 0 :: [])⟩ (.string (codeText 0 us)) 0 [] := yields_quoted rfl fun t1 y hst hquote =>
        reaches_units us hus hst hquote .null y
    simpa using hquoted
  obtain ⟨n, r, hparse, hret, herr, -⟩ := parse_of_yields jsonTokenerDefaultDepth false htext hyields
  refine ⟨n, codeText 0 us, fun rounds hrounds => ?_, fun heq => ?_, hcompares.eq⟩
  · rw [jsonTokenerParseVerbose, hparse rounds hrounds]
    simp [herr, hret]
  · by_contra hnot
    have hlt := hcompares.lt hnot
    rw [heq] at hlt
    exact absurd hlt (Nat.lt_irrefl _)

theorem escapes_read_as_utf16_clef :
    ∃ n s, (∀ rounds ≥ n, jsonTokenerParseVerbose smallOps rounds
      (34 :: ([0xE9, 0xD834, 0xDD1E, 0xD800, 0x20AC].flatMap unitEscape ++ [34])) =
        some (some (.string s, .success))) ∧
      (s = utf8 [0xE9, 0xD834, 0xDD1E, 0xD800, 0x20AC] ↔ ∀ c ∈ chars [0xE9, 0xD834, 0xDD1E, 0xD800, 0x20AC], Distinct c) :=
  escapes_read_as_utf16 smallOps [0xE9, 0xD834, 0xDD1E, 0xD800, 0x20AC] (by simp) (by decide)

/-- The pair of U+1D800 is taken for the first half of another pair. -/
example : (jsonTokenerParseVerbose smallOps 10 (34 :: ([0xD836, 0xDC00].flatMap unitEscape ++ [34]))).join.map Prod.snd =
    some .success ∧ ¬ Distinct (Char.ofNat 0x1D800) := by
  refine ⟨by decide +kernel, ?_⟩
  unfold Distinct
  decide

end Pixel845.Json
