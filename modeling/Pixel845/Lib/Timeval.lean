import Mathlib.Order.Defs.LinearOrder
import Mathlib.Tactic.Ring

/-!
# Times in seconds and microseconds

A time is a pair of 64-bit integers. The difference of two borrows a second if the microseconds do not suffice, so that it stays
normal in its microseconds and exact as long as the seconds fit.
-/

namespace Pixel845

/-- `struct timeval` -/
structure Timeval where
  sec : Int64
  usec : Int64
deriving DecidableEq

namespace Timeval

/-- The time in microseconds. -/
def usecs (t : Timeval) : Int := t.sec.toInt * 1000000 + t.usec.toInt

/-- The microseconds are less than a second. -/
structure Reduced (t : Timeval) : Prop where
  usec_nonneg : 0 ≤ t.usec.toInt
  usec_lt : t.usec.toInt < 1000000

/-- A time that is not negative, in its normal form. -/
structure Normal (t : Timeval) : Prop extends t.Reduced where
  sec_nonneg : 0 ≤ t.sec.toInt

instance (t : Timeval) : Decidable t.Normal :=
  decidable_of_iff (0 ≤ t.usec.toInt ∧ t.usec.toInt < 1000000 ∧ 0 ≤ t.sec.toInt)
    ⟨fun h => ⟨⟨h.1, h.2.1⟩, h.2.2⟩, fun h => ⟨h.usec_nonneg, h.usec_lt, h.sec_nonneg⟩⟩

/-- `timersub` -/
def sub (a b : Timeval) : Timeval :=
  let sec := a.sec - b.sec
  let usec := a.usec - b.usec
  if usec < 0 then ⟨sec - 1, usec + 1000000⟩ else ⟨sec, usec⟩

variable {a b : Timeval}

/-- In normal form, a time is negative exactly if its seconds are. -/
theorem Reduced.normal_iff (h : a.Reduced) : a.Normal ↔ 0 ≤ a.usecs := by
  have h0 := h.usec_nonneg
  have h1 := h.usec_lt
  unfold usecs
  constructor
  · intro hn
    have hs := hn.sec_nonneg
    omega
  · intro hle
    exact ⟨h, by omega⟩

/-- A time in normal form is not negative. -/
theorem Normal.usecs_nonneg (h : a.Normal) : 0 ≤ a.usecs := h.toReduced.normal_iff.mp h

/-- The difference of two reduced times is exact and reduced, if that of the seconds fits. -/
theorem sub_spec (ha : a.Reduced) (hb : b.Reduced) (hlo : -2 ^ 63 < a.sec.toInt - b.sec.toInt)
    (hhi : a.sec.toInt - b.sec.toInt < 2 ^ 63) : (sub a b).usecs = a.usecs - b.usecs ∧ (sub a b).Reduced := by
  have ha0 := ha.usec_nonneg
  have ha1 := ha.usec_lt
  have hb0 := hb.usec_nonneg
  have hb1 := hb.usec_lt
  have hsec : (a.sec - b.sec).toInt = a.sec.toInt - b.sec.toInt := by
    rw [Int64.toInt_sub]
    exact Int.bmod_eq_of_le (by omega) (by omega)
  have husec : (a.usec - b.usec).toInt = a.usec.toInt - b.usec.toInt := by
    rw [Int64.toInt_sub]
    exact Int.bmod_eq_of_le (by omega) (by omega)
  have hneg : a.usec - b.usec < 0 ↔ a.usec.toInt - b.usec.toInt < 0 := by
    rw [Int64.lt_iff_toInt_lt, husec]
    rfl
  unfold sub
  by_cases h : a.usec - b.usec < 0
  · have hlt := hneg.mp h
    have hborrow : (a.sec - b.sec - 1).toInt = a.sec.toInt - b.sec.toInt - 1 := by
      rw [Int64.toInt_sub, hsec]
      exact Int.bmod_eq_of_le (by simp; omega) (by simp; omega)
    have hcarry : (a.usec - b.usec + 1000000).toInt = a.usec.toInt - b.usec.toInt + 1000000 := by
      rw [Int64.toInt_add, husec]
      exact Int.bmod_eq_of_le (by simp; omega) (by simp; omega)
    simp only [h, if_true]
    refine ⟨?_, ⟨?_, ?_⟩⟩
    · simp only [usecs, hborrow, hcarry]
      ring
    · simp only [hcarry]
      omega
    · simp only [hcarry]
      omega
  · have hle := mt hneg.mpr h
    simp only [h, if_false]
    refine ⟨?_, ⟨?_, ?_⟩⟩
    · simp only [usecs, hsec, husec]
      ring
    · simp only [husec]
      omega
    · simp only [husec]
      omega

/-- The difference of two times that are not negative. -/
theorem sub_normal (ha : a.Normal) (hb : b.Normal) : (sub a b).usecs = a.usecs - b.usecs ∧ (sub a b).Reduced := by
  have ha0 := ha.sec_nonneg
  have hb0 := hb.sec_nonneg
  have ha1 := Int64.toInt_lt a.sec
  have hb1 := Int64.toInt_lt b.sec
  exact sub_spec ha.toReduced hb.toReduced (by omega) (by omega)

end Timeval

end Pixel845
