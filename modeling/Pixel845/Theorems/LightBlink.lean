import Pixel845.Theorems.LightBrightness

/-!
# How the white LED blinks

A state that blinks is programmed as a ramp of nine duty percentages, the time of one step of it and the time between the ramp up
and the ramp down. A light that is on for less than the 800 ms of both ramps gets shorter steps. The time is taken from the
request as it is: a negative one makes the steps negative, or wraps (`blink_timing_iff`).
-/

namespace Pixel845.Light

/-- What is asked of the programme of a light that is on for `on` ms: the times are not negative, the nine percentages rise from 0
to 100 at most, and what is on in the end, the pause and the sixteen steps, is the time asked for. -/
structure Timing (on hi step : Int) (pcts : List Nat) : Prop where
  hi_nonneg : 0 ≤ hi
  step_nonneg : 0 ≤ step
  length : pcts.length = 9
  first : pcts.head? = some 0
  rising : pcts.Pairwise (· ≤ ·)
  le_hundred : ∀ p ∈ pcts, p ≤ 100
  long : 800 ≤ on → hi + 16 * step = on
  short : 0 ≤ on → on < 800 → on - 16 < hi + 16 * step ∧ hi + 16 * step ≤ on

/-- The nodes hold such a programme of the state, and no number on the way to it is out of the range of an `int32_t`. -/
def Service.BlinksWell (s : Service) (state : LightState) : Prop :=
  -2147483648 ≤ state.flashOnMs.toInt - 800 ∧ 8 * 100 * (getBrightness state).toNat < 2147483648 ∧
    ∃ hi step pcts, Timing state.flashOnMs.toInt hi step pcts ∧ s.node .pauseHi = decimalInt hi ∧
      s.node .rampStepMs = decimalInt step ∧ s.node .dutyPcts = List.intercalate [44] (pcts.map decimal)

namespace BlinkAux

variable {s : Service} {state : LightState} {a b : Int32}

/-! ### Arithmetic in range -/

/-- A product within `int` does not wrap. -/
theorem toInt_mul_of_bounds (h1 : -2147483648 ≤ a.toInt * b.toInt) (h2 : a.toInt * b.toInt < 2147483648) :
    (a * b).toInt = a.toInt * b.toInt := by
  rw [Int32.toInt_mul]
  exact Int.bmod_eq_of_le h1 h2

/-- A difference within `int` does not wrap. -/
theorem toInt_sub_of_bounds (h1 : -2147483648 ≤ a.toInt - b.toInt) (h2 : a.toInt - b.toInt < 2147483648) :
    (a - b).toInt = a.toInt - b.toInt := by
  rw [Int32.toInt_sub]
  exact Int.bmod_eq_of_le h1 h2

/-- A brightness is at most 255. -/
theorem brightness_le (state : LightState) : (getBrightness state).toNat ≤ 255 := by
  have hdim : ∀ start, part state.color start * part state.color 24 / 255 < 256 := fun start =>
    BrightnessAux.dim_lt (BrightnessAux.part_lt _ _) (BrightnessAux.part_lt _ _)
  have h := BrightnessAux.luma_lt (hdim 16) (hdim 8) (hdim 0)
  rw [BrightnessAux.getBrightness_toNat, dimmedLuma]
  omega

/-! ### The duty percentages -/

/-- The percentages of a brightness, in numbers that do not wrap. -/
def duty (brightness : Nat) : List Nat := (List.range 9).map fun i => i * 100 * brightness / 2040

/-- One step of the ramp. -/
theorem duty_step {i brightness : Nat} (hi : i < 9) (hb : brightness ≤ 255) :
    (Int32.ofNat i * 100 * Int32.ofNat brightness / (kDefaultMaxBrightness * kRampSteps)).toInt =
      ((i * 100 * brightness / 2040 : Nat) : Int) := by
  have hle : i * 100 * brightness ≤ 800 * 255 := Nat.mul_le_mul (by omega) hb
  have hint : ((i * 100 * brightness : Nat) : Int) = (i : Int) * 100 * brightness := by
    rw [Int.natCast_mul, Int.natCast_mul]
    rfl
  have h100 : (100 : Int32).toInt = 100 := by decide
  have hden : (kDefaultMaxBrightness * kRampSteps).toInt = 2040 := by decide
  have hi' : (Int32.ofNat i).toInt = i := Int32.toInt_ofNat_of_lt (by omega)
  have hb' : (Int32.ofNat brightness).toInt = brightness := Int32.toInt_ofNat_of_lt (by omega)
  have hpart : (Int32.ofNat i * 100).toInt = (i : Int) * 100 := by
    rw [toInt_mul_of_bounds, hi', h100]
    · rw [hi', h100]
      omega
    · rw [hi', h100]
      omega
  have hprod : (Int32.ofNat i * 100 * Int32.ofNat brightness).toInt = ((i * 100 * brightness : Nat) : Int) := by
    rw [toInt_mul_of_bounds, hpart, hb', hint]
    · rw [hpart, hb', ← hint]
      omega
    · rw [hpart, hb', ← hint]
      omega
  rw [Int32.toInt_div_of_ne_right _ _ (by decide), hprod, hden]
  rfl

theorem decimalInt_natCast (n : Nat) : decimalInt (n : Int) = decimal n := by
  rw [decimalInt, if_neg (by omega), Int.natAbs_natCast]

/-- The text of the ramp is that of its steps. -/
theorem getScaledDutyPercent_eq (state : LightState) :
    getScaledDutyPercent (getBrightness state).toInt32 =
      List.intercalate [44] ((duty (getBrightness state).toNat).map decimal) := by
  have hb : (getBrightness state).toInt32 = Int32.ofNat (getBrightness state).toNat := by
    rw [← UInt32.toInt32_ofNat', UInt32.ofNat_toNat]
  unfold getScaledDutyPercent duty
  rw [hb, List.map_map]
  congr 1
  refine List.map_congr_left fun i hi => ?_
  rw [duty_step (List.mem_range.mp hi) (brightness_le state), decimalInt_natCast]
  rfl

/-- The steps of the ramp rise. -/
theorem duty_rising (brightness : Nat) : (duty brightness).Pairwise (· ≤ ·) := by
  rw [duty, List.pairwise_map]
  refine List.Pairwise.imp ?_ List.pairwise_lt_range
  intro i j hij
  exact Nat.div_le_div_right (Nat.mul_le_mul_right _ (by omega))

/-- No step of the ramp is above 100 percent. -/
theorem duty_le {brightness : Nat} (hb : brightness ≤ 255) : ∀ p ∈ duty brightness, p ≤ 100 := by
  intro p hp
  obtain ⟨i, hi, rfl⟩ := List.mem_map.mp hp
  have hi' := List.mem_range.mp hi
  have hle : i * 100 * brightness ≤ 800 * 255 := Nat.mul_le_mul (by omega) hb
  omega

/-- The percentages are as they should be, so that only the times are left. -/
theorem timing_duty {brightness : Nat} {on hi step : Int} (hb : brightness ≤ 255) (hhi : 0 ≤ hi) (hstep : 0 ≤ step)
    (hlong : 800 ≤ on → hi + 16 * step = on)
    (hshort : 0 ≤ on → on < 800 → on - 16 < hi + 16 * step ∧ hi + 16 * step ≤ on) : Timing on hi step (duty brightness) where
  hi_nonneg := hhi
  step_nonneg := hstep
  length := by rw [duty, List.length_map, List.length_range]
  first := by simp [duty, List.head?_range]
  rising := duty_rising brightness
  le_hundred := duty_le hb
  long := hlong
  short := hshort

/-! ### The times -/

/-- The time between the ramps before it is cut off at zero. -/
theorem pauseHi_toInt (h : -2147483648 ≤ state.flashOnMs.toInt - 800) :
    (state.flashOnMs - 800).toInt = state.flashOnMs.toInt - 800 := by
  have h800 : (800 : Int32).toInt = 800 := by decide
  have hlt := Int32.toInt_lt state.flashOnMs
  rw [toInt_sub_of_bounds, h800]
  · rwa [h800]
  · rw [h800]
    omega

/-- The nodes of the ramp, in the numbers of the code. -/
theorem program_nodes (h : state.flashMode = .timed) :
    (s.program state).node .pauseHi = decimalInt (if state.flashOnMs - 800 < 0 then 0 else state.flashOnMs - 800).toInt ∧
      (s.program state).node .rampStepMs = decimalInt (if state.flashOnMs - 800 < 0 then state.flashOnMs / 16 else 50).toInt ∧
      (s.program state).node .dutyPcts = getScaledDutyPercent (getBrightness state).toInt32 := by
  have hramp : kRampMaxStepDurationMs * kRampSteps * 2 = 800 := by decide
  have hstep : kRampSteps * 2 = 16 := by decide
  unfold Service.program
  simp only [h, if_true, hramp, hstep]
  split <;> simp [Service.set, kRampMaxStepDurationMs]

/-- The time of a step is a sixteenth, rounded toward zero. -/
theorem step_toInt (on : Int32) : (on / 16).toInt = on.toInt.tdiv 16 := by
  rw [Int32.toInt_div_of_ne_right _ _ (by decide)]
  rfl

/-- The programme of a state is well timed unless the time it is on for is 16 ms below zero or more. -/
theorem program_blinksWell (h : state.flashMode = .timed) : (s.program state).BlinksWell state ↔ -16 < state.flashOnMs.toInt := by
  obtain ⟨hhi, hstep, hduty⟩ := program_nodes (s := s) h
  have hb := brightness_le state
  constructor
  · rintro ⟨hrange, -, hi, step, pcts, htime, -, hstep', -⟩
    by_contra hneg
    -- the pause is negative, so that the step is a sixteenth of the time
    have hlt : state.flashOnMs - 800 < 0 := by
      rw [Int32.lt_iff_toInt_lt, pauseHi_toInt hrange, Int32.toInt_zero]
      omega
    rw [hstep, if_pos hlt, step_toInt] at hstep'
    have hstepEq := decimalInt_injective hstep'
    have hnonneg := htime.step_nonneg
    rw [← hstepEq, show state.flashOnMs.toInt = -(-state.flashOnMs.toInt) by omega, Int.neg_tdiv,
      Int.tdiv_eq_ediv_of_nonneg (by omega)] at hnonneg
    omega
  · intro hon
    have hrange : -2147483648 ≤ state.flashOnMs.toInt - 800 := by omega
    have hpause := pauseHi_toInt hrange
    have hzero : state.flashOnMs - 800 < 0 ↔ state.flashOnMs.toInt < 800 := by
      rw [Int32.lt_iff_toInt_lt, hpause, Int32.toInt_zero]
      omega
    refine ⟨hrange, by omega, _, _, duty (getBrightness state).toNat, ?_, hhi, hstep, by rw [hduty, getScaledDutyPercent_eq]⟩
    by_cases hlong : state.flashOnMs.toInt < 800
    · rw [if_pos (hzero.mpr hlong), if_pos (hzero.mpr hlong), step_toInt, Int32.toInt_zero]
      by_cases hnonneg : 0 ≤ state.flashOnMs.toInt
      · rw [Int.tdiv_eq_ediv_of_nonneg hnonneg]
        exact timing_duty hb (by omega) (by omega) (by omega) (by omega)
      · have hdiv : state.flashOnMs.toInt.tdiv 16 = 0 := by
          rw [show state.flashOnMs.toInt = -(-state.flashOnMs.toInt)
            by omega, Int.neg_tdiv, Int.tdiv_eq_ediv_of_nonneg (by omega)]
          omega
        rw [hdiv]
        exact timing_duty hb (by omega) (by omega) (by omega) (by omega)
    · rw [if_neg (mt hzero.mp hlong), if_neg (mt hzero.mp hlong), hpause, show (50 : Int32).toInt = 50 by decide]
      exact timing_duty hb (by omega) (by omega) (by omega) (by omega)

end BlinkAux

open BlinkAux in
/-- When the state that the LED is programmed for blinks, the programme is well timed exactly if the time that the light is on for
is more than -16 ms. -/
theorem blink_timing_iff (s : Service) (state : LightState) (i : Fin 3)
    (h : (stateToUse (handleWhiteLed s state i).mLightStates).flashMode = .timed) :
    (handleWhiteLed s state i).BlinksWell (stateToUse (handleWhiteLed s state i).mLightStates) ↔
      -16 < (stateToUse (handleWhiteLed s state i).mLightStates).flashOnMs.toInt := by
  rw [PriorityAux.handleWhiteLed_states] at h ⊢
  exact program_blinksWell h

/-- A service that has no states yet. -/
def unlit : Service where
  mLightStates := fun _ => ⟨0, .none, 0, 0⟩
  node := fun _ => []
  maxBrightness := none

/-- The rule for a second. -/
theorem blink_timing_iff_second :
    (stateToUse (handleWhiteLed unlit ⟨0xffffffff, .timed, 1000, 500⟩ 0).mLightStates).flashMode = .timed ∧
      ((handleWhiteLed unlit ⟨0xffffffff, .timed, 1000, 500⟩ 0).BlinksWell
          (stateToUse (handleWhiteLed unlit ⟨0xffffffff, .timed, 1000, 500⟩ 0).mLightStates) ↔
        -16 < (stateToUse (handleWhiteLed unlit ⟨0xffffffff, .timed, 1000, 500⟩ 0).mLightStates).flashOnMs.toInt) :=
  ⟨by decide, blink_timing_iff unlit ⟨0xffffffff, .timed, 1000, 500⟩ 0 (by decide)⟩

/-- A light that is to be on for -16 ms gets steps of -1 ms. -/
theorem blink_step_negative :
    ¬ ∀ (s : Service) (state : LightState) (i : Fin 3),
      (stateToUse (handleWhiteLed s state i).mLightStates).flashMode = .timed →
        (handleWhiteLed s state i).BlinksWell (stateToUse (handleWhiteLed s state i).mLightStates) := by
  intro h
  have hstep := h unlit ⟨0xffffffff, .timed, -16, 500⟩ 0 (by decide)
  rw [PriorityAux.handleWhiteLed_states] at hstep
  exact absurd ((BlinkAux.program_blinksWell (by decide)).mp hstep) (by decide)

end Pixel845.Light
