import Pixel845.Theorems.LightPriority
import Mathlib.Tactic.Ring

/-!
# How bright the lights are

The white LED is programmed for the first state that has a color, and a color need not give any light: a dim one is rounded down
to nothing (`led_shows_first_colored`). The backlight is scaled from what full white is sent as to the largest brightness of the
panel, with a product of 32 bits that holds up to a maximum of 16843009 (`backlight_scales_iff`).
-/

namespace Pixel845.Light

/-- A part of a color, from the bit where it starts. -/
def part (color : UInt32) (start : Nat) : Nat := color.toNat / 2 ^ start % 256

/-- The weighted sum of the three parts of a color. -/
def luma (red green blue : Nat) : Nat := 77 * red + 150 * green + 29 * blue

/-- The weighted sum of a color that is dimmed by its alpha part. -/
def dimmedLuma (color : UInt32) : Nat :=
  luma (part color 16 * part color 24 / 255) (part color 8 * part color 24 / 255) (part color 0 * part color 24 / 255)

/-- The largest brightness of the backlight: the number that can be read unless it is negative, else the default. -/
def Service.backlightMax (s : Service) : Nat :=
  match s.maxBrightness with
  | some m => if m < 0 then 255 else m.toNatClampNeg
  | none => 255

/-- The number that a request leaves in the brightness node of the backlight. -/
def written (s : Service) (state : LightState) : Nat := digitsVal ((handleBacklight s state).node .backlightBrightness)

/-- The scaling of the backlight is in range: the product does not wrap, no request is brighter than the maximum, full white is as
bright as the maximum, and a color with no part smaller is no darker. -/
structure Service.ScalesWell (s : Service) : Prop where
  noWrap : ∀ state, (rgbToBrightness state).toNat * s.backlightMax < 2 ^ 32
  le_max : ∀ state, written s state ≤ s.backlightMax
  white : ∀ state, state.color &&& 0xffffff = 0xffffff → written s state = s.backlightMax
  mono : ∀ state state', part state.color 16 ≤ part state'.color 16 → part state.color 8 ≤ part state'.color 8 →
    part state.color 0 ≤ part state'.color 0 → written s state ≤ written s state'

namespace BrightnessAux

variable {s : Service} {state : LightState} {color : UInt32} {red green blue : Nat}

/-! ### Colors as numbers -/

/-- A part of a colour is a byte. -/
theorem part_lt (color : UInt32) (start : Nat) : part color start < 256 := Nat.mod_lt _ (by omega)

/-- The lowest byte. -/
theorem and_toNat (c : UInt32) : (c &&& 0xff).toNat = c.toNat % 256 := by
  rw [UInt32.toNat_and]
  exact Nat.and_two_pow_sub_one_eq_mod _ 8

/-- The parts of a colour. -/
theorem rgb_toNat (color : UInt32) :
    (rgb color).1.toNat = part color 16 ∧ (rgb color).2.1.toNat = part color 8 ∧ (rgb color).2.2.toNat = part color 0 := by
  unfold rgb part
  simp only [and_toNat, UInt32.toNat_shiftRight]
  refine ⟨?_, ?_, ?_⟩
  · exact congrArg (· % 256) (Nat.shiftRight_eq_div_pow _ 16)
  · exact congrArg (· % 256) (Nat.shiftRight_eq_div_pow _ 8)
  · rw [Nat.pow_zero, Nat.div_one]

/-- The highest part of a colour. -/
theorem alpha_toNat (color : UInt32) : ((color >>> 24) &&& 0xff).toNat = part color 24 := by
  rw [and_toNat, UInt32.toNat_shiftRight]
  exact congrArg (· % 256) (Nat.shiftRight_eq_div_pow _ 24)

/-- A weighted sum of bytes is at most 255 times its weights. -/
theorem luma_lt (hr : red < 256) (hg : green < 256) (hb : blue < 256) : luma red green blue ≤ 65280 := by
  unfold luma
  omega

/-- The weighted sum of parts that are below 256 does not wrap. -/
theorem luma_toNat {r g b : UInt32} (hr : r.toNat < 256) (hg : g.toNat < 256) (hb : b.toNat < 256) :
    ((77 * r + 150 * g + 29 * b) >>> 8).toNat = luma r.toNat g.toNat b.toNat / 256 := by
  have h := luma_lt hr hg hb
  unfold luma at h ⊢
  rw [UInt32.toNat_shiftRight]
  refine (Nat.shiftRight_eq_div_pow _ 8).trans (congrArg (· / 256) ?_)
  simp only [UInt32.toNat_add, UInt32.toNat_mul, UInt32.reduceToNat]
  omega

/-- Dimming by an alpha part of 255 changes nothing, which is what the test for it leaves out. -/
theorem dim_toNat {c a : UInt32} (hc : c.toNat < 256) (ha : a.toNat < 256) : (c * a / 0xff).toNat = c.toNat * a.toNat / 255 := by
  have hle : c.toNat * a.toNat ≤ 255 * 255 := Nat.mul_le_mul (by omega) (by omega)
  rw [UInt32.toNat_div, UInt32.toNat_mul, Nat.mod_eq_of_lt (by omega)]
  rfl

/-- A byte that is dimmed is a byte. -/
theorem dim_lt {c a : Nat} (hc : c < 256) (ha : a < 256) : c * a / 255 < 256 := by
  have hle : c * a ≤ 255 * 255 := Nat.mul_le_mul (by omega) (by omega)
  omega

/-- The bits of a color, without its alpha part. -/
theorem colorBits_toNat (color : UInt32) : (color &&& 0x00ffffff).toNat = color.toNat % 2 ^ 24 := by
  rw [UInt32.toNat_and]
  exact Nat.and_two_pow_sub_one_eq_mod _ 24

/-- The brightness of a colour. -/
theorem rgbToBrightness_toNat (state : LightState) :
    (rgbToBrightness state).toNat = luma (part state.color 16) (part state.color 8) (part state.color 0) / 256 := by
  have hpart : ∀ start, start ≤ 16 → part (state.color &&& 0x00ffffff) start = part state.color start := by
    intro start hstart
    unfold part
    have hsplit : (2 : Nat) ^ 24 = 2 ^ start * 2 ^ (24 - start) := by rw [← Nat.pow_add, Nat.add_sub_cancel' (by omega)]
    rw [colorBits_toNat, hsplit, Nat.mod_mul_right_div_self]
    exact Nat.mod_mod_of_dvd _ (Nat.pow_dvd_pow 2 (show 8 ≤ 24 - start by omega))
  obtain ⟨hr, hg, hb⟩ := rgb_toNat (state.color &&& 0x00ffffff)
  unfold rgbToBrightness
  rw [luma_toNat (by rw [hr]; exact part_lt _ _) (by rw [hg]; exact part_lt _ _) (by rw [hb]; exact part_lt _ _), hr, hg, hb,
    hpart _ (by omega), hpart _ (by omega), hpart _ (by omega)]

/-- The brightness of a colour that is dimmed by its alpha. -/
theorem getBrightness_toNat (state : LightState) : (getBrightness state).toNat = dimmedLuma state.color / 256 := by
  obtain ⟨hr, hg, hb⟩ := rgb_toNat state.color
  have ha := alpha_toNat state.color
  have hr' : (rgb state.color).1.toNat < 256 := hr ▸ part_lt _ _
  have hg' : (rgb state.color).2.1.toNat < 256 := hg ▸ part_lt _ _
  have hb' : (rgb state.color).2.2.toNat < 256 := hb ▸ part_lt _ _
  have ha' : ((state.color >>> 24) &&& 0xff).toNat < 256 := ha ▸ part_lt _ _
  generalize hc : rgb state.color = c at *
  obtain ⟨r, g, b⟩ := c
  unfold getBrightness dimmedLuma
  rw [hc]
  by_cases h : (state.color >>> 24) &&& 0xff = 0xff
  · have h255 : part state.color 24 = 255 := by
      rw [← ha, h]
      rfl
    simp only [h, ne_eq, not_true_eq_false, if_false, h255, Nat.mul_div_cancel _ (show 0 < 255 by omega)]
    rw [luma_toNat hr' hg' hb', hr, hg, hb]
  · simp only [ne_eq, h, not_false_eq_true, if_true]
    rw [luma_toNat, dim_toNat hr' ha', dim_toNat hg' ha', dim_toNat hb' ha', hr, hg, hb, ha]
    · rw [dim_toNat hr' ha']
      exact dim_lt hr' ha'
    · rw [dim_toNat hg' ha']
      exact dim_lt hg' ha'
    · rw [dim_toNat hb' ha']
      exact dim_lt hb' ha'

/-! ### The white LED -/

/-- A colour is lit if a part of it is. -/
theorem lit_iff (state : LightState) :
    state.lit = true ↔ part state.color 16 ≠ 0 ∨ part state.color 8 ≠ 0 ∨ part state.color 0 ≠ 0 := by
  have hzero : state.lit = true ↔ state.color.toNat % 2 ^ 24 ≠ 0 := by
    rw [← colorBits_toNat, LightState.lit, bne_iff_ne, ne_eq, ne_eq, ← UInt32.toNat_inj]
    rfl
  rw [hzero]
  unfold part
  omega

/-- What gives light has a color. -/
theorem lit_of_brightness (h : getBrightness state ≠ 0) : state.lit = true := by
  by_contra hdark
  have hparts : part state.color 16 = 0 ∧ part state.color 8 = 0 ∧ part state.color 0 = 0 := by
    rw [lit_iff] at hdark
    omega
  have hnat := getBrightness_toNat state
  rw [dimmedLuma, hparts.1, hparts.2.1, hparts.2.2] at hnat
  exact h (UInt32.toNat_inj.mp (by simpa [luma] using hnat))

/-- When the brightness is zero. -/
theorem brightness_eq_zero (state : LightState) : getBrightness state = 0 ↔ dimmedLuma state.color < 256 := by
  rw [← UInt32.toNat_inj, getBrightness_toNat, UInt32.toNat_zero, Nat.div_eq_zero_iff]
  omega

/-- If one of three states has a color, the state to show is the first such. -/
theorem shown_first (states : Fin 3 → LightState) {j : Fin 3} (h : (states j).lit = true) :
    ∃ k ≤ j, (states k).lit = true ∧ (∀ m < k, (states m).lit = false) ∧ shown states = states k := by
  unfold shown
  cases h0 : (states 0).lit with
  | true => exact ⟨0, Fin.zero_le _, h0, fun m hm => absurd hm (Fin.not_lt_zero m), if_pos h0⟩
  | false =>
    have hne : j ≠ 0 := by
      rintro rfl
      simp [h0] at h
    cases h1 : (states 1).lit with
    | true =>
      refine ⟨1, by omega, h1, ?_, ?_⟩
      · intro m hm
        rwa [show m = 0 by omega]
      · rw [if_neg (by simpa using h0)]
        exact if_pos h1
    | false =>
      have hj : j = 2 := by
        have hne1 : j ≠ 1 := by
          rintro rfl
          simp [h1] at h
        omega
      subst hj
      refine ⟨2, Nat.le_refl _, h, ?_, ?_⟩
      · intro m hm
        rcases (show m = 0 ∨ m = 1 by omega) with rfl | rfl
        · exact h0
        · exact h1
      · rw [if_neg (by simpa using h0), if_neg (by simpa using h1)]
        exact if_pos h

/-! ### The backlight -/

/-- The maximum, if it was read. -/
theorem maxBrightness_toNat (s : Service) :
    (if s.maxBrightness.getD (-1) < 0 then kDefaultMaxBrightness else s.maxBrightness.getD (-1)).toUInt32.toNat =
      s.backlightMax := by
  unfold Service.backlightMax
  cases s.maxBrightness with
  | none => rfl
  | some m =>
    by_cases hm : m < 0
    · simp only [Option.getD_some, hm, if_true]
      rfl
    · simp only [Option.getD_some, hm, if_false]
      exact Int32.toNat_toUInt32_of_le (Int32.not_lt.mp hm)

/-- What is written for a colour. -/
theorem written_eq (s : Service) (state : LightState) :
    written s state = (rgbToBrightness state).toNat * s.backlightMax % 2 ^ 32 / 255 := by
  unfold written handleBacklight
  simp only [Service.set, Function.update_self, digitsVal_decimal, UInt32.toNat_div, UInt32.toNat_mul, maxBrightness_toNat]
  rfl

/-- The brightness is at most 255. -/
theorem sent_le (state : LightState) : (rgbToBrightness state).toNat ≤ 255 := by
  have h := luma_lt (part_lt state.color 16) (part_lt state.color 8) (part_lt state.color 0)
  rw [rgbToBrightness_toNat]
  omega

/-- White has the brightness 255. -/
theorem sent_white (h : state.color &&& 0xffffff = 0xffffff) : (rgbToBrightness state).toNat = 255 := by
  unfold rgbToBrightness
  rw [h]
  rfl

/-- Up to the bound the product of what can be sent and the maximum does not wrap. -/
theorem product_lt (h : s.backlightMax ≤ 16843009) (state : LightState) :
    (rgbToBrightness state).toNat * s.backlightMax < 2 ^ 32 := by
  have hle := Nat.mul_le_mul (sent_le state) h
  omega

/-- Within the bound nothing wraps. -/
theorem written_of_le (h : s.backlightMax ≤ 16843009) (state : LightState) :
    written s state = (rgbToBrightness state).toNat * s.backlightMax / 255 := by
  rw [written_eq, Nat.mod_eq_of_lt (product_lt h state)]

/-- Within the bound the backlight scales. -/
theorem scalesWell_of_le (h : s.backlightMax ≤ 16843009) : s.ScalesWell where
  noWrap := product_lt h
  le_max state := by
    rw [written_of_le h]
    exact Nat.div_le_of_le_mul (Nat.mul_le_mul_right _ (sent_le state))
  white state hwhite := by
    rw [written_of_le h, sent_white hwhite]
    exact Nat.mul_div_cancel_left _ (by omega)
  mono state state' hr hg hb := by
    rw [written_of_le h, written_of_le h, rgbToBrightness_toNat, rgbToBrightness_toNat]
    refine Nat.div_le_div_right (Nat.mul_le_mul_right _ (Nat.div_le_div_right ?_))
    unfold luma
    omega

end BrightnessAux

open BrightnessAux in
/-- If a state gives light, there is one with a color at its place or before, and a request for the LED programs it for the first
of them: a state without a color hides nothing. That one gives no light if and only if its weighted sum, dimmed by its alpha part,
is below 256. -/
theorem led_shows_first_colored (s : Service) (state : LightState) (i j : Fin 3)
    (h : getBrightness ((handleWhiteLed s state i).mLightStates j) ≠ 0) :
    ∃ k ≤ j, let states := (handleWhiteLed s state i).mLightStates
      (states k).lit = true ∧ (∀ m < k, (states m).lit = false) ∧
        stateToUse states = states k ∧ (handleWhiteLed s state i).effective = programme (states k) ∧
        (getBrightness (states k) = 0 ↔ dimmedLuma (states k).color < 256) := by
  obtain ⟨k, hk, hlit, hbefore, hshown⟩ := shown_first _ (lit_of_brightness h)
  refine ⟨k, hk, hlit, hbefore, ?_, ?_, brightness_eq_zero _⟩
  · rw [PriorityAux.stateToUse_eq, hshown]
  · rw [PriorityAux.handleWhiteLed_effective, hshown]

/-- A service that has stored a white notification. -/
def notified : Service where
  mLightStates := fun i => if i.val = 1 then ⟨0xffffffff, .none, 0, 0⟩ else ⟨0, .none, 0, 0⟩
  node := fun _ => []
  maxBrightness := some 16843010

/-- The rule for a notification. -/
theorem led_shows_first_colored_notified :
    ∃ k ≤ (1 : Fin 3), let states := (handleWhiteLed notified ⟨0x00ffffff, .none, 0, 0⟩ 0).mLightStates
      (states k).lit = true ∧ (∀ m < k, (states m).lit = false) ∧
        stateToUse states = states k ∧
        (handleWhiteLed notified ⟨0x00ffffff, .none, 0, 0⟩ 0).effective = programme (states k) ∧
        (getBrightness (states k) = 0 ↔ dimmedLuma (states k).color < 256) :=
  led_shows_first_colored notified ⟨0x00ffffff, .none, 0, 0⟩ 0 1 (by decide)

/-- A request for attention in white that is dimmed to nothing turns the LED off, although the notification gives light. -/
theorem led_hides_notification :
    ¬ ∀ (s : Service) (state : LightState) (i : Fin 3),
      (∃ j, getBrightness ((handleWhiteLed s state i).mLightStates j) ≠ 0) →
        getBrightness (stateToUse (handleWhiteLed s state i).mLightStates) ≠ 0 := by
  intro h
  exact h notified ⟨0x00ffffff, .none, 0, 0⟩ 0 ⟨1, by decide⟩ (by decide)

open BrightnessAux in
/-- The scaling is in range exactly up to a maximum of 16843009, which is the largest number whose product with 255
fits 32 bits. -/
theorem backlight_scales_iff (s : Service) : s.ScalesWell ↔ s.backlightMax ≤ 16843009 := by
  constructor
  · intro h
    have hwhite := h.noWrap ⟨0xffffffff, .none, 0, 0⟩
    rw [sent_white (by decide)] at hwhite
    omega
  · exact scalesWell_of_le

/-- One above it, full white is written as zero. -/
theorem backlight_wraps : ¬ notified.ScalesWell ∧ written notified ⟨0xffffffff, .none, 0, 0⟩ = 0 ∧
      notified.backlightMax = 16843010 := by
  have hwritten : written notified ⟨0xffffffff, .none, 0, 0⟩ = 0 := by
    rw [BrightnessAux.written_eq]
    decide
  have hmax : notified.backlightMax = 16843010 := by decide
  refine ⟨?_, hwritten, hmax⟩
  intro h
  have hwhite := h.white ⟨0xffffffff, .none, 0, 0⟩ (by decide)
  rw [hwritten, hmax] at hwhite
  omega

end Pixel845.Light
