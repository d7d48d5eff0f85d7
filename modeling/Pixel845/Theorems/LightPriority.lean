import Pixel845.Light.Light
import Mathlib.Data.List.Induction

/-!
# The LED shows the first request in the order of priority

A request programs the LED for the first lit state of the three that are stored, through nodes that an earlier request may have
left in the other mode. What counts of the nodes is the programme that is in effect, and after a request for one of the three
lights it is that of the latest states alone (`led_shows_priority`). Before the first one the nodes hold what they held at the
start of the service.
-/

namespace Pixel845.Light

/-- What the white LED does. -/
inductive Programme where
  | blinking (dutyPcts pauseLo pauseHi rampStepMs : List UInt8)
  | steady (brightness : List UInt8)
deriving DecidableEq

/-- The programme that the nodes have in effect: those of the mode that `blink` says. -/
def Service.effective (s : Service) : Programme :=
  if s.node .blink = decimal 0 then .steady (s.node .brightness)
  else .blinking (s.node .dutyPcts) (s.node .pauseLo) (s.node .pauseHi) (s.node .rampStepMs)

/-- The programme of a state. If the light is not on for long enough to ramp up and down, the steps of the ramp are shortened. -/
def programme (state : LightState) : Programme :=
  if state.flashMode = .timed then
    let pauseHi := state.flashOnMs - 800
    .blinking (getScaledDutyPercent (getBrightness state).toInt32) (decimalInt state.flashOffMs.toInt)
      (decimalInt (if pauseHi < 0 then 0 else pauseHi).toInt)
      (decimalInt (if pauseHi < 0 then state.flashOnMs / 16 else 50).toInt)
  else .steady (decimal (getBrightness state).toNat)

/-- The light is one of the three that share the LED. -/
def LightType.onLed (t : LightType) : Bool := t == .attention || t == .notifications || t == .battery

/-- The light whose state is stored at a place. -/
def lightAt : Fin 3 → LightType
  | 0 => .attention
  | 1 => .notifications
  | 2 => .battery

/-- The latest state of a light: that of its last request, or the one stored before. -/
def latest (stored : LightState) (t : LightType) (calls : List (LightType × LightState)) : LightState :=
  ((calls.filter (·.1 == t)).getLast?.map (·.2)).getD stored

/-- The latest states of the three lights. -/
def latestStates (s : Service) (calls : List (LightType × LightState)) (i : Fin 3) : LightState :=
  latest (s.mLightStates i) (lightAt i) calls

/-- The state to show: that of the first light in the order `ATTENTION`, `NOTIFICATIONS`, `BATTERY` that is lit, or else that of
`ATTENTION`. -/
def shown (states : Fin 3 → LightState) : LightState :=
  if (states ⟨0, by decide⟩).lit then states ⟨0, by decide⟩
  else if (states ⟨1, by decide⟩).lit then states ⟨1, by decide⟩
  else if (states ⟨2, by decide⟩).lit then states ⟨2, by decide⟩
  else states ⟨0, by decide⟩

namespace PriorityAux

variable {s : Service} {t : LightType} {state stored : LightState} {calls : List (LightType × LightState)}

/-! ### One request -/

/-- The state that is used is the one to be shown. -/
theorem stateToUse_eq (states : Fin 3 → LightState) : stateToUse states = shown states := by
  unfold shown
  generalize ha : states ⟨0, by decide⟩ = a
  generalize hb : states ⟨1, by decide⟩ = b
  generalize hc : states ⟨2, by decide⟩ = c
  have huse : stateToUse states = ([a, b, c].find? (·.lit)).getD a := by
    subst ha hb hc
    rfl
  rw [huse]
  cases h0 : a.lit <;> cases h1 : b.lit <;> cases h2 : c.lit <;> simp [h0, h1, h2]

/-- Programming the LED puts the programme of the state into effect, whatever the nodes held. -/
theorem program_effective (s : Service) (state : LightState) : (s.program state).effective = programme state := by
  have h10 : decimal 1 ≠ decimal 0 := fun h => absurd (decimal_injective h) (by decide)
  have hramp : kRampMaxStepDurationMs * kRampSteps * 2 = 800 := by decide
  have hstep : kRampSteps * 2 = 16 := by decide
  unfold Service.program programme
  by_cases ht : state.flashMode = .timed
  · simp only [ht, if_true, hramp, hstep]
    split <;> simp [Service.effective, Service.set, h10, kRampMaxStepDurationMs]
  · simp [ht, Service.effective, Service.set]

/-- Programming the LED leaves the states. -/
@[simp] theorem program_states (s : Service) (state : LightState) : (s.program state).mLightStates = s.mLightStates := by
  unfold Service.program
  split <;> rfl

/-- A request for the LED sets its state. -/
@[simp] theorem handleWhiteLed_states (s : Service) (state : LightState) (i : Fin 3) :
    (handleWhiteLed s state i).mLightStates = Function.update s.mLightStates i state := program_states _ _

/-- A request for the LED shows the state to be shown. -/
theorem handleWhiteLed_effective (s : Service) (state : LightState) (i : Fin 3) :
    (handleWhiteLed s state i).effective = programme (shown (handleWhiteLed s state i).mLightStates) := by
  rw [handleWhiteLed_states, handleWhiteLed, program_effective, stateToUse_eq]

/-- The backlight leaves the LED. -/
theorem handleBacklight_effective (s : Service) (state : LightState) : (handleBacklight s state).effective = s.effective := by
  simp [handleBacklight, Service.effective, Service.set]

/-- The lights that are on the LED. -/
theorem ledIndex_eq_some {i : Fin 3} : ledIndex t = some i ↔ t = lightAt i := by
  match i with
  | 0 | 1 | 2 => cases t <;> simp [ledIndex, lightAt]

/-- The lights that are not on the LED. -/
theorem ledIndex_eq_none : ledIndex t = none ↔ t.onLed = false := by
  cases t <;> simp [ledIndex, LightType.onLed]

/-- What a request does: it stores the state of a light of the LED and programs the LED, or it leaves both alone. -/
theorem setLight_cases (s : Service) (t : LightType) (state : LightState) :
    (∃ i, t = lightAt i ∧ (setLight s t state).2 = handleWhiteLed s state i) ∨
      (t.onLed = false ∧ (setLight s t state).2.mLightStates = s.mLightStates ∧
        (setLight s t state).2.effective = s.effective) := by
  unfold setLight
  cases hi : ledIndex t with
  | some i => exact .inl ⟨i, ledIndex_eq_some.mp hi, rfl⟩
  | none =>
    refine .inr ⟨ledIndex_eq_none.mp hi, ?_⟩
    by_cases hb : t = .backlight
    · simp only [hb, if_true]
      exact ⟨rfl, handleBacklight_effective s state⟩
    · simp [hb]

/-! ### Runs -/

/-- The latest state of a light is that of the last request for it. -/
theorem latest_concat_self : latest stored t (calls ++ [(t, state)]) = state := by
  simp [latest, List.filter_append]

/-- A request for another light leaves the latest state. -/
theorem latest_concat_of_ne {u : LightType} (h : u ≠ t) : latest stored t (calls ++ [(u, state)]) = latest stored t calls := by
  have hne : (u == t) = false := beq_eq_false_iff_ne.mpr h
  simp [latest, List.filter_append, hne]

/-- Different places are of different lights. -/
theorem lightAt_injective {i j : Fin 3} (h : lightAt i = lightAt j) : i = j := by
  have hi := ledIndex_eq_some.mpr (rfl : lightAt i = lightAt i)
  rw [h, ledIndex_eq_some.mpr rfl] at hi
  exact (Option.some.inj hi).symm

/-- Another request at the end. -/
theorem run_concat (c : LightType × LightState) : run s (calls ++ [c]) = (setLight (run s calls) c.1 c.2).2 := by
  simp [run]

theorem onLed_lightAt (i : Fin 3) : (lightAt i).onLed = true := by
  match i with
  | 0 | 1 | 2 => rfl

/-- The service keeps the latest states. -/
theorem run_states (s : Service) (calls : List (LightType × LightState)) :
    (run s calls).mLightStates = latestStates s calls := by
  induction calls using List.reverseRecOn with
  | nil => rfl
  | append_singleton calls c ih =>
    obtain ⟨t, state⟩ := c
    rw [run_concat]
    funext i
    rcases setLight_cases (run s calls) t state with ⟨j, rfl, hj⟩ | ⟨hled, hst, -⟩
    · rw [hj, handleWhiteLed_states, ih]
      by_cases hij : i = j
      · rw [hij, Function.update_self, latestStates, latest_concat_self]
      · rw [Function.update_of_ne hij, latestStates, latestStates, latest_concat_of_ne]
        exact fun h => hij (lightAt_injective h.symm)
    · rw [hst, ih, latestStates, latestStates, latest_concat_of_ne]
      rintro rfl
      simp [onLed_lightAt] at hled

/-- After a request for one of the three lights the programme in effect is that of the latest states. -/
theorem run_effective (s : Service) (calls : List (LightType × LightState)) :
    (run s calls).effective =
      if calls.any (·.1.onLed) then programme (shown (latestStates s calls)) else s.effective := by
  induction calls using List.reverseRecOn with
  | nil => rfl
  | append_singleton calls c ih =>
    obtain ⟨t, state⟩ := c
    rcases setLight_cases (run s calls) t state with ⟨i, rfl, hi⟩ | ⟨hled, hst, heff⟩
    · have hany : (calls ++ [(lightAt i, state)]).any (·.1.onLed) = true := by simp [onLed_lightAt]
      rw [if_pos hany, ← run_states, run_concat, hi]
      exact handleWhiteLed_effective _ _ _
    · have hany : (calls ++ [(t, state)]).any (·.1.onLed) = calls.any (·.1.onLed) := by simp [hled]
      have hstates : latestStates s (calls ++ [(t, state)]) = latestStates s calls := by
        rw [← run_states, ← run_states, run_concat]
        exact hst
      rw [hany, hstates, run_concat]
      exact heff.trans ih

end PriorityAux

open PriorityAux in
/-- Whatever the service starts with and whatever is requested: after a request for one of the three lights of the LED, the
programme in effect is that of the first of them whose latest state is lit; and two sequences of requests with the same latest
states, each with such a request or neither with one, end with the same programme. -/
theorem led_shows_priority (s : Service) (calls : List (LightType × LightState)) :
    (run s calls).effective =
        (if calls.any (·.1.onLed) then programme (shown (latestStates s calls)) else s.effective) ∧
      ∀ calls', latestStates s calls' = latestStates s calls → calls'.any (·.1.onLed) = calls.any (·.1.onLed) →
        (run s calls').effective = (run s calls).effective := by
  refine ⟨run_effective s calls, ?_⟩
  intro calls' hlatest hany
  rw [run_effective, run_effective, hlatest, hany]

/-- A state without a color. -/
def dark : LightState := ⟨0, .none, 0, 0⟩

/-- A service that has just started on an LED that blinks. -/
def started : Service where
  mLightStates := fun _ => dark
  node := fun n => if n = .blink then decimal 1 else []
  maxBrightness := some 1023

/-- A request for the backlight leaves the LED blinking, although no stored state is lit. -/
theorem led_blinks_from_start :
    (∀ i, (started.mLightStates i).lit = false) ∧
      (run started [(.backlight, dark)]).effective ≠ programme (shown (latestStates started [(.backlight, dark)])) := by
  have h10 : decimal 1 ≠ decimal 0 := fun h => absurd (decimal_injective h) (by decide)
  have hshown : shown (latestStates started [(.backlight, dark)]) = dark := by decide
  have heff : (run started [(.backlight, dark)]).effective = .blinking [] [] [] [] := by
    rw [PriorityAux.run_effective]
    simp [started, Service.effective, h10, LightType.onLed]
  have hdark : dark.lit = false := by decide
  refine ⟨fun _ => hdark, ?_⟩
  rw [heff, hshown]
  simp [programme, dark]

end Pixel845.Light
