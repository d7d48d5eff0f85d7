import Mathlib.Order.WellFounded

/-!
# Loops in rounds

A loop whose round gives the next state or an ending, run for a number of rounds. Runs are put together by `Reaches`, what every
round keeps holds at the ending (`loop_induction`), and a loop whose rounds make something smaller ends (`exists_loop`).
-/

namespace Pixel845

variable {S E : Type} {round : S → S ⊕ E} {s s' s'' : S} {e e' : E} {m n : Nat}

/-- The ending of a loop; `none` says that it does not end in as many rounds. -/
def loop (round : S → S ⊕ E) : Nat → S → Option E
  | 0, _ => none
  | rounds + 1, s =>
    match round s with
    | .inl s' => loop round rounds s'
    | .inr e => some e

/-- A number of rounds leads from one state to the other. -/
def Reaches (round : S → S ⊕ E) (s s' : S) : Prop := ∃ n, ∀ rounds, loop round (rounds + n) s = loop round rounds s'

/-- Rounds can be taken one after the other. -/
theorem Reaches.trans (h : Reaches round s s') (h' : Reaches round s' s'') : Reaches round s s'' := by
  obtain ⟨n, h⟩ := h
  obtain ⟨n', h'⟩ := h'
  exact ⟨n' + n, fun rounds => by rw [← Nat.add_assoc, h, h']⟩

/-- One round that goes on. -/
theorem Reaches.single (h : round s = .inl s') : Reaches round s s' := ⟨1, fun rounds => by rw [loop, h]⟩

/-- A round in front of others. -/
theorem Reaches.head (h : round s = .inl s') (h' : Reaches round s' s'') : Reaches round s s'' := (Reaches.single h).trans h'

/-- More rounds do not change what a loop comes to. -/
theorem loop_add (h : loop round n s = some e) (m : Nat) : loop round (n + m) s = some e := by
  induction n generalizing s with
  | zero => exact nomatch h
  | succ n ih =>
    rw [Nat.succ_add, loop]
    rw [loop] at h
    cases hround : round s with
    | inl s' =>
      rw [hround] at h
      exact ih h
    | inr e' =>
      rw [hround] at h
      exact h

/-- More rounds do not change how a loop ends. -/
theorem loop_mono (h : loop round n s = some e) (hle : n ≤ m) : loop round m s = some e := by
  obtain ⟨k, rfl⟩ := Nat.exists_eq_add_of_le hle
  exact loop_add h k

/-- A loop ends as it does from a state that it reaches. -/
theorem Reaches.loop_eq (h : Reaches round s s') (hround : round s' = .inr e) : ∃ n, loop round n s = some e := by
  obtain ⟨n, h⟩ := h
  exact ⟨1 + n, by rw [h, loop, hround]⟩

/-- What every round keeps holds in the state whose round is the last. -/
theorem loop_induction {P : S → Prop} (hstep : ∀ s s', P s → round s = .inl s' → P s') (h : loop round n s = some e) (hs : P s) :
    ∃ s', P s' ∧ round s' = .inr e := by
  induction n generalizing s with
  | zero => exact nomatch h
  | succ n ih =>
    rw [loop] at h
    cases hround : round s with
    | inl s' =>
      rw [hround] at h
      exact ih h (hstep s s' hs hround)
    | inr e' =>
      rw [hround] at h
      obtain rfl := Option.some.inj h
      exact ⟨s, hs, hround⟩

/-- A loop whose rounds keep a condition and make something smaller under it ends. -/
theorem exists_loop {α : Type} {r : α → α → Prop} (wf : WellFounded r) (measure : S → α) {P : S → Prop}
    (hstep : ∀ s s', P s → round s = .inl s' → P s' ∧ r (measure s') (measure s)) (hs : P s) :
    ∃ n e, loop round n s = some e := by
  induction hm : measure s using wf.induction generalizing s with
  | _ x ih =>
    cases hround : round s with
    | inl s' =>
      obtain ⟨hs', hlt⟩ := hstep s s' hs hround
      obtain ⟨n, e, hloop⟩ := ih (measure s') (hm ▸ hlt) hs' rfl
      exact ⟨n + 1, e, by simp only [loop, hround, hloop]⟩
    | inr e => exact ⟨1, e, by simp only [loop, hround]⟩

end Pixel845
