import Pixel845.Lib.Words

/-!
# Replacing in a text

`subst pat repl text` replaces every occurrence of `pat` in `text`, from left to right, an occurrence starting where the one
before it ends at the earliest. With nothing as the replacement it deletes `pat`: what is left is empty exactly if the text
repeats `pat`, so two texts that delete each other are equal.
-/

namespace Pixel845

variable {α : Type} [DecidableEq α]

/-- Replace every occurrence of a pattern that is not empty, after `n` elements that belong to an occurrence already replaced. -/
def substGo (pat repl : List α) : List α → Nat → List α
  | [], _ => []
  | _ :: text, n + 1 => substGo pat repl text n
  | c :: text, 0 =>
    if pat.isPrefixOf (c :: text) then repl ++ substGo pat repl text (pat.length - 1) else c :: substGo pat repl text 0

/-- Replace every occurrence of a pattern; the empty one occurs once, at the end. -/
def subst (pat repl text : List α) : List α := if pat = [] then text ++ repl else substGo pat repl text 0

variable {pat repl text v w : List α} {c d : α} {parts : List (List α)}

/-- The elements of an occurrence are passed over. -/
theorem substGo_skip (pat repl s text : List α) : substGo pat repl (s ++ text) s.length = substGo pat repl text 0 := by
  induction s with
  | nil => rfl
  | cons c s ih => exact ih

/-- An occurrence at the start is replaced. -/
theorem substGo_append (hpat : pat ≠ []) (repl text : List α) :
    substGo pat repl (pat ++ text) 0 = repl ++ substGo pat repl text 0 := by
  obtain ⟨c, s, rfl⟩ := List.exists_cons_of_ne_nil hpat
  have hfront : (c :: s).isPrefixOf (c :: (s ++ text)) = true := List.isPrefixOf_iff_prefix.mpr ⟨text, rfl⟩
  rw [List.cons_append, substGo, if_pos hfront, List.length_cons, Nat.add_sub_cancel, substGo_skip]

/-- Without an occurrence at the start, its first element stays. -/
theorem substGo_cons (repl : List α) (h : ¬ pat <+: c :: text) :
    substGo pat repl (c :: text) 0 = c :: substGo pat repl text 0 := by
  rw [substGo, if_neg (fun hp => h (List.isPrefixOf_iff_prefix.mp hp))]

/-! ## Deleting -/

/-- Deleting leaves nothing exactly of the repetitions of the pattern. -/
theorem substGo_eq_nil_iff (hpat : pat ≠ []) : substGo pat [] text 0 = [] ↔ ∃ k, text = (List.replicate k pat).flatten := by
  constructor
  · intro h
    -- every occurrence that is deleted leaves a shorter text
    induction hn : text.length using Nat.strongRecOn generalizing text with
    | ind n ih =>
      subst hn
      cases text with
      | nil => exact ⟨0, rfl⟩
      | cons c text =>
        by_cases hfront : pat <+: c :: text
        · obtain ⟨rest, hrest⟩ := hfront
          rw [← hrest, substGo_append hpat, List.nil_append] at h
          have hlt : rest.length < (c :: text).length := by
            rw [← hrest, List.length_append]
            have := List.length_pos_of_ne_nil hpat
            omega
          obtain ⟨k, hk⟩ := ih rest.length hlt h rfl
          exact ⟨k + 1, by rw [← hrest, hk, List.replicate_succ, List.flatten_cons]⟩
        · rw [substGo_cons [] hfront] at h
          exact nomatch h
  · rintro ⟨k, rfl⟩
    induction k with
    | zero => rfl
    | succ k ih => rw [List.replicate_succ, List.flatten_cons, substGo_append hpat, ih, List.append_nil]

omit [DecidableEq α] in
/-- Two texts that are repetitions of each other are equal, unless both are empty. -/
theorem eq_of_repeats {j k : Nat} (hv : v ≠ []) (hw : w = (List.replicate k v).flatten) (hvw : v = (List.replicate j w).flatten) :
    v = w := by
  have hlen : v.length = j * (k * v.length) := by simpa [hw] using congrArg List.length hvw
  have hpos := List.length_pos_of_ne_nil hv
  have hjk : j * k = 1 := Nat.eq_of_mul_eq_mul_right hpos (by rw [Nat.mul_assoc, ← hlen, Nat.one_mul])
  have hk : k = 1 := Nat.eq_one_of_mul_eq_one_left hjk
  rw [hw, hk]
  simp

/-- Texts are equal exactly if deleting one from the other leaves nothing, both ways. -/
theorem subst_nil_iff (v w : List α) : subst v [] w = [] ∧ subst w [] v = [] ↔ v = w := by
  constructor
  · rintro ⟨hw, hv⟩
    by_cases hv0 : v = []
    · rw [subst, if_pos hv0, List.append_nil] at hw
      rw [hv0, hw]
    · by_cases hw0 : w = []
      · rw [subst, if_pos hw0, List.append_nil] at hv
        exact absurd hv hv0
      · rw [subst, if_neg hv0, substGo_eq_nil_iff hv0] at hw
        rw [subst, if_neg hw0, substGo_eq_nil_iff hw0] at hv
        obtain ⟨k, hk⟩ := hw
        obtain ⟨j, hj⟩ := hv
        exact eq_of_repeats hv0 hk hj
  · rintro rfl
    have hself : subst v [] v = [] := by
      unfold subst
      split
      · simpa
      · rename_i hv
        exact (substGo_eq_nil_iff hv).mpr ⟨1, by simp⟩
    exact ⟨hself, hself⟩

/-! ## Replacing one element -/

/-- Replacing a single element is a map. -/
theorem subst_singleton (c d : α) (text : List α) : subst [c] [d] text = text.map (fun x => if x = c then d else x) := by
  rw [subst, if_neg (List.cons_ne_nil c [])]
  induction text with
  | nil => rfl
  | cons x text ih =>
    rw [List.map_cons, ← ih]
    split
    · rename_i hx
      rw [hx]
      exact substGo_append (List.cons_ne_nil c []) [d] text
    · rename_i hx
      refine substGo_cons [d] (fun h => hx ?_)
      simpa [eq_comm] using h

/-- Replacing a separator by another one. -/
theorem subst_intercalate (hparts : ∀ part ∈ parts, c ∉ part) :
    subst [c] [d] ([c].intercalate parts) = [d].intercalate parts := by
  rw [subst_singleton]
  induction parts with
  | nil => rfl
  | cons part parts ih =>
    obtain ⟨hpart, hparts⟩ := List.forall_mem_cons.mp hparts
    have hkeep : part.map (fun x => if x = c then d else x) = part :=
      (List.map_congr_left (fun x hx => if_neg (fun h : x = c => hpart (h ▸ hx)))).trans part.map_id'
    by_cases h : parts = []
    · rw [h, List.intercalate_singleton, List.intercalate_singleton, hkeep]
    · rw [List.intercalate_cons_of_ne_nil h, List.intercalate_cons_of_ne_nil h, List.map_append, List.map_append,
        hkeep, ih hparts]
      simp

end Pixel845
