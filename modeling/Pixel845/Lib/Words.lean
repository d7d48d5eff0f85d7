import Pixel845.Lib.Split

/-!
# Words

The words of a text are its longest parts without white space, for a test `p` of what white space is. In a text of parts with a
separator before, between and behind them, what stands between two separators next to each other is one of the parts.
-/

namespace Pixel845

variable {α : Type}

/-- The words of a text. -/
def words (p : α → Bool) (s : List α) : List (List α) := (s.splitOnP p).filter (· ≠ [])

variable {p : α → Bool} {c sep : α} {w s : List α} {parts : List (List α)}

@[simp] theorem words_nil (p : α → Bool) : words p [] = [] := by
  simp [words]

/-- White space ends a word. -/
theorem words_append_cons (h : p c = true) (s s' : List α) : words p (s ++ c :: s') = words p s ++ words p s' := by
  rw [words, List.splitOnP_append_cons s s' h, List.filter_append]
  rfl

/-- Spaces in front do not matter. -/
@[simp] theorem words_cons_space (h : p c = true) : words p (c :: s) = words p s := by
  simpa using words_append_cons h [] s

/-- Spaces at the end do not matter. -/
@[simp] theorem words_concat_space (h : p c = true) : words p (s ++ [c]) = words p s := by
  simpa using words_append_cons h s []

/-- A text without white space is one word. -/
theorem words_eq_singleton (hne : w ≠ []) (hw : ∀ c ∈ w, p c = false) : words p w = [w] := by
  rw [words, List.splitOnP_eq_singleton hw]
  simp [hne]

/-- A part with the first one changed is one of the parts or the changed one. -/
theorem mem_modifyHead {f : List α → List α} (h : w ∈ parts.modifyHead f) : w ∈ parts ∨ ∃ v ∈ parts, w = f v := by
  cases parts with
  | nil => exact .inl h
  | cons v parts =>
    rcases List.mem_cons.mp h with rfl | h
    · exact .inr ⟨v, List.mem_cons_self, rfl⟩
    · exact .inl (List.mem_cons_of_mem v h)

/-- What stands between white space is of the text, and has no white space. -/
theorem mem_of_mem_splitOnP (h : w ∈ s.splitOnP p) (hc : c ∈ w) : c ∈ s ∧ p c = false := by
  induction s generalizing w with
  | nil =>
    rw [List.splitOnP_nil, List.mem_singleton] at h
    exact nomatch h ▸ hc
  | cons a s ih =>
    have hrest : ∀ v ∈ s.splitOnP p, c ∈ v → c ∈ a :: s ∧ p c = false :=
      fun v hv hc => ⟨List.mem_cons_of_mem a (ih hv hc).1, (ih hv hc).2⟩
    rw [List.splitOnP_cons_eq_if_modifyHead] at h
    cases ha : p a with
    | true =>
      rw [if_pos ha, List.mem_cons] at h
      rcases h with rfl | h
      · exact nomatch hc
      · exact hrest w h hc
    | false =>
      rw [if_neg (by simp [ha])] at h
      rcases mem_modifyHead h with h | ⟨v, hv, rfl⟩
      · exact hrest w h hc
      · rcases List.mem_cons.mp hc with rfl | hc
        · exact ⟨List.mem_cons_self, ha⟩
        · exact hrest v hv hc

/-- No word is empty. -/
theorem ne_nil_of_mem_words (h : w ∈ words p s) : w ≠ [] := by
  simpa using (List.mem_filter.mp h).2

/-- A word is of the text, and has no white space. -/
theorem mem_of_mem_words (h : w ∈ words p s) (hc : c ∈ w) : c ∈ s ∧ p c = false :=
  mem_of_mem_splitOnP (List.mem_filter.mp h).1 hc

/-! ## Words with a separator between them -/

/-- What stands in joined parts is the separator or stands in one of them. -/
theorem mem_intercalate (h : c ∈ [sep].intercalate parts) : c = sep ∨ ∃ w ∈ parts, c ∈ w := by
  induction parts with
  | nil => exact nomatch h
  | cons part parts ih =>
    by_cases hparts : parts = []
    · subst hparts
      exact .inr ⟨part, List.mem_singleton_self part, by simpa using h⟩
    · rw [List.intercalate_cons_of_ne_nil hparts, List.append_assoc, List.mem_append, List.singleton_append, List.mem_cons] at h
      rcases h with h | h | h
      · exact .inr ⟨part, List.mem_cons_self, h⟩
      · exact .inl h
      · rcases ih h with h | ⟨w, hw, hc⟩
        · exact .inl h
        · exact .inr ⟨w, List.mem_cons_of_mem part hw, hc⟩

/-- A separator after the last part makes a text whose parts all end with one. -/
theorem intercalate_concat (hparts : parts ≠ []) : [sep].intercalate parts ++ [sep] = parts.flatMap (· ++ [sep]) := by
  induction parts with
  | nil => exact absurd rfl hparts
  | cons part parts ih =>
    by_cases h : parts = []
    · simp [h]
    · rw [List.intercalate_cons_of_ne_nil h, List.append_assoc, ih h, List.flatMap_cons]

/-- Between two separators stands one of the parts, whole. -/
theorem delimited_infix_iff [BEq α] [LawfulBEq α] (hw : sep ∉ w) (hne : w ≠ []) (hparts : ∀ part ∈ parts, sep ∉ part) :
    sep :: (w ++ [sep]) <:+: sep :: parts.flatMap (· ++ [sep]) ↔ w ∈ parts := by
  constructor
  · rintro ⟨s, t, h⟩
    -- both sides are split at the separators: the left one has the part `w`
    have hleft : (s ++ sep :: (w ++ [sep]) ++ t).splitOn sep = s.splitOn sep ++ w :: t.splitOn sep := by
      rw [List.append_assoc, List.cons_append, List.append_assoc, List.singleton_append, List.splitOn_append_cons_self,
        List.splitOn_append_cons_self_of_not_mem hw]
    have hright : (sep :: parts.flatMap (· ++ [sep])).splitOn sep = [] :: (parts ++ [[]]) := by
      rw [← splitOn_ended hparts]
      exact List.splitOn_append_cons_self [] _
    have hmem : w ∈ [] :: (parts ++ [[]]) := by
      rw [← hright, ← h, hleft]
      simp
    simpa [hne] using hmem
  · intro h
    -- before `w` stands the separator that ends the part before it, or the first one
    have hend : ∀ ps : List (List α), ∃ s, sep :: ps.flatMap (· ++ [sep]) = s ++ [sep] := by
      intro ps
      rcases List.eq_nil_or_concat ps with rfl | ⟨ps, q, rfl⟩
      · exact ⟨[], rfl⟩
      · exact ⟨sep :: (ps.flatMap (· ++ [sep]) ++ q), by simp⟩
    obtain ⟨ps, qs, rfl⟩ := List.append_of_mem h
    obtain ⟨s, hs⟩ := hend ps
    refine ⟨s, qs.flatMap (· ++ [sep]), ?_⟩
    calc s ++ sep :: (w ++ [sep]) ++ qs.flatMap (· ++ [sep])
        = (s ++ [sep]) ++ (w ++ [sep] ++ qs.flatMap (· ++ [sep])) := by simp
      _ = sep :: (ps ++ w :: qs).flatMap (· ++ [sep]) := by
        rw [← hs, List.flatMap_append, List.flatMap_cons, List.cons_append]

/-- Between separators, a word without them stands in joined parts exactly if it is one of them. -/
theorem delimited_intercalate_iff [BEq α] [LawfulBEq α] (hw : sep ∉ w) (hne : w ≠ []) (hparts : ∀ part ∈ parts, sep ∉ part) :
    sep :: (w ++ [sep]) <:+: sep :: ([sep].intercalate parts ++ [sep]) ↔ w ∈ parts := by
  by_cases h : parts = []
  · -- two separators with nothing between them
    have hempty : sep :: (w ++ [sep]) <:+: sep :: [[]].flatMap (· ++ [sep]) ↔ w ∈ [[]] := delimited_infix_iff hw hne (by simp)
    simpa [h, hne] using hempty
  · rw [intercalate_concat h]
    exact delimited_infix_iff hw hne hparts

end Pixel845
