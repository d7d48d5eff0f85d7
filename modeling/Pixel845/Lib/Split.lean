import Mathlib.Data.List.Basic

/-!
# Parts and separators

A list that ends each of its parts with a separator: lines and newlines, fields and commas. Splitting it gives the parts back, and
counting the separators gives their number.
-/

namespace Pixel845

variable {α : Type} {sep : α} {parts : List (List α)}

/-- Parts that are not short make a text that is not. -/
theorem length_ended_le {n : Nat} (h : ∀ p ∈ parts, n ≤ p.length) :
    (n + 1) * parts.length ≤ (parts.flatMap (· ++ [sep])).length := by
  induction parts with
  | nil => exact Nat.zero_le _
  | cons p parts ih =>
    obtain ⟨hp, hparts⟩ := List.forall_mem_cons.mp h
    have hrest := ih hparts
    rw [List.length_cons, Nat.mul_succ, List.flatMap_cons, List.length_append, List.length_append, List.length_singleton]
    omega

/-- Some parts, each with its separator, are no empty text. -/
theorem ended_ne_nil (hne : parts ≠ []) : parts.flatMap (· ++ [sep]) ≠ [] := by
  obtain ⟨p, parts, rfl⟩ := List.exists_cons_of_ne_nil hne
  simp

variable [BEq α]

/-- There is one part more than separators. -/
theorem splitOn_length (sep : α) (s : List α) : (s.splitOn sep).length = s.count sep + 1 := by
  induction s with
  | nil => rfl
  | cons c s ih =>
    rw [List.splitOn_cons_eq_if_modifyHead, List.count_cons]
    split
    · simp [ih]
    · simp [ih]

variable [LawfulBEq α]

/-- Splitting undoes ending each part with the separator. -/
theorem splitOn_ended (h : ∀ p ∈ parts, sep ∉ p) : (parts.flatMap (· ++ [sep])).splitOn sep = parts ++ [[]] := by
  induction parts with
  | nil => rfl
  | cons p parts ih =>
    obtain ⟨hp, hparts⟩ := List.forall_mem_cons.mp h
    rw [List.flatMap_cons, List.append_assoc, List.singleton_append, List.splitOn_append_cons_self_of_not_mem hp, ih hparts]
    rfl

/-- The separators are those at the ends of the parts and those inside them. -/
theorem count_ended (sep : α) (parts : List (List α)) :
    (parts.flatMap (· ++ [sep])).count sep = parts.length + parts.flatten.count sep := by
  induction parts with
  | nil => rfl
  | cons p parts ih =>
    rw [List.flatMap_cons, List.count_append, ih, List.count_append, List.count_singleton_self, List.flatten_cons,
      List.count_append, List.length_cons]
    omega

/-- There are as many separators as parts that have none in them. -/
theorem count_ended_of_not_mem (h : ∀ p ∈ parts, sep ∉ p) : (parts.flatMap (· ++ [sep])).count sep = parts.length := by
  have hnone : parts.flatten.count sep = 0 := by
    rw [List.count_eq_zero, List.mem_flatten]
    rintro ⟨p, hp, hsep⟩
    exact h p hp hsep
  rw [count_ended, hnone, Nat.add_zero]

end Pixel845
