import Mathlib.Data.List.Nodup
import Mathlib.Logic.Function.Basic

/-!
# Doubly linked lists

Nodes that name the node after and the node before them. `Linked` says which list of nodes the names make, between a first and a
last node: a node behind the last one makes the list one longer, and taking a node out leaves the others in their order.
-/

namespace Pixel845

variable {α : Type}

/-- The nodes from the first to the last: each names its neighbours. -/
structure Linked (next prev : α → Option α) (head tail : Option α) (ids : List α) : Prop where
  nodup : ids.Nodup
  head_eq : head = ids.head?
  tail_eq : tail = ids.getLast?
  next_eq : ∀ a x b, ids = a ++ x :: b → next x = b.head?
  prev_eq : ∀ a x b, ids = a ++ x :: b → prev x = a.getLast?

/-- The nodes that are met by following `next`; none if they are more than `fuel`. -/
def walk (next : α → Option α) : Nat → Option α → Option (List α)
  | _, none => some []
  | 0, some _ => none
  | fuel + 1, some x => (walk next fuel (next x)).map (x :: ·)

variable {next prev : α → Option α} {head tail : Option α} {ids a b : List α} {n x : α}

/-- A list without entries has neither head nor tail. -/
theorem Linked.nil (next prev : α → Option α) : Linked next prev none none [] where
  nodup := List.nodup_nil
  head_eq := rfl
  tail_eq := rfl
  next_eq := by simp
  prev_eq := by simp

/-- There is no head exactly if there are no entries. -/
theorem Linked.head_eq_none_iff (h : Linked next prev head tail ids) : head = none ↔ ids = [] := by
  rw [h.head_eq, List.head?_eq_none_iff]

/-- A walk from a node of the list meets it and those behind it. -/
theorem Linked.walk_from (h : Linked next prev head tail ids) {fuel : Nat} (a b : List α) (hids : ids = a ++ b)
    (hb : b.length ≤ fuel) : walk next fuel b.head? = some b := by
  induction b generalizing a fuel with
  | nil => cases fuel <;> rfl
  | cons x b ih =>
    obtain _ | fuel := fuel
    · exact absurd hb (by simp)
    · have hrest := ih (a ++ [x]) (by simpa using hids) (Nat.le_of_succ_le_succ hb)
      rw [List.head?_cons, walk, h.next_eq a x b hids, hrest]
      rfl

/-- A walk from the first node meets all of them. -/
theorem Linked.walk_eq (h : Linked next prev head tail ids) {fuel : Nat} (hfuel : ids.length ≤ fuel) :
    walk next fuel head = some ids := by
  rw [h.head_eq]
  exact h.walk_from [] ids rfl hfuel

/-- Where a node stands in a list that is one longer. -/
theorem eq_append_of_concat (h : ids ++ [n] = a ++ x :: b) : (b = [] ∧ x = n ∧ a = ids) ∨ ∃ b', b = b' ++ [n] ∧
      ids = a ++ x :: b' := by
  rcases List.eq_nil_or_concat' b with rfl | ⟨b', y, rfl⟩
  · obtain ⟨h1, h2⟩ := List.append_inj' h rfl
    exact .inl ⟨rfl, (List.singleton_inj.mp h2).symm, h1.symm⟩
  · have h' : ids ++ [n] = (a ++ x :: b') ++ [y] := by simpa using h
    obtain ⟨h1, h2⟩ := List.append_inj' h' rfl
    exact .inr ⟨b', by rw [List.singleton_inj.mp h2], h1⟩

/-- Where a node stands in two lists behind one another. -/
theorem eq_append_of_append {c d : List α} (h : a ++ b = c ++ x :: d) :
    (∃ e, c = a ++ e ∧ b = e ++ x :: d) ∨ ∃ e, a = c ++ x :: e ∧ d = e ++ b := by
  obtain ⟨e, hc, hb⟩ | ⟨e, ha, hd⟩ := List.append_eq_append_iff.mp h
  · exact .inl ⟨e, hc, hb⟩
  · cases e with
    | nil => exact .inl ⟨[], by simpa using ha.symm, by simpa using hd.symm⟩
    | cons y e =>
      obtain ⟨rfl, rfl⟩ := List.cons.inj hd
      exact .inr ⟨e, ha, rfl⟩

variable [DecidableEq α]

/-- The list without a node, when the neighbours of that node name each other. -/
theorem Linked.unlink {next' prev' : α → Option α} (h : Linked next prev head tail (a ++ n :: b))
    (hnext : ∀ x ∈ a ++ b, next' x = if a.getLast? = some x then b.head? else next x)
    (hprev : ∀ x ∈ a ++ b, prev' x = if b.head? = some x then a.getLast? else prev x) :
    Linked next' prev' (a ++ b).head? (a ++ b).getLast? (a ++ b) := by
  have hnodup := h.nodup
  have hdisj : ∀ x ∈ a, x ∉ b := by
    intro x ha hb
    rw [List.nodup_append] at hnodup
    exact hnodup.2.2 x ha x (List.mem_cons_of_mem n hb) rfl
  refine ⟨?_, rfl, rfl, ?_, ?_⟩
  · exact hnodup.sublist (List.Sublist.append (List.Sublist.refl a) (List.sublist_cons_self n b))
  · intro c x d hids
    rw [hnext x (by simp [hids])]
    obtain ⟨e, rfl, rfl⟩ | ⟨e, rfl, rfl⟩ := eq_append_of_append hids
    · have hne : a.getLast? ≠ some x := fun hlast => hdisj x (List.mem_of_getLast? hlast) (by simp)
      rw [if_neg hne, h.next_eq (a ++ n :: e) x d (by simp)]
    · rcases List.eq_nil_or_concat' e with rfl | ⟨e, y, rfl⟩
      · simp
      · have hxy : y ≠ x := by
          intro hxy
          rw [List.nodup_append] at hnodup
          simp [hxy, List.nodup_append] at hnodup
        have hlast : (c ++ x :: (e ++ [y])).getLast? = some y := by
          rw [← List.cons_append, ← List.append_assoc, List.getLast?_concat]
        rw [hlast, if_neg (by simpa using hxy), h.next_eq c x (e ++ [y] ++ n :: b) (by simp)]
        cases e <;> rfl
  · intro c x d hids
    rw [hprev x (by simp [hids])]
    obtain ⟨e, rfl, rfl⟩ | ⟨e, rfl, rfl⟩ := eq_append_of_append hids
    · cases e with
      | nil => simp
      | cons y e =>
        have hxy : y ≠ x := by
          intro hxy
          rw [List.nodup_append] at hnodup
          simp [hxy] at hnodup
        rw [if_neg (by simpa using hxy), h.prev_eq (a ++ n :: y :: e) x d (by simp)]
        simp [List.getLast?_cons]
    · have hne : b.head? ≠ some x := fun hhead => hdisj x (by simp) (List.mem_of_head? hhead)
      rw [if_neg hne, h.prev_eq c x (e ++ n :: b) (by simp)]

/-- A first node. -/
theorem Linked.singleton (next prev : α → Option α) (n : α) :
    Linked (Function.update next n none) (Function.update prev n none) (some n) (some n) [n] where
  nodup := List.nodup_singleton n
  head_eq := rfl
  tail_eq := rfl
  next_eq a x b h := by
    obtain ⟨rfl, rfl, rfl⟩ | ⟨b', -, h⟩ := eq_append_of_concat (show [] ++ [n] = a ++ x :: b from h)
    · simp
    · exact absurd h.symm (by simp)
  prev_eq a x b h := by
    obtain ⟨rfl, rfl, rfl⟩ | ⟨b', -, h⟩ := eq_append_of_concat (show [] ++ [n] = a ++ x :: b from h)
    · simp
    · exact absurd h.symm (by simp)

/-- A node behind the last one. -/
theorem Linked.concat {t : α} (h : Linked next prev head (some t) ids) (hn : n ∉ ids) :
    Linked (Function.update (Function.update next t (some n)) n none) (Function.update prev n (some t)) head (some n)
      (ids ++ [n]) := by
  have hlast : ids.getLast? = some t := h.tail_eq.symm
  obtain ⟨ids', rfl⟩ : ∃ ids', ids = ids' ++ [t] := by
    rcases List.eq_nil_or_concat' ids with rfl | ⟨ids', y, rfl⟩
    · exact nomatch hlast
    · rw [List.getLast?_concat, Option.some.injEq] at hlast
      exact ⟨ids', by rw [hlast]⟩
  refine ⟨?_, ?_, by simp, ?_, ?_⟩
  · exact List.nodup_append.mpr ⟨h.nodup, List.nodup_singleton n, fun x hx y hy hxy =>
      hn (by rwa [← List.mem_singleton.mp hy, ← hxy])⟩
  · rw [h.head_eq]
    cases ids' <;> rfl
  · intro a x b hids
    obtain ⟨rfl, rfl, rfl⟩ | ⟨b', rfl, hids'⟩ := eq_append_of_concat hids
    · simp
    · have hxn : x ≠ n := fun hx => hn (by simp [hids', hx])
      rw [Function.update_of_ne hxn]
      -- the node before the new one is the last of the list
      obtain ⟨rfl, rfl, rfl⟩ | ⟨b'', rfl, -⟩ := eq_append_of_concat hids'
      · simp
      · have hxt : x ≠ t := by
          intro hx
          have hnodup := h.nodup
          rw [hids', hx] at hnodup
          simp [List.nodup_append] at hnodup
        rw [Function.update_of_ne hxt, h.next_eq a x _ hids']
        cases b'' <;> rfl
  · intro a x b hids
    obtain ⟨rfl, rfl, rfl⟩ | ⟨b', rfl, hids'⟩ := eq_append_of_concat hids
    · simp
    · have hxn : x ≠ n := fun hx => hn (by simp [hids', hx])
      rw [Function.update_of_ne hxn, h.prev_eq a x b' hids']

end Pixel845
