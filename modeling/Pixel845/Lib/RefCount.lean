import Mathlib.Algebra.BigOperators.Group.Finset.Basic
import Mathlib.Algebra.Order.BigOperators.Group.Finset

/-!
# Reference counts

Cells that hold references to one another and count those to themselves. The last reference to a cell takes the cell with it: the
references that it holds are released, and then it is freed. `Counted` says that the counts are right, also while a release is
under way: references wait in `pend`, a cell that is being released has the count 0, and a reference that `stale` names is still
written in its cell but counts no more.
-/

namespace Pixel845

/-- A cell: its count, and what it holds. -/
structure Cell (γ : Type) where
  count : Nat
  content : γ

/-- The cells at their addresses; an address is used once, and those from `next` on are not used yet. -/
structure Cells (γ : Type) where
  cell : Nat → Option (Cell γ)
  next : Nat

namespace Cells

variable {γ : Type}

/-- No cell at all. -/
def empty : Cells γ := { cell := fun _ => none, next := 0 }

/-- The count at an address. -/
def countOf (h : Cells γ) (a : Nat) : Nat := ((h.cell a).map Cell.count).getD 0

/-- A change at an address. -/
def set (h : Cells γ) (a : Nat) (c : Option (Cell γ)) : Cells γ := { h with cell := Function.update h.cell a c }

/-- A new cell, with one reference. -/
def alloc (h : Cells γ) (content : γ) : Cells γ :=
  { cell := Function.update h.cell h.next (some ⟨1, content⟩), next := h.next + 1 }

variable (kids : γ → List Nat)

/-- A reference is released, as deep as given: none where a cell is used that is freed or has no count left. -/
def release : Nat → Cells γ → Nat → Option (Cells γ)
  | 0, _, _ => none
  | n + 1, h, a => do
    let c ← h.cell a
    guard (0 < c.count)
    let h := h.set a (some { c with count := c.count - 1 })
    if c.count = 1 then do
      let h ← (kids c.content).foldlM (release n) h
      some (h.set a none)
    else some h

/-- The references in a cell to another one, without the stale ones and as long as the cell is not being released. -/
def edges (stale : Nat → Nat → Nat) (h : Cells γ) (p a : Nat) : Nat :=
  match h.cell p with
  | some c => if 0 < c.count then (kids c.content).count a - stale p a else 0
  | none => 0

/-- The references in all cells to one. -/
def indegree (stale : Nat → Nat → Nat) (h : Cells γ) (a : Nat) : Nat := ∑ p ∈ Finset.range h.next, edges kids stale h p a

/-- All counts together. -/
def total (h : Cells γ) : Nat := ∑ a ∈ Finset.range h.next, h.countOf a

/-- The counts are right: they tell the references from outside, in the cells, and those that wait to be released. The cells of
`kept` stay: each has a reference from outside or from another one of them. -/
structure Counted (own : Nat → Nat) (stale : Nat → Nat → Nat) (kept : Nat → Prop) (pend : List Nat) (h : Cells γ) : Prop where
  fresh : ∀ a, h.next ≤ a → h.cell a = none
  count : ∀ a, h.countOf a = own a + indegree kids stale h a + pend.count a
  pos : ∀ a, kept a → 0 < h.countOf a
  supported : ∀ a, kept a → 0 < own a ∨ ∃ p, kept p ∧ 0 < edges kids stale h p a
  stale : ∀ p a, 0 < stale p a → kept p

/-- What a release does to the cells: one is as it was, or it has fewer references, or it is freed. -/
def Released (h h' : Cells γ) : Prop :=
  h'.next = h.next ∧ ∀ a, h'.cell a = h.cell a ∨
    ∃ c, h.cell a = some c ∧ 0 < c.count ∧ (h'.cell a = none ∨ ∃ m, 0 < m ∧ m ≤ c.count ∧ h'.cell a = some { c with count := m })

/-! ## Addresses -/

section Lookup

variable {h : Cells γ} {a b : Nat} {c : Option (Cell γ)} {d : Cell γ}

@[simp] theorem set_next : (h.set a c).next = h.next := rfl

/-- A cell that is set is as it was set. -/
@[simp] theorem set_cell_self : (h.set a c).cell a = c := by simp [set]

/-- The other cells are as they were. -/
theorem set_cell_of_ne (hne : b ≠ a) : (h.set a c).cell b = h.cell b := by simp [set, hne]

/-- The count of a cell that is there. -/
theorem countOf_some (hd : h.cell a = some d) : h.countOf a = d.count := by rw [countOf, hd]; rfl

/-- A cell that is not there has no count. -/
theorem countOf_none (hnone : h.cell a = none) : h.countOf a = 0 := by rw [countOf, hnone]; rfl

/-- A cell with a count is there. -/
theorem exists_of_countOf (hpos : 0 < h.countOf a) : ∃ d, h.cell a = some d ∧ h.countOf a = d.count := by
  cases hd : h.cell a with
  | none => rw [countOf_none hd] at hpos; exact absurd hpos (Nat.lt_irrefl 0)
  | some d => exact ⟨d, rfl, countOf_some hd⟩

/-- The counts of the other cells are as they were. -/
theorem countOf_set_of_ne (hne : b ≠ a) : (h.set a c).countOf b = h.countOf b := by rw [countOf, countOf, set_cell_of_ne hne]

end Lookup

variable {kids} {own : Nat → Nat} {stale : Nat → Nat → Nat} {kept : Nat → Prop} {pend : List Nat} {h h' h'' : Cells γ}
  {a b p x n : Nat} {c : Cell γ}

theorem edges_congr (hcell : h'.cell p = h.cell p) : edges kids stale h' p a = edges kids stale h p a := by
      rw [edges, edges, hcell]

/-- A live cell has the references of its content, less those that are stale. -/
theorem edges_some (hc : h.cell p = some c) (hpos : 0 < c.count) :
    edges kids stale h p a = (kids c.content).count a - stale p a := by
  rw [edges, hc]
  exact if_pos hpos

/-- A cell with count zero has no references any more. -/
theorem edges_dying (hc : h.cell p = some c) (hzero : c.count = 0) : edges kids stale h p a = 0 := by
  rw [edges, hc]
  exact if_neg (by omega)

/-- A cell that is not there has no references. -/
theorem edges_none (hnone : h.cell p = none) : edges kids stale h p a = 0 := by rw [edges, hnone]

/-- A change in one cell shows in its own references only. -/
theorem indegree_set (hx : x < h.next) (c : Option (Cell γ)) :
    indegree kids stale (h.set x c) a + edges kids stale h x a = indegree kids stale h a + edges kids stale (h.set x c) x a := by
  have hmem : x ∈ Finset.range h.next := Finset.mem_range.mpr hx
  have hrest : ∑ p ∈ (Finset.range h.next).erase x, edges kids stale (h.set x c) p a = ∑ p ∈ (Finset.range h.next).erase x,
    edges kids stale h p a :=
    Finset.sum_congr rfl fun p hp => edges_congr (set_cell_of_ne (Finset.ne_of_mem_erase hp))
  rw [indegree, indegree, set_next, ← Finset.add_sum_erase _ _ hmem,
    ← Finset.add_sum_erase _ (fun p => edges kids stale h p a) hmem, hrest]
  omega

/-- The references from one cell are among all there are. -/
theorem edges_le_indegree (hp : p < h.next) : edges kids stale h p a ≤ indegree kids stale h a :=
  Finset.single_le_sum (f := fun p => edges kids stale h p a) (fun _ _ => Nat.zero_le _) (Finset.mem_range.mpr hp)

/-- Setting a cell changes the sum of the counts by its own. -/
theorem total_set (hx : x < h.next) (c : Option (Cell γ)) :
    (h.set x c).total + h.countOf x = h.total + (h.set x c).countOf x := by
  have hmem : x ∈ Finset.range h.next := Finset.mem_range.mpr hx
  have hrest : ∑ a ∈ (Finset.range h.next).erase x, (h.set x c).countOf a = ∑ a ∈ (Finset.range h.next).erase x, h.countOf a :=
    Finset.sum_congr rfl fun a ha => countOf_set_of_ne (Finset.ne_of_mem_erase ha)
  rw [total, total, set_next, ← Finset.add_sum_erase _ _ hmem, ← Finset.add_sum_erase _ h.countOf hmem, hrest]
  omega

/-- A count is at most the sum of all. -/
theorem countOf_le_total (hx : x < h.next) : h.countOf x ≤ h.total :=
  Finset.single_le_sum (f := h.countOf) (fun _ _ => Nat.zero_le _) (Finset.mem_range.mpr hx)

/-! ## A release -/

namespace Released

/-- Nothing has been released. -/
theorem refl (h : Cells γ) : Released h h := ⟨rfl, fun _ => .inl rfl⟩

/-- Releases can be taken one after the other. -/
theorem trans (h₁ : Released h h') (h₂ : Released h' h'') : Released h h'' := by
  refine ⟨h₂.1.trans h₁.1, fun a => ?_⟩
  rcases h₁.2 a with heq | ⟨c, hc, hpos, hnone | ⟨m, hm, hle, hsome⟩⟩ <;>
    rcases h₂.2 a with heq' | ⟨c', hc', hpos', hnone' | ⟨m', hm', hle', hsome'⟩⟩
  · exact .inl (heq'.trans heq)
  · exact .inr ⟨c', heq ▸ hc', hpos', .inl hnone'⟩
  · exact .inr ⟨c', heq ▸ hc', hpos', .inr ⟨m', hm', hle', hsome'⟩⟩
  · exact .inr ⟨c, hc, hpos, .inl (heq'.trans hnone)⟩
  · rw [hnone] at hc'; cases hc'
  · rw [hnone] at hc'; cases hc'
  · exact .inr ⟨c, hc, hpos, .inr ⟨m, hm, hle, heq'.trans hsome⟩⟩
  · exact .inr ⟨c, hc, hpos, .inl hnone'⟩
  · rw [hsome] at hc'
    cases hc'
    exact .inr ⟨c, hc, hpos, .inr ⟨m', hm', hle'.trans hle, hsome'⟩⟩

/-- A cell that is being released is left alone. -/
theorem dying (hr : Released h h') (hc : h.cell a = some c) (hzero : c.count = 0) : h'.cell a = some c := by
  rcases hr.2 a with heq | ⟨d, hd, hpos, -⟩
  · exact heq.trans hc
  · rw [hc] at hd
    cases hd
    omega

/-- What is left of the cells holds what it held. -/
theorem content (hr : Released h h') (hc : h'.cell a = some c) : ∃ d, h.cell a = some d ∧ c.content = d.content ∧
      (d.count = 0 ↔ c.count = 0) := by
  rcases hr.2 a with heq | ⟨d, hd, hpos, hnone | ⟨m, hm, -, hsome⟩⟩
  · exact ⟨c, heq ▸ hc, rfl, Iff.rfl⟩
  · rw [hnone] at hc; cases hc
  · rw [hsome] at hc
    cases hc
    exact ⟨d, hd, rfl, by simp only; omega⟩

end Released

namespace Counted

/-- Cells that are there have addresses that were given out. -/
theorem lt_next (hcounted : Counted kids own stale kept pend h) (hc : h.cell a = some c) : a < h.next := by
  by_contra hge
  rw [hcounted.fresh a (Nat.not_lt.mp hge)] at hc
  cases hc

/-- A kept cell has a reference besides those that wait. -/
theorem kept_count (hcounted : Counted kids own stale kept pend h) (hkept : kept a) : 1 + pend.count a ≤ h.countOf a := by
  rw [hcounted.count a]
  rcases hcounted.supported a hkept with hown | ⟨p, hp, hedge⟩
  · omega
  · obtain ⟨d, hd, -⟩ := exists_of_countOf (hcounted.pos p hp)
    have hle : edges kids stale h p a ≤ indegree kids stale h a := edges_le_indegree (hcounted.lt_next hd)
    omega

/-- One of several references is gone. -/
theorem decrement (hcounted : Counted kids own stale kept (x :: pend) h) (hc : h.cell x = some c) (htwo : 2 ≤ c.count) :
    Counted kids own stale kept pend (h.set x (some { c with count := c.count - 1 })) := by
  have hx := hcounted.lt_next hc
  have hedges (p a : Nat) : edges kids stale (h.set x (some { c with count := c.count - 1 })) p a = edges kids stale h p a := by
    by_cases hp : p = x
    · rw [hp, edges_some set_cell_self (show 0 < c.count - 1 by omega), edges_some hc (by omega)]
    · exact edges_congr (set_cell_of_ne hp)
  have hindegree (a : Nat) : indegree kids stale (h.set x (some { c with count := c.count - 1 })) a = indegree kids stale h a :=
    Finset.sum_congr rfl fun p _ => hedges p a
  have hcount (a : Nat) : (h.set x (some { c with count := c.count - 1 })).countOf a + (if a = x then 1 else 0) =
      h.countOf a := by
    by_cases ha : a = x
    · rw [ha, countOf_some set_cell_self, countOf_some hc, if_pos rfl]
      simp only
      omega
    · rw [countOf_set_of_ne ha, if_neg ha, Nat.add_zero]
  refine ⟨fun a ha => ?_, fun a => ?_, fun a ha => ?_, fun a ha => ?_, hcounted.stale⟩
  · rw [set_cell_of_ne (by rintro rfl; exact absurd hx (Nat.not_lt.mpr ha))]
    exact hcounted.fresh a ha
  · have hold := hcounted.count a
    have hnew := hcount a
    rw [List.count_cons] at hold
    rw [hindegree]
    by_cases hax : a = x
    · subst hax
      simp only [beq_self_eq_true, if_true] at hold hnew
      omega
    · rw [if_neg hax] at hnew
      rw [if_neg (by simpa using Ne.symm hax)] at hold
      omega
  · have hkept := hcounted.kept_count ha
    have hnew := hcount a
    rw [List.count_cons] at hkept
    by_cases hax : a = x
    · subst hax
      simp only [beq_self_eq_true, if_true] at hkept hnew
      omega
    · rw [if_neg hax] at hnew
      omega
  · simpa only [hedges] using hcounted.supported a ha

/-- The last reference is gone: those in the cell are the next to go. -/
theorem dying (hcounted : Counted kids own stale kept (x :: pend) h) (hc : h.cell x = some c) (hone : c.count = 1) :
    Counted kids own stale kept (kids c.content ++ pend) (h.set x (some { c with count := 0 })) := by
  have hx := hcounted.lt_next hc
  have hnot : ¬ kept x := by
    intro hkept
    have hle := hcounted.kept_count hkept
    rw [countOf_some hc, hone, List.count_cons_self] at hle
    omega
  have hstale (a : Nat) : stale x a = 0 := by
    by_contra hne
    exact hnot (hcounted.stale x a (Nat.pos_of_ne_zero hne))
  have hgone (a : Nat) : edges kids stale (h.set x (some { c with count := 0 })) x a = 0 := edges_dying set_cell_self rfl
  have hedges (a : Nat) : edges kids stale h x a = (kids c.content).count a := by
    rw [edges_some hc (by omega), hstale, Nat.sub_zero]
  refine ⟨fun a ha => ?_, fun a => ?_, fun a ha => ?_, fun a ha => ?_, hcounted.stale⟩
  · rw [set_cell_of_ne (by rintro rfl; exact absurd hx (Nat.not_lt.mpr ha))]
    exact hcounted.fresh a ha
  · have hold := hcounted.count a
    have hsum : indegree kids stale (h.set x (some { c with count := 0 })) a + edges kids stale h x a =
        indegree kids stale h a + edges kids stale (h.set x (some { c with count := 0 })) x a := indegree_set hx _
    rw [hgone, hedges] at hsum
    rw [List.count_cons] at hold
    rw [List.count_append]
    by_cases hax : a = x
    · subst hax
      rw [countOf_some set_cell_self]
      rw [countOf_some hc, hone] at hold
      simp only [beq_self_eq_true, if_true] at hold
      simp only
      omega
    · rw [countOf_set_of_ne hax]
      rw [if_neg (by simpa using Ne.symm hax)] at hold
      omega
  · rw [countOf_set_of_ne (by rintro rfl; exact hnot ha)]
    exact hcounted.pos a ha
  · refine (hcounted.supported a ha).imp id ?_
    rintro ⟨p, hp, hedge⟩
    refine ⟨p, hp, ?_⟩
    rwa [edges_congr (set_cell_of_ne (by rintro rfl; exact hnot hp))]

/-- A cell whose references are released is freed. -/
theorem free (hcounted : Counted kids own stale kept pend h) (hc : h.cell x = some c) (hzero : c.count = 0) :
    Counted kids own stale kept pend (h.set x none) := by
  have hedges (p a : Nat) : edges kids stale (h.set x none) p a = edges kids stale h p a := by
    by_cases hp : p = x
    · rw [hp, edges_none set_cell_self, edges_dying hc hzero]
    · exact edges_congr (set_cell_of_ne hp)
  have hcount (a : Nat) : (h.set x none).countOf a = h.countOf a := by
    by_cases ha : a = x
    · rw [ha, countOf_none set_cell_self, countOf_some hc, hzero]
    · exact countOf_set_of_ne ha
  refine ⟨fun a ha => ?_, fun a => ?_, fun a ha => ?_, fun a ha => ?_, hcounted.stale⟩
  · by_cases hax : a = x
    · rw [hax]
      exact set_cell_self
    · rw [set_cell_of_ne hax]
      exact hcounted.fresh a ha
  · rw [hcount, hcounted.count a, show indegree kids stale (h.set x none) a = indegree kids stale h a from Finset.sum_congr rfl
      fun p _ => hedges p a]
  · rw [hcount]
    exact hcounted.pos a ha
  · simpa only [hedges] using hcounted.supported a ha

end Counted

/-- A reference that waits is released: no cell is used that is freed, the counts stay right, and the kept cells stay. -/
theorem release_spec (n : Nat) : ∀ {h : Cells γ} {x : Nat} {pend : List Nat}, Counted kids own stale kept (x :: pend)
      h → h.total ≤ n → ∃ h', release kids n h x = some h' ∧ Counted kids own stale kept pend h' ∧ Released h h' ∧
      h'.total ≤ h.total := by
  induction n with
  | zero =>
    intro h x pend hcounted hle
    have hcount := hcounted.count x
    rw [List.count_cons_self] at hcount
    obtain ⟨c, hc, -⟩ := exists_of_countOf (show 0 < h.countOf x by omega)
    have := countOf_le_total (hcounted.lt_next hc)
    omega
  | succ n ih =>
    intro h x pend hcounted hle
    have hcount := hcounted.count x
    rw [List.count_cons_self] at hcount
    obtain ⟨c, hc, hcx⟩ := exists_of_countOf (show 0 < h.countOf x by omega)
    have hx := hcounted.lt_next hc
    have htotal := total_set hx (some { c with count := c.count - 1 })
    rw [countOf_some set_cell_self, hcx] at htotal
    simp only at htotal
    have hpos : 0 < c.count := by omega
    by_cases hone : c.count = 1
    · have hdying := hcounted.dying hc hone
      have hset : (some { c with count := c.count - 1 } : Option (Cell γ)) = some { c with count := 0 } := by rw [hone]
      -- the references of the cell, one after the other
      have hloop : ∀ (ks : List Nat) {h : Cells γ}, Counted kids own stale kept (ks ++ pend) h → h.total ≤ n →
          ∃ h', ks.foldlM (release kids n) h = some h' ∧ Counted kids own stale kept pend h' ∧ Released h h' ∧
          h'.total ≤ h.total := by
        intro ks
        induction ks with
        | nil => intro h hcounted _; exact ⟨h, rfl, hcounted, .refl h, Nat.le_refl _⟩
        | cons k ks ihks =>
          intro h hcounted hle
          obtain ⟨h₁, hrelease, hcounted₁, hreleased₁, hle₁⟩ := ih hcounted hle
          obtain ⟨h₂, hfold, hcounted₂, hreleased₂, hle₂⟩ := ihks hcounted₁ (hle₁.trans hle)
          exact ⟨h₂, by rw [List.foldlM_cons, hrelease]; exact hfold, hcounted₂, hreleased₁.trans hreleased₂, hle₂.trans hle₁⟩
      rw [hset] at htotal
      obtain ⟨h₂, hfold, hcounted₂, hreleased₂, hle₂⟩ := hloop _ hdying (by omega)
      have hx₂ := hreleased₂.dying set_cell_self rfl
      have htotal₂ := total_set (hcounted₂.lt_next hx₂) none
      rw [countOf_none set_cell_self, countOf_some hx₂] at htotal₂
      refine ⟨h₂.set x none, ?_, hcounted₂.free hx₂ rfl, ⟨hreleased₂.1, fun a => ?_⟩, by simp only at htotal₂; omega⟩
      · simp [release, hc, hone, hfold]
      · by_cases ha : a = x
        · rw [ha]
          exact .inr ⟨c, hc, hpos, .inl set_cell_self⟩
        · rw [set_cell_of_ne ha, ← set_cell_of_ne (h := h) (c := some { c with count := 0 }) ha]
          exact hreleased₂.2 a
    · refine ⟨_, ?_, hcounted.decrement hc (by omega), ⟨rfl, fun a => ?_⟩, by omega⟩
      · simp [release, hc, hone, hpos]
      · by_cases ha : a = x
        · rw [ha]
          exact .inr ⟨c, hc, hpos, .inr ⟨c.count - 1, by omega, by omega, set_cell_self⟩⟩
        · exact .inl (set_cell_of_ne ha)

/-! ## Cells at rest -/

/-- The cells that one can get at: with a reference from outside, or in such a cell; `through` are the cells that may be
looked into. -/
inductive Reachable (kids : γ → List Nat) (own : Nat → Nat) (through : Nat → Prop) (h : Cells γ) : Nat → Prop where
  | own {a : Nat} (hown : 0 < own a) : Reachable kids own through h a
  | child {p a : Nat} {c : Cell γ} (hp : Reachable kids own through h p) (hthrough : through p) (hc : h.cell p = some c)
      (hmem : a ∈ kids c.content) : Reachable kids own through h a

/-- The counts are right while nothing is being released: a cell is there as long as there is a reference to it. -/
structure Balanced (kids : γ → List Nat) (own : Nat → Nat) (h : Cells γ) : Prop where
  counted : Counted kids own (fun _ _ => 0) (fun _ => False) [] h
  pos : ∀ a c, h.cell a = some c → 0 < c.count

/-- A cell that one can get at can be got at without looking into it. -/
theorem Reachable.avoid (hp : Reachable kids own (fun _ => True) h p) : Reachable kids own (· ≠ p) h p := by
  have hall : ∀ {a : Nat}, Reachable kids own (fun _ => True) h a → Reachable kids own (· ≠ p) h a ∨
      Reachable kids own (· ≠ p) h p := by
    intro a ha
    induction ha with
    | own hown => exact .inl (.own hown)
    | @child q a c _ _ hc hmem ih =>
      rcases ih with hq | hp
      · by_cases hqp : q = p
        · exact .inr (hqp ▸ hq)
        · exact .inl (.child hq hqp hc hmem)
      · exact .inr hp
  exact (hall hp).elim id id

/-- A reference that is made stale does not count any more. -/
theorem indegree_stale (hpos : ∀ q d, h.cell q = some d → 0 < d.count) (hc : h.cell p = some c) (hp : p < h.next)
    (hb : b ∈ kids c.content) (a : Nat) :
    indegree kids (fun q d => if q = p ∧ d = b then 1 else 0) h a + (if a = b then 1 else 0) =
      indegree kids (fun _ _ => 0) h a := by
  have hmem : p ∈ Finset.range h.next := Finset.mem_range.mpr hp
  have hrest : ∑ q ∈ (Finset.range h.next).erase p, edges kids (fun q d => if q = p ∧ d = b then 1 else 0) h q a =
      ∑ q ∈ (Finset.range h.next).erase p, edges kids (fun _ _ => 0) h q a :=
    Finset.sum_congr rfl fun q hq => by
      have hne := Finset.ne_of_mem_erase hq
      simp [edges, hne]
  rw [indegree, indegree, ← Finset.add_sum_erase _ _ hmem,
    ← Finset.add_sum_erase _ (fun q => edges kids (fun _ _ => 0) h q a) hmem, hrest, edges_some hc (hpos p c hc),
    edges_some hc (hpos p c hc)]
  by_cases hab : a = b
  · have hone : 0 < (kids c.content).count a := List.count_pos_iff.mpr (hab ▸ hb)
    rw [if_pos ⟨rfl, hab⟩, if_pos hab]
    omega
  · rw [if_neg (fun hand => hab hand.2), if_neg hab, Nat.add_zero]

namespace Balanced

theorem empty : Balanced kids (fun _ => 0) (Cells.empty : Cells γ) := by
  refine ⟨⟨fun _ _ => rfl, fun a => ?_, fun _ hkept => hkept.elim, fun _ hkept => hkept.elim, fun _ _ hstale =>
    absurd hstale (Nat.lt_irrefl 0)⟩, ?_⟩
  · simp [countOf, Cells.empty, indegree]
  · rintro _ _ ⟨⟩

/-- In balance no reference is stale. -/
theorem edges_eq (hbalanced : Balanced kids own h) (hc : h.cell p = some c) (a : Nat) :
    edges kids (fun _ _ => 0) h p a = (kids c.content).count a := by
  rw [edges_some hc (hbalanced.pos p c hc), Nat.sub_zero]

/-- In balance a count is the number of references owned and held. -/
theorem count (hbalanced : Balanced kids own h) (a : Nat) : h.countOf a = own a + indegree kids (fun _ _ => 0) h a := by
  have hcount := hbalanced.counted.count a
  rwa [List.count_nil, Nat.add_zero] at hcount

/-- In balance a cell is there exactly if it is counted. -/
theorem isSome_iff (hbalanced : Balanced kids own h) (a : Nat) : (h.cell a).isSome ↔ 0 < h.countOf a := by
  constructor
  · intro hsome
    obtain ⟨c, hc⟩ := Option.isSome_iff_exists.mp hsome
    rw [countOf_some hc]
    exact hbalanced.pos a c hc
  · intro hpos
    obtain ⟨c, hc, -⟩ := exists_of_countOf hpos
    rw [hc]
    rfl

/-- What one can get at is there. -/
theorem reachable (hbalanced : Balanced kids own h) {through : Nat → Prop} (ha : Reachable kids own through h a) :
    ∃ c, h.cell a = some c := by
  rw [← Option.isSome_iff_exists, hbalanced.isSome_iff, hbalanced.count]
  cases ha with
  | own hown => omega
  | child _ _ hc hmem =>
    have hle : edges kids (fun _ _ => 0) h _ a ≤ indegree kids (fun _ _ => 0) h a :=
      edges_le_indegree (hbalanced.counted.lt_next hc)
    rw [hbalanced.edges_eq hc] at hle
    have := List.count_pos_iff.mpr hmem
    omega

/-- A new cell has one reference, from outside, and holds none. -/
theorem alloc (hbalanced : Balanced kids own h) {content : γ} (hnone : kids content = []) :
    Balanced kids (fun a => own a + if a = h.next then 1 else 0) (h.alloc content) ∧ (h.alloc content).total = h.total + 1 := by
  have hnext : h.cell h.next = none := hbalanced.counted.fresh h.next (Nat.le_refl _)
  have hself : (h.alloc content).cell h.next = some ⟨1, content⟩ := by simp [Cells.alloc]
  have hother (a : Nat) (ha : a ≠ h.next) : (h.alloc content).cell a = h.cell a := by simp [Cells.alloc, ha]
  have hcountOf (a : Nat) (ha : a ≠ h.next) : (h.alloc content).countOf a = h.countOf a := by rw [countOf, countOf, hother a ha]
  have hne {p : Nat} (hp : p ∈ Finset.range h.next) : p ≠ h.next := Nat.ne_of_lt (Finset.mem_range.mp hp)
  have hindegree (a : Nat) : indegree kids (fun _ _ => 0) (h.alloc content) a = indegree kids (fun _ _ => 0) h a := by
    have hzero : edges kids (fun _ _ => 0) (h.alloc content) h.next a = 0 := by
      rw [edges_some hself Nat.one_pos, hnone]
      rfl
    rw [indegree, show (h.alloc content).next = h.next + 1 from rfl, Finset.sum_range_succ, hzero, Nat.add_zero]
    exact Finset.sum_congr rfl fun p hp => edges_congr (hother p (hne hp))
  refine ⟨⟨⟨fun a ha => ?_, fun a => ?_, fun _ hkept => hkept.elim, fun _ hkept => hkept.elim, fun _ _ hstale =>
    absurd hstale (Nat.lt_irrefl 0)⟩, ?_⟩, ?_⟩
  · have hlt : h.next < a := ha
    rw [hother a (by omega)]
    exact hbalanced.counted.fresh a (by omega)
  · have hcount := hbalanced.count a
    rw [hindegree, List.count_nil, Nat.add_zero]
    by_cases ha : a = h.next
    · subst ha
      rw [countOf_none hnext] at hcount
      rw [countOf_some hself, if_pos rfl]
      simp only
      omega
    · rw [hcountOf a ha, if_neg ha]
      omega
  · intro a c hc
    by_cases ha : a = h.next
    · rw [ha, hself] at hc
      cases hc
      exact Nat.one_pos
    · rw [hother a ha] at hc
      exact hbalanced.pos a c hc
  · rw [total, show (h.alloc content).next = h.next + 1 from rfl, Finset.sum_range_succ, countOf_some hself,
      Finset.sum_congr rfl fun a ha => hcountOf a (hne ha)]
    rfl

/-- One more reference from outside. -/
theorem grab (hbalanced : Balanced kids own h) (hc : h.cell x = some c) :
    Balanced kids (fun a => own a + if a = x then 1 else 0) (h.set x (some { c with count := c.count + 1 })) ∧
      (h.set x (some { c with count := c.count + 1 })).total = h.total + 1 := by
  have hx := hbalanced.counted.lt_next hc
  have hedges (p a : Nat) : edges kids (fun _ _ => 0) (h.set x (some { c with count := c.count + 1 })) p a =
      edges kids (fun _ _ => 0) h p a := by
    by_cases hp : p = x
    · rw [hp, edges_some set_cell_self (Nat.succ_pos _), edges_some hc (hbalanced.pos x c hc)]
    · exact edges_congr (set_cell_of_ne hp)
  refine ⟨⟨⟨fun a ha => ?_, fun a => ?_, fun _ hkept => hkept.elim, fun _ hkept => hkept.elim, fun _ _ hstale =>
    absurd hstale (Nat.lt_irrefl 0)⟩, ?_⟩, ?_⟩
  · rw [set_cell_of_ne (by rintro rfl; exact absurd hx (Nat.not_lt.mpr ha))]
    exact hbalanced.counted.fresh a ha
  · have hcount := hbalanced.count a
    rw [List.count_nil, Nat.add_zero, show indegree kids (fun _ _ => 0) (h.set x (some { c with count := c.count + 1 })) a =
      indegree kids (fun _ _ => 0) h a from Finset.sum_congr rfl fun p _ => hedges p a]
    by_cases ha : a = x
    · subst ha
      rw [countOf_some hc] at hcount
      rw [countOf_some set_cell_self, if_pos rfl]
      simp only
      omega
    · rw [countOf_set_of_ne ha, if_neg ha]
      omega
  · intro a d hd
    by_cases ha : a = x
    · rw [ha, set_cell_self] at hd
      cases hd
      exact Nat.succ_pos _
    · rw [set_cell_of_ne ha] at hd
      exact hbalanced.pos a d hd
  · have htotal := total_set hx (some { c with count := c.count + 1 })
    rw [countOf_some hc, countOf_some set_cell_self] at htotal
    simp only at htotal
    omega

/-- After a release, cells that are there have counts. -/
theorem pos_released (hpos : ∀ a c, h.cell a = some c → 0 < c.count) (hreleased : Released h h') :
    ∀ a c, h'.cell a = some c → 0 < c.count := by
  intro a c hc
  obtain ⟨d, hd, -, hzero⟩ := hreleased.content hc
  have := hpos a d hd
  omega

/-- A reference from outside is released. -/
theorem release (hbalanced : Balanced kids own h) (hown : 0 < own x) (hle : h.total ≤ n) :
    ∃ h', Cells.release kids n h x = some h' ∧ Balanced kids (fun a => own a - if a = x then 1 else 0) h' ∧
      h'.total ≤ h.total := by
  have hcounted : Counted kids (fun a => own a - if a = x then 1 else 0) (fun _ _ => 0) (fun _ => False) [x] h := by
    refine ⟨hbalanced.counted.fresh, fun a => ?_, fun _ hkept => hkept.elim, fun _ hkept => hkept.elim, fun _ _ hstale =>
      absurd hstale (Nat.lt_irrefl 0)⟩
    rw [hbalanced.count a, List.count_singleton]
    by_cases ha : a = x
    · subst ha
      simp only [if_true, beq_self_eq_true]
      omega
    · rw [if_neg ha, if_neg (by simpa using Ne.symm ha)]
      omega
  obtain ⟨h', hrelease, hcounted', hreleased, hle'⟩ := release_spec n hcounted hle
  exact ⟨h', hrelease, ⟨hcounted', pos_released hbalanced.pos hreleased⟩, hle'⟩

/-- A cell is given other references: those that it has lost do not count already, and those that it has got come from outside. -/
theorem store {own' : Nat → Nat} {content : γ} (hcounted : Counted kids own stale kept [] h)
    (hpos : ∀ a c, h.cell a = some c → 0 < c.count) (hc : h.cell p = some c) (hstale : ∀ q a, q ≠ p → stale q a = 0)
    (hcount : ∀ a, (kids content).count a + own' a = (kids c.content).count a - stale p a + own a) :
    Balanced kids own' (h.set p (some { c with content := content })) ∧
      (h.set p (some { c with content := content })).total = h.total := by
  have hp := hcounted.lt_next hc
  have hedges (a : Nat) : indegree kids (fun _ _ => 0) (h.set p (some { c with content := content }))
      a + ((kids c.content).count a - stale p a) = indegree kids stale h a + (kids content).count a := by
    have hmem : p ∈ Finset.range h.next := Finset.mem_range.mpr hp
    have hrest : ∑ q ∈ (Finset.range h.next).erase p,
          edges kids (fun _ _ => 0) (h.set p (some { c with content := content })) q a =
        ∑ q ∈ (Finset.range h.next).erase p, edges kids stale h q a :=
      Finset.sum_congr rfl fun q hq => by
        have hne := Finset.ne_of_mem_erase hq
        rw [edges_congr (set_cell_of_ne hne)]
        simp only [edges, hstale q a hne]
    have hpnew : edges kids (fun _ _ => 0) (h.set p (some { c with content := content })) p a = (kids content).count a :=
      edges_some set_cell_self (hpos p c hc)
    rw [indegree, indegree, set_next, ← Finset.add_sum_erase _ _ hmem,
      ← Finset.add_sum_erase _ (fun q => edges kids stale h q a) hmem, hrest, hpnew, edges_some hc (hpos p c hc)]
    omega
  refine ⟨⟨⟨fun a ha => ?_, fun a => ?_, fun _ hkept => hkept.elim, fun _ hkept => hkept.elim, fun _ _ hzero =>
    absurd hzero (Nat.lt_irrefl 0)⟩, ?_⟩, ?_⟩
  · rw [set_cell_of_ne (by rintro rfl; exact absurd hp (Nat.not_lt.mpr ha))]
    exact hcounted.fresh a ha
  · have hsame : (h.set p (some { c with content := content })).countOf a = h.countOf a := by
      by_cases ha : a = p
      · rw [ha, countOf_some set_cell_self, countOf_some hc]
      · exact countOf_set_of_ne ha
    have hold := hcounted.count a
    have hnew := hedges a
    have hsum := hcount a
    rw [hsame, List.count_nil]
    rw [List.count_nil] at hold
    omega
  · intro a d hd
    by_cases ha : a = p
    · rw [ha, set_cell_self] at hd
      cases hd
      exact hpos p c hc
    · rw [set_cell_of_ne ha] at hd
      exact hpos a d hd
  · have htotal := total_set hp (some { c with content := content })
    rw [countOf_some hc, countOf_some set_cell_self] at htotal
    simp only at htotal
    omega

/-- A reference in a cell that one can get at is released while it is still written there: the cell stays. -/
theorem release_stale (hbalanced : Balanced kids own h) (hp : Reachable kids own (fun _ => True) h p) (hc : h.cell p = some c)
    (hb : b ∈ kids c.content) (hle : h.total ≤ n) :
    ∃ h' m, Cells.release kids n h b = some h' ∧
      Counted kids own (fun q d => if q = p ∧ d = b then 1 else 0) (Reachable kids own (· ≠ p) h) [] h' ∧
      Released h h' ∧ h'.total ≤ h.total ∧ h'.cell p = some { c with count := m } := by
  have hplt := hbalanced.counted.lt_next hc
  have hcounted : Counted kids own (fun q d => if q = p ∧ d = b then 1 else 0) (Reachable kids own (· ≠ p) h) [b] h := by
    refine ⟨hbalanced.counted.fresh, fun a => ?_, fun a ha => ?_, fun a ha => ?_, fun q d hstale => ?_⟩
    · have hstale := indegree_stale hbalanced.pos hc hplt hb a
      rw [hbalanced.count a, List.count_singleton, ← hstale]
      by_cases ha : a = b
      · subst ha
        simp only [if_true, beq_self_eq_true]
        omega
      · rw [if_neg ha, if_neg (by simpa using Ne.symm ha), Nat.add_zero, Nat.add_zero]
    · obtain ⟨d, hd⟩ := hbalanced.reachable ha
      rw [countOf_some hd]
      exact hbalanced.pos a d hd
    · cases ha with
      | own hown => exact .inl hown
      | @child q _ d hq hne hd hmem =>
        refine .inr ⟨q, hq, ?_⟩
        rw [edges_some hd (hbalanced.pos q d hd), if_neg (fun hand => hne hand.1), Nat.sub_zero]
        exact List.count_pos_iff.mpr hmem
    · by_cases hand : q = p ∧ d = b
      · exact hand.1 ▸ hp.avoid
      · rw [if_neg hand] at hstale
        exact absurd hstale (Nat.lt_irrefl 0)
  obtain ⟨h', hrelease, hcounted', hreleased, hle'⟩ := release_spec n hcounted hle
  obtain ⟨d, hd, -⟩ := exists_of_countOf (hcounted'.pos p hp.avoid)
  refine ⟨h', d.count, hrelease, hcounted', hreleased, hle', ?_⟩
  obtain ⟨c', hc', hcontent, -⟩ := hreleased.content hd
  rw [hc] at hc'
  cases hc'
  rw [hd, ← hcontent]

end Balanced

end Cells

end Pixel845
