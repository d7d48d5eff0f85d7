import Pixel845.Json.Arraylist
import Mathlib.Data.List.ReduceOption

/-!
# Arrays

The array list answers as a list does, where a value that is put behind the end has `NULL` in front of it.
-/

namespace Pixel845.Json

variable {α : Type}

namespace JsonArraysAux

variable {arr : ArrayList α} {l : List (Option α)} {data : Option α} {idx n : Nat}

/-- The slots of the block are those of the list, and clear behind its end. -/
structure HoldsList (arr : ArrayList α) (l : List (Option α)) : Prop where
  length : arr.length = l.length
  le : l.length ≤ arr.size
  slots : ∀ i < arr.size, arr.array i = l[i]?.join

/-- A new array list is empty. -/
theorem holdsList_new (memory : Nat → Option α) : HoldsList (arrayListNew memory) [] := by
  refine ⟨rfl, Nat.zero_le _, fun i hi => ?_⟩
  have hclear : (arrayListNew memory).array i = none := if_pos hi
  rw [hclear]
  rfl

theorem length_listPut (l : List (Option α)) (idx : Nat) (data : Option α) :
    (listPut l idx data).length = if l.length ≤ idx then idx + 1 else l.length := by
  unfold listPut
  split
  · rw [if_neg (by omega), List.length_set]
  · rw [if_pos (by omega), List.length_append, List.length_append, List.length_replicate, List.length_singleton]
    omega

/-- The values of a list with a value at an index. -/
theorem getElem_listPut (l : List (Option α)) (idx : Nat) (data : Option α) (i : Nat) :
    (listPut l idx data)[i]?.join = if i = idx then data else l[i]?.join := by
  unfold listPut
  split
  · rename_i hidx
    by_cases hi : i = idx
    · rw [if_pos hi, hi, List.getElem?_set_self hidx, Option.join_some]
    · rw [if_neg hi, List.getElem?_set_ne (Ne.symm hi)]
  · rename_i hidx
    rw [List.append_assoc]
    by_cases hlt : i < l.length
    · rw [List.getElem?_append_left hlt, if_neg (by omega)]
    · rw [List.getElem?_append_right (Nat.le_of_not_lt hlt), List.getElem?_eq_none (Nat.le_of_not_lt hlt)]
      by_cases hbefore : i < idx
      · rw [List.getElem?_append_left (by rw [List.length_replicate]; omega), List.getElem?_replicate, if_pos (by omega),
          if_neg (by omega)]
        rfl
      · rw [List.getElem?_append_right (by rw [List.length_replicate]; omega), List.length_replicate]
        by_cases hi : i = idx
        · rw [if_pos hi, hi, Nat.sub_self]
          rfl
        · rw [if_neg hi, List.getElem?_eq_none (by rw [List.length_singleton]; omega)]

theorem listPut_length (l : List (Option α)) (data : Option α) : listPut l l.length data = l ++ [data] := by
  rw [listPut, if_neg (Nat.lt_irrefl _), Nat.sub_self, List.replicate_zero, List.append_nil]

/-- The block has room for an index, and what it has gained is clear. -/
theorem holdsList_expand (h : HoldsList arr l) (hn : n ≤ maxSlots) :
    ∃ arr', arrayListExpandInternal arr n = some arr' ∧ HoldsList arr' l ∧ n ≤ arr'.size := by
  unfold arrayListExpandInternal
  by_cases hlt : n < arr.size
  · exact ⟨arr, if_pos hlt, h, hlt.le⟩
  · have hle := h.le
    have hdouble : arr.size * 2 ≤ intMax := by unfold maxSlots at hn; unfold intMax; omega
    generalize hsize : (if arr.size * 2 < n then n else arr.size * 2) = newSize
    have hroom : n ≤ newSize ∧ arr.size ≤ newSize := by rw [← hsize]; split <;> omega
    refine ⟨{ arr with array := fun i => if arr.size ≤ i ∧ i < newSize then none else arr.array i, size := newSize }, ?_,
      ⟨h.length, hle.trans hroom.2, fun i hi => ?_⟩, hroom.1⟩
    · rw [if_neg hlt]
      simp [hdouble]
    · by_cases hold : i < arr.size
      · exact (if_neg fun hand => absurd hand.1 (Nat.not_le.mpr hold)).trans (h.slots i hold)
      · rw [List.getElem?_eq_none (by omega)]
        exact if_pos ⟨Nat.le_of_not_lt hold, hi⟩

/-- A pointer is put at an index: the one that was there is freed. -/
theorem holdsList_putIdx (h : HoldsList arr l) (hidx : idx < maxSlots) (data : Option α) :
    ∃ arr', arrayListPutIdx arr idx data = some (l[idx]?.join, arr') ∧ HoldsList arr' (listPut l idx data) := by
  obtain ⟨arr', hexpand, hholds, hroom⟩ := holdsList_expand h (n := idx + 1) hidx
  have hint : (0 : Int) ≤ idx ∧ (idx : Int) < intMax := by unfold maxSlots at hidx; unfold intMax; omega
  refine ⟨{ arr' with
    array := Function.update arr'.array idx data, length := if arr'.length ≤ idx then idx + 1 else arr'.length }, ?_, ?_, ?_, ?_⟩
  · rw [← hholds.slots idx hroom]
    simp [arrayListPutIdx, hint, hexpand, show idx < arr'.size from hroom]
  · rw [length_listPut, ← hholds.length]
  · have hle := hholds.le
    rw [length_listPut]
    simp only
    split <;> omega
  · intro i hi
    rw [getElem_listPut]
    by_cases heq : i = idx
    · rw [if_pos heq, heq]
      exact Function.update_self ..
    · rw [if_neg heq, ← hholds.slots i hi]
      exact Function.update_of_ne heq ..

/-- A call answers as the list does. -/
theorem arrayStep_eq (h : HoldsList arr l) {call : ArrayCall α} (hrange : call.InRange l) :
    ∃ arr', arrayStep arr call = some ((listStep l call).1, arr') ∧ HoldsList arr' (listStep l call).2 := by
  cases call with
  | putIdx idx data =>
    obtain ⟨k, rfl⟩ := Int.eq_ofNat_of_zero_le hrange.1
    obtain ⟨arr', hput, hholds⟩ := holdsList_putIdx h (Int.ofNat_lt.mp hrange.2) data
    exact ⟨arr', by rw [arrayStep, hput]; rfl, hholds⟩
  | add data =>
    obtain ⟨arr', hput, hholds⟩ := holdsList_putIdx h hrange data
    rw [listPut_length] at hholds
    rw [List.getElem?_eq_none (Nat.le_refl _)] at hput
    exact ⟨arr', by rw [arrayStep, arrayListAdd, h.length, hput]; rfl, hholds⟩
  | getIdx i =>
    obtain ⟨k, rfl⟩ := Int.eq_ofNat_of_zero_le hrange
    refine ⟨arr, ?_, h⟩
    rw [arrayStep, arrayListGetIdx, h.length, listStep]
    by_cases hk : l.length ≤ k
    · rw [if_pos (by exact_mod_cast hk), Int.toNat_natCast, List.getElem?_eq_none hk]
      rfl
    · have hlt : k < arr.size := by have := h.le; omega
      rw [if_neg (by exact_mod_cast hk), if_neg (by omega), Int.toNat_natCast, h.slots k hlt]
      rfl
  | length => exact ⟨arr, by rw [arrayStep, arrayListLength, h.length]; rfl, h⟩

/-- Calls one after the other answer as the list does. -/
theorem arrayRun_eq (calls : List (ArrayCall α)) (h : HoldsList arr l) (hrange : InRange l calls) :
    ∃ arr', arrayRun arr calls = some ((listRun l calls).1, arr') ∧ HoldsList arr' (listRun l calls).2 := by
  induction calls generalizing arr l with
  | nil => exact ⟨arr, rfl, h⟩
  | cons call calls ih =>
    obtain ⟨arr₁, hstep, hholds⟩ := arrayStep_eq h hrange.1
    obtain ⟨arr', hrest, hholds'⟩ := ih hholds hrange.2
    exact ⟨arr', by simp [arrayRun, hstep, hrest, listRun], hholds'⟩

/-- The pointers that are freed with the list are those that are in it. -/
theorem arrayListFree_eq (h : HoldsList arr l) : arrayListFree arr = l.reduceOption := by
  rw [arrayListFree, h.length]
  congr 1
  refine List.ext_getElem (by simp) fun i hi hi' => ?_
  have hlt : i < arr.size := hi'.trans_le h.le
  rw [List.getElem_map, List.getElem_range, h.slots i hlt, List.getElem?_eq_getElem hi', Option.join_some]

end JsonArraysAux

open JsonArraysAux in
/-- In every run of calls whose indexes are in range, whatever memory holds behind the block, the array list answers as a list
does, and what is freed with it are the pointers in the list. -/
theorem arrayRun_eq_listRun (memory : Nat → Option α) (calls : List (ArrayCall α)) (hrange : InRange [] calls) :
    ∃ arr, arrayRun (arrayListNew memory) calls = some ((listRun [] calls).1, arr) ∧
      arrayListFree arr = (listRun [] calls).2.reduceOption := by
  obtain ⟨arr, heq, hholds⟩ := arrayRun_eq calls (holdsList_new memory) hrange
  exact ⟨arr, heq, arrayListFree_eq hholds⟩

/-- Pointers that are added, put behind the end, and replaced by `NULL`. -/
theorem arrayRun_eq_listRun_gap :
    ∃ arr, arrayRun (arrayListNew fun _ => some 0) [.add (some 1), .putIdx 40 (some 2), .putIdx 0 none, .getIdx 35] =
        some ((listRun [] [.add (some 1), .putIdx 40 (some 2), .putIdx 0 none, .getIdx 35]).1, arr) ∧
      arrayListFree arr = (listRun [] [.add (some 1), .putIdx 40 (some 2), .putIdx 0 none, .getIdx 35]).2.reduceOption :=
  arrayRun_eq_listRun (fun _ => some 0) [.add (some 1), .putIdx 40 (some 2), .putIdx 0 none, .getIdx 35]
    ⟨Nat.zero_lt_succ _, ⟨by decide, by decide⟩, ⟨by decide, by decide⟩, Int.natCast_nonneg 35, trivial⟩

end Pixel845.Json
