import Pixel845.Json.Linkhash
import Pixel845.Lib.OrderedMap
import Mathlib.Data.Fintype.Card

/-!
# Hash table lemmas

`Holds` says which map a hash table holds, in which order. Each operation is described once, by what it does to `Holds`; a table
never has more entries than slots, so a resize never needs another one and a search for room always ends.
-/

namespace Pixel845.Json

variable {κ ν : Type} {t t' : Table κ ν} {hash : κ → Nat} {m : OrderedMap κ (Option ν)} {ids a b : List Nat} {n : Nat} {k : κ}
  {u v : Option ν}

namespace Table

/-- The values of the entries. -/
def vals (t : Table κ ν) (n : Nat) : Option ν := (t.table n).v

/-- The key and the value of an entry. -/
def entryOf (t : Table κ ν) (n : Nat) : Slot κ × Option ν := (t.slots n, t.vals n)

variable {f : Entry κ ν → Entry κ ν}

@[simp] theorem size_setEntry : (t.setEntry n f).size = t.size := rfl
@[simp] theorem count_setEntry : (t.setEntry n f).count = t.count := rfl
@[simp] theorem head_setEntry : (t.setEntry n f).head = t.head := rfl
@[simp] theorem tail_setEntry : (t.setEntry n f).tail = t.tail := rfl

/-- The key of the entry that was set. -/
theorem slots_setEntry : (t.setEntry n f).slots = Function.update t.slots n (f (t.table n)).k := by
  funext i
  by_cases hi : i = n
  · subst hi
    simp [slots, setEntry]
  · simp [slots, setEntry, hi]

/-- The value of the entry that was set. -/
theorem vals_setEntry : (t.setEntry n f).vals = Function.update t.vals n (f (t.table n)).v := by
  funext i
  by_cases hi : i = n
  · subst hi
    simp [vals, setEntry]
  · simp [vals, setEntry, hi]

/-- The link onward of the entry that was set. -/
theorem nexts_setEntry : (t.setEntry n f).nexts = Function.update t.nexts n (f (t.table n)).next := by
  funext i
  by_cases hi : i = n
  · subst hi
    simp [nexts, setEntry]
  · simp [nexts, setEntry, hi]

/-- The link back of the entry that was set. -/
theorem prevs_setEntry : (t.setEntry n f).prevs = Function.update t.prevs n (f (t.table n)).prev := by
  funext i
  by_cases hi : i = n
  · subst hi
    simp [prevs, setEntry]
  · simp [prevs, setEntry, hi]

@[simp] theorem update_slots_self : Function.update t.slots n (t.table n).k = t.slots := Function.update_eq_self n t.slots
@[simp] theorem update_vals_self : Function.update t.vals n (t.table n).v = t.vals := Function.update_eq_self n t.vals
@[simp] theorem update_nexts_self : Function.update t.nexts n (t.table n).next = t.nexts := Function.update_eq_self n t.nexts
@[simp] theorem update_prevs_self : Function.update t.prevs n (t.table n).prev = t.prevs := Function.update_eq_self n t.prevs

/-- The keys and values of other entries do not depend on the one that changes. -/
theorem map_entryOf_congr (hn : n ∉ ids) (hslots : ∀ j, j ≠ n → t'.slots j = t.slots j)
    (hvals : ∀ j, j ≠ n → t'.vals j = t.vals j) : ids.map t'.entryOf = ids.map t.entryOf := by
  refine List.map_congr_left fun j hj => ?_
  have hne : j ≠ n := fun hjn => hn (hjn ▸ hj)
  rw [entryOf, entryOf, hslots j hne, hvals j hne]

end Table

/-- A table holds a map in the entries that its list meets. -/
structure HoldsAt (hash : κ → Nat) (t : Table κ ν) (ids : List Nat) (m : OrderedMap κ (Option ν)) : Prop where
  size_pos : 0 < t.size
  linked : Linked t.nexts t.prevs t.head t.tail ids
  count_eq : t.count = ids.length
  mem_iff : ∀ n, n ∈ ids ↔ n < t.size ∧ ∃ k, t.slots n = .full k
  entries_eq : ids.map t.entryOf = m.entries.map fun e => (.full e.1, e.2)
  probing : Probing t.slots t.size hash

/-- The table holds the map. -/
def Holds (hash : κ → Nat) (t : Table κ ν) (m : OrderedMap κ (Option ν)) : Prop := ∃ ids, HoldsAt hash t ids m

namespace HoldsAt

theorem length_eq (h : HoldsAt hash t ids m) : ids.length = m.length := by
  have hlen := congrArg List.length h.entries_eq
  rwa [List.length_map, List.length_map] at hlen

/-- The entry of a key of the map. -/
theorem split {c d : List (κ × Option ν)} (h : HoldsAt hash t ids m) (hm : m.entries = c ++ (k, v) :: d) :
    ∃ a n b, ids = a ++ n :: b ∧ t.slots n = .full k ∧ t.vals n = v ∧ (a.map t.entryOf = c.map fun e => (.full e.1, e.2)) ∧
      b.map t.entryOf = d.map fun e => (.full e.1, e.2) := by
  have heq := h.entries_eq
  rw [hm, List.map_append, List.map_cons, List.map_eq_append_iff] at heq
  obtain ⟨a, nb, rfl, ha, hnb⟩ := heq
  obtain ⟨n, b, rfl, hn, hb⟩ := List.map_eq_cons_iff.mp hnb
  obtain ⟨hslot, hval⟩ := Prod.mk.inj hn
  exact ⟨a, n, b, rfl, hslot, hval, ha, hb⟩

/-- A key is in the map if a slot has it. -/
theorem mem_keys_iff (h : HoldsAt hash t ids m) : k ∈ m.keys ↔ ∃ n < t.size, t.slots n = .full k := by
  constructor
  · intro hk
    obtain ⟨c, v, d, hm⟩ := m.exists_of_mem_keys hk
    obtain ⟨a, n, b, rfl, hslot, -⟩ := h.split hm
    exact ⟨n, ((h.mem_iff n).mp (by simp)).1, hslot⟩
  · rintro ⟨n, hn, hslot⟩
    have hmem : t.entryOf n ∈ ids.map t.entryOf := List.mem_map_of_mem ((h.mem_iff n).mpr ⟨hn, k, hslot⟩)
    rw [h.entries_eq] at hmem
    obtain ⟨e, he, heq⟩ := List.mem_map.mp hmem
    have hkey : Slot.full e.1 = t.slots n := congrArg Prod.fst heq
    rw [hslot, Slot.full.injEq] at hkey
    exact List.mem_map.mpr ⟨e, he, hkey⟩

/-- The count is at most the size. -/
theorem count_le_size (h : HoldsAt hash t ids m) : t.count ≤ t.size := by
  have hsub : ids ⊆ List.range t.size := fun n hn => List.mem_range.mpr ((h.mem_iff n).mp hn).1
  have hlen := (h.linked.nodup.subperm hsub).length_le
  rwa [List.length_range, ← h.count_eq] at hlen

/-- A slot that no key has, where there are fewer keys than slots. -/
theorem exists_free (h : HoldsAt hash t ids m) (hcount : t.count < t.size) : ∃ n < t.size, ∀ k, t.slots n ≠ .full k := by
  by_contra hall
  push Not at hall
  have hsub : List.range t.size ⊆ ids := fun n hn => (h.mem_iff n).mpr ⟨List.mem_range.mp hn, hall n (List.mem_range.mp hn)⟩
  have hlen := (List.nodup_range.subperm hsub).length_le
  rw [List.length_range, ← h.count_eq] at hlen
  omega

end HoldsAt

/-! ## Searching -/

section Lookup

variable [DecidableEq κ]

/-- A key that is there is found at its entry. -/
theorem HoldsAt.lookupEntry_of_split {c d : List (κ × Option ν)} (h : HoldsAt hash t ids m) (hm : m.entries = c ++ (k, v) :: d) :
    ∃ a n b, ids = a ++ n :: b ∧ lhTableLookupEntry hash t k = some (some n) ∧ t.slots n = .full k ∧ t.vals n = v ∧
      (a.map t.entryOf = c.map fun e => (.full e.1, e.2)) ∧ b.map t.entryOf = d.map fun e => (.full e.1, e.2) := by
  obtain ⟨a, n, b, rfl, hslot, hval, ha, hb⟩ := h.split hm
  have hfind : findKey t.slots t.size k t.size (hash k % t.size) = some n :=
    (h.probing.findKey_eq_some_iff h.size_pos).mpr ⟨((h.mem_iff n).mp (by simp)).1, hslot⟩
  refine ⟨a, n, b, rfl, ?_, hslot, hval, ha, hb⟩
  simp [lhTableLookupEntry, h.size_pos.ne', hfind]

/-- A key that is not there is not found. -/
theorem HoldsAt.lookupEntry_of_notMem (h : HoldsAt hash t ids m) (hk : k ∉ m.keys) : lhTableLookupEntry hash t k = some none := by
  have hfind : findKey t.slots t.size k t.size (hash k % t.size) = none :=
    findKey_eq_none h.size_pos (fun n hn hslot => hk (h.mem_keys_iff.mpr ⟨n, hn, hslot⟩)) t.size
  simp [lhTableLookupEntry, h.size_pos.ne', hfind]

/-- A search by key answers from the map. -/
theorem Holds.lookupEx (h : Holds hash t m) (k : κ) : lhTableLookupEx hash t k = some ((m.get k).isSome, (m.get k).join) := by
  obtain ⟨ids, h⟩ := h
  by_cases hk : k ∈ m.keys
  · obtain ⟨c, v, d, hm⟩ := m.exists_of_mem_keys hk
    obtain ⟨a, n, b, -, hlookup, -, hval, -⟩ := h.lookupEntry_of_split hm
    rw [m.get_of_split hm, lhTableLookupEx, hlookup, ← hval]
    rfl
  · rw [m.get_of_notMem hk, lhTableLookupEx, h.lookupEntry_of_notMem hk]
    rfl

end Lookup

/-- The entries are met in the order of the map. -/
theorem Holds.foreach (h : Holds hash t m) : lhForeach t = some (m.entries.map fun e => (.full e.1, e.2)) := by
  obtain ⟨ids, h⟩ := h
  have hwalk : walk t.nexts t.size t.head = some ids := h.linked.walk_eq (h.count_eq ▸ h.count_le_size)
  rw [lhForeach, hwalk, Option.map_some, ← h.entries_eq]
  rfl

/-- The length is the number of fields. -/
theorem Holds.length (h : Holds hash t m) : lhTableLength t = m.length := by
  obtain ⟨ids, h⟩ := h
  rw [lhTableLength, h.count_eq, h.length_eq]

/-! ## Adding -/

section Place

/-- A first entry. -/
theorem lhTablePlace_of_head_none (hhead : t.head = none) : ∃ t', lhTablePlace t n k v = some t' ∧ t'.size = t.size ∧
      t'.count = t.count + 1 ∧ t'.head = some n ∧ t'.tail = some n ∧ t'.slots = Function.update t.slots n (.full k) ∧
      t'.vals = Function.update t.vals n v ∧
    t'.nexts = Function.update t.nexts n none ∧ t'.prevs = Function.update t.prevs n none := by
  simp only [lhTablePlace, Table.head_setEntry, hhead]
  refine ⟨_, rfl, rfl, rfl, rfl, rfl, ?_, ?_, ?_, ?_⟩ <;> funext i <;> by_cases hi : i = n <;>
    simp [Table.slots, Table.vals, Table.nexts, Table.prevs, Table.setEntry, hi]

/-- An entry behind the last one. -/
theorem lhTablePlace_of_tail {p q : Nat} (hhead : t.head = some p) (htail : t.tail = some q) (hne : q ≠ n) :
    ∃ t', lhTablePlace t n k v = some t' ∧ t'.size = t.size ∧ t'.count = t.count + 1 ∧
      t'.head = t.head ∧ t'.tail = some n ∧ t'.slots = Function.update t.slots n (.full k) ∧
      t'.vals = Function.update t.vals n v ∧
      t'.nexts = Function.update (Function.update t.nexts q (some n)) n none ∧ t'.prevs = Function.update t.prevs n (some q) := by
  simp only [lhTablePlace, Table.setNext, Table.head_setEntry, Table.tail_setEntry, hhead, htail, Option.map_some,
    Option.bind_eq_bind, Option.bind_some]
  refine ⟨_, rfl, rfl, rfl, ?_, rfl, ?_, ?_, ?_, ?_⟩
  · simp
  all_goals
    funext i
    by_cases hi : i = n
    · subst hi
      simp [Table.slots, Table.vals, Table.nexts, Table.prevs, Table.setEntry, hne.symm]
    · by_cases hq : i = q
      · subst hq
        simp [Table.slots, Table.vals, Table.nexts, Table.prevs, Table.setEntry, hi]
      · simp [Table.slots, Table.vals, Table.nexts, Table.prevs, Table.setEntry, hi, hq]

end Place

/-- A new table holds nothing. -/
theorem HoldsAt.new {size : Nat} (hsize : 0 < size) : HoldsAt hash (lhTableNew size : Table κ ν) [] .empty where
  size_pos := hsize
  linked := Linked.nil _ _
  count_eq := rfl
  mem_iff n := by simp [lhTableNew, Table.slots]
  entries_eq := rfl
  probing := Probing.empty size hash

section Add

variable [DecidableEq κ]

/-- An entry at the slot that has room adds a new key to the map. -/
theorem HoldsAt.place (h : HoldsAt hash t ids m) (hk : k ∉ m.keys)
    (hroom : findRoom t.slots t.size t.size (hash k % t.size) = some n) :
    ∃ t', lhTablePlace t n k v = some t' ∧ t'.size = t.size ∧ HoldsAt hash t' (ids ++ [n]) (m.add k v) := by
  obtain ⟨i, -, rfl, hfree, -⟩ := findRoom_eq_some h.size_pos hroom
  generalize hn : (hash k + i) % t.size = n at hroom hfree
  have hlt : n < t.size := hn ▸ Nat.mod_lt _ h.size_pos
  have habsent : ∀ j < t.size, t.slots j ≠ .full k := fun j hj hslot => hk (h.mem_keys_iff.mpr ⟨j, hj, hslot⟩)
  have hnot : n ∉ ids := by
    intro hmem
    obtain ⟨k', hk'⟩ := ((h.mem_iff n).mp hmem).2
    exact hfree k' hk'
  -- what the two ways to link the entry share
  have hholds : ∀ t', t'.size = t.size → t'.count = t.count + 1 → t'.slots = Function.update t.slots n (.full k) →
      t'.vals = Function.update t.vals n v → Linked t'.nexts t'.prevs t'.head t'.tail (ids ++ [n]) →
      HoldsAt hash t' (ids ++ [n]) (m.add k v) := by
    intro t' hsize hcount hslots hvals hlinked
    refine ⟨hsize ▸ h.size_pos, hlinked, by simp [hcount, h.count_eq], ?_, ?_, ?_⟩
    · intro j
      rw [hsize, hslots, List.mem_append, h.mem_iff j, List.mem_singleton]
      by_cases hj : j = n
      · simp [hj, hlt]
      · simp [hj]
    · have hsame : ids.map t'.entryOf = ids.map t.entryOf :=
        Table.map_entryOf_congr hnot (fun j hj => by rw [hslots, Function.update_of_ne hj]) fun j hj => by
          rw [hvals, Function.update_of_ne hj]
      rw [m.add_of_notMem hk, List.map_append, List.map_append, hsame, h.entries_eq]
      simp [Table.entryOf, hslots, hvals]
    · rw [hslots, hsize]
      exact h.probing.fill h.size_pos habsent hroom
  cases hhead : t.head with
  | none =>
    obtain rfl := h.linked.head_eq_none_iff.mp hhead
    obtain ⟨t', hplace, hsize, hcount, hhead', htail', hslots, hvals, hnexts, hprevs⟩ :=
      lhTablePlace_of_head_none (k := k) (v := v) (n := n) hhead
    refine ⟨t', hplace, hsize, hholds t' hsize hcount hslots hvals ?_⟩
    rw [hnexts, hprevs, hhead', htail']
    exact Linked.singleton t.nexts t.prevs n
  | some p =>
    have hlast := h.linked.tail_eq
    cases htail : t.tail with
    | none =>
      rw [htail, eq_comm, List.getLast?_eq_none_iff] at hlast
      rw [h.linked.head_eq, hlast] at hhead
      cases hhead
    | some q =>
      have hq : q ∈ ids := List.mem_of_getLast? (htail ▸ hlast).symm
      obtain ⟨t', hplace, hsize, hcount, hhead', htail', hslots, hvals, hnexts, hprevs⟩ :=
        lhTablePlace_of_tail (n := n) (k := k) (v := v) hhead htail fun hqn => hnot (hqn ▸ hq)
      refine ⟨t', hplace, hsize, hholds t' hsize hcount hslots hvals ?_⟩
      have hlinked := h.linked
      rw [htail] at hlinked
      rw [hnexts, hprevs, hhead', htail']
      exact hlinked.concat hnot

/-- With fewer keys than slots the search for room ends. -/
theorem HoldsAt.put (h : HoldsAt hash t ids m) (hk : k ∉ m.keys) (hcount : t.count < t.size) :
    ∃ t' n, lhTablePut hash t k v = some t' ∧ t'.size = t.size ∧ HoldsAt hash t' (ids ++ [n]) (m.add k v) := by
  obtain ⟨j, hj, hfree⟩ := h.exists_free hcount
  obtain ⟨i, hi, rfl⟩ := exists_slot hj (hash k)
  obtain ⟨n, hroom⟩ := exists_findRoom h.size_pos hi hfree
  obtain ⟨t', hplace, hsize, hholds⟩ := h.place (v := v) hk hroom
  refine ⟨t', n, ?_, hsize, hholds⟩
  simp [lhTablePut, h.size_pos.ne', hroom, hplace]

/-- Below the load factor a key is added without a resize. -/
theorem HoldsAt.insert_of_load (h : HoldsAt hash t ids m) (hk : k ∉ m.keys) (hload : 100 * t.count < 66 * t.size)
    (resizes : Nat) : ∃ t' n, lhTableInsert hash resizes t k v = some t' ∧ t'.size = t.size ∧
      HoldsAt hash t' (ids ++ [n]) (m.add k v) := by
  obtain ⟨t', n, hput, hsize, hholds⟩ := h.put (v := v) hk (by omega)
  refine ⟨t', n, ?_, hsize, hholds⟩
  have hnot : ¬ 66 * t.size ≤ 100 * t.count := by omega
  cases resizes <;> rw [lhTableInsert, if_neg hnot, hput]

/-- The loop of a resize: the entries from one on go to the new table, in their order and without another resize. -/
theorem HoldsAt.resize_loop {m' : OrderedMap κ (Option ν)} {c d : List (κ × Option ν)} (resizes : Nat)
    (h : HoldsAt hash t' ids m') (hm : m.entries = c ++ d) (hm' : m'.entries = c)
    (hb : b.map t.entryOf = d.map fun e => (.full e.1, e.2))
    (hload : 100 * m.length < 66 * t'.size + 100) :
    ∃ newT ids', b.foldlM (lhTableMove (lhTableInsert hash resizes) t) t' = some newT ∧ newT.size = t'.size ∧
      HoldsAt hash newT ids' m := by
  induction d generalizing b c t' m' ids with
  | nil =>
    obtain rfl := List.map_eq_nil_iff.mp hb
    obtain rfl : m' = m := OrderedMap.ext (by rw [hm, hm', List.append_nil])
    exact ⟨t', ids, rfl, rfl, h⟩
  | cons e d ih =>
    obtain ⟨n, b, rfl, hn, hb⟩ := List.map_eq_cons_iff.mp hb
    obtain ⟨hslot, hval⟩ := Prod.mk.inj hn
    have hk : e.1 ∉ m'.keys := by
      intro hmem
      obtain ⟨e', he', heq⟩ := List.mem_map.mp hmem
      exact m.ne_of_split hm e' (List.mem_append_left d (hm' ▸ he')) heq
    have hcount : t'.count = c.length := by rw [h.count_eq, h.length_eq, OrderedMap.length, hm']
    have hlen : c.length < m.length := by rw [OrderedMap.length, hm]; simp
    obtain ⟨t1, j, hinsert, hsize, h1⟩ := h.insert_of_load (v := e.2) hk (by omega) resizes
    obtain ⟨newT, ids', hloop, hsize', h'⟩ :=
      ih h1 (hm.trans (List.append_cons c e d)) (by rw [m'.add_of_notMem hk, hm']) hb (hsize ▸ hload)
    have hval' : (t.table n).v = e.2 := hval
    refine ⟨newT, ids', ?_, hsize'.trans hsize, h'⟩
    simp only [List.foldlM_cons, lhTableMove, hslot, hval', hinsert]
    exact hloop

/-- A resize to a size that the entries do not fill keeps the map. -/
theorem Holds.resize (h : Holds hash t m) (resizes newSize : Nat) (hpos : 0 < newSize)
    (hload : 100 * m.length < 66 * newSize + 100) : ∃ t', lhTableResize (lhTableInsert hash resizes) t newSize = some t' ∧
      t'.size = newSize ∧ Holds hash t' m := by
  obtain ⟨ids, h⟩ := h
  have hwalk : walk t.nexts t.size t.head = some ids := h.linked.walk_eq (h.count_eq ▸ h.count_le_size)
  have hnew : HoldsAt hash (lhTableNew newSize : Table κ ν) [] .empty := HoldsAt.new hpos
  obtain ⟨newT, ids', hloop, hsize, hholds⟩ :=
    hnew.resize_loop (m := m) (c := []) resizes rfl rfl h.entries_eq hload
  have hcount : t.count = newT.count := by rw [h.count_eq, h.length_eq, hholds.count_eq, hholds.length_eq]
  refine ⟨newT, ?_, hsize, ids', hholds⟩
  simp only [lhTableResize, hwalk, Option.bind_eq_bind, Option.bind_some, hloop, hcount]
  exact congrArg some (congrArg (fun s => { newT with size := s }) hsize.symm)

/-- As many entries as a table has room for: from here on doubling the size overflows. -/
def maxEntries : Nat := 708669603

/-- A new key is added, with a resize or without. -/
theorem Holds.insert (h : Holds hash t m) (hk : k ∉ m.keys) (hmax : m.length ≤ maxEntries) (v : Option ν) (resizes : Nat) :
    ∃ t', lhTableInsert hash (resizes + 1) t k v = some t' ∧ Holds hash t' (m.add k v) := by
  have hcount : t.count = m.length := h.length
  by_cases hfull : 66 * t.size ≤ 100 * t.count
  · obtain ⟨ids, h0⟩ := h
    have hpos := h0.size_pos
    have hle := h0.count_le_size
    have hint : t.size * 2 ≤ intMax := by
      unfold maxEntries at hmax
      unfold intMax
      omega
    obtain ⟨t1, hresize, hsize, ids1, h1⟩ := Holds.resize ⟨ids, h0⟩ resizes (t.size * 2) (by omega) (by omega)
    have hcount1 : t1.count = m.length := Holds.length ⟨ids1, h1⟩
    obtain ⟨t', n, hput, -, hholds⟩ := h1.put (v := v) hk (by omega)
    refine ⟨t', ?_, ids1 ++ [n], hholds⟩
    simp [lhTableInsert, if_pos hfull, hint, hresize, hput]
  · obtain ⟨ids, h⟩ := h
    obtain ⟨t', n, hput, -, hholds⟩ := h.insert_of_load (v := v) hk (by omega) (resizes + 1)
    exact ⟨t', hput, ids ++ [n], hholds⟩

/-- Another value for a key that is there. -/
theorem Holds.setValue {c d : List (κ × Option ν)} (h : Holds hash t m) (hm : m.entries = c ++ (k, u) :: d) (v : Option ν) :
    ∃ n, lhTableLookupEntry hash t k = some (some n) ∧ t.vals n = u ∧
      Holds hash (t.setEntry n fun e => { e with v := v }) (m.add k v) := by
  obtain ⟨ids, h⟩ := h
  obtain ⟨a, n, b, rfl, hlookup, hslot, hval, ha, hb⟩ := h.lookupEntry_of_split hm
  have hnodup := h.linked.nodup
  rw [List.nodup_middle, List.nodup_cons] at hnodup
  have hslots : (t.setEntry n fun e => { e with v := v }).slots = t.slots := by rw [Table.slots_setEntry]; simp
  have hvals : (t.setEntry n fun e => { e with v := v }).vals = Function.update t.vals n v := by rw [Table.vals_setEntry]
  have hsame : ∀ l : List Nat, n ∉ l → l.map (t.setEntry n fun e => { e with v := v }).entryOf = l.map t.entryOf := fun l hl =>
    Table.map_entryOf_congr hl (fun j _ => by rw [hslots]) fun j hj => by rw [hvals, Function.update_of_ne hj]
  refine ⟨n, hlookup, hval, a ++ n :: b, h.size_pos, ?_, h.count_eq, ?_, ?_, ?_⟩
  · rw [Table.nexts_setEntry, Table.prevs_setEntry]
    simpa using h.linked
  · rw [hslots]
    exact h.mem_iff
  · rw [m.add_of_split hm, List.map_append, List.map_append, List.map_cons, List.map_cons, ← ha, ← hb,
      hsame a fun hn => hnodup.1 (List.mem_append_left b hn), hsame b fun hn => hnodup.1 (List.mem_append_right a hn)]
    simp [Table.entryOf, hslots, hvals, hslot]
  · rw [hslots]
    exact h.probing

end Add

/-! ## Deleting -/

/-- An entry is taken out of the list: its neighbours name each other. -/
theorem lhTableUnlink_eq (h : Linked t.nexts t.prevs t.head t.tail (a ++ n :: b)) :
    ∃ t', lhTableUnlink t n = some t' ∧ t'.size = t.size ∧ t'.count = t.count ∧ t'.slots = t.slots ∧ t'.vals = t.vals ∧
      t'.head = (a ++ b).head? ∧ t'.tail = (a ++ b).getLast? ∧
      (∀ x, t'.nexts x = if a.getLast? = some x then b.head? else t.nexts x) ∧
      ∀ x, t'.prevs x = if b.head? = some x then a.getLast? else t.prevs x := by
  have hnext : (t.table n).next = b.head? := h.next_eq a n b rfl
  have hprev : (t.table n).prev = a.getLast? := h.prev_eq a n b rfl
  have hhead := h.head_eq
  have htail := h.tail_eq
  have hnodup := h.nodup
  rw [List.nodup_middle, List.nodup_cons, List.mem_append, not_or] at hnodup
  rcases List.eq_nil_or_concat' a with rfl | ⟨a, p, rfl⟩
  · rw [List.nil_append, List.head?_cons] at hhead
    cases b with
    | nil =>
      refine ⟨{ t with head := none, tail := none }, ?_, rfl, rfl, rfl, rfl, rfl, rfl, ?_, ?_⟩
      · rw [lhTableUnlink, if_pos ⟨htail, hhead⟩]
      · simp [Table.nexts]
      · simp [Table.prevs]
    | cons s b =>
      have hlast : t.tail ≠ some n := fun heq => hnodup.1.2 (List.mem_of_getLast? (by simp [← heq, htail]))
      refine ⟨{ t.setEntry s (fun e => { e with prev := none }) with head := some s }, ?_, rfl, rfl, ?_, ?_, rfl, ?_, ?_, ?_⟩
      · have hns : n ≠ s := fun heq => hnodup.1.2 (by simp [heq])
        simp [lhTableUnlink, hlast, hhead, Table.setPrev, Table.nexts, hnext, Table.setEntry, hns]
      · funext i
        by_cases hi : i = s <;> simp [Table.slots, Table.setEntry, hi]
      · funext i
        by_cases hi : i = s <;> simp [Table.vals, Table.setEntry, hi]
      · simp [htail]
      · intro i
        by_cases hi : i = s <;> simp [Table.nexts, Table.setEntry, hi]
      · intro i
        by_cases hi : s = i
        · subst hi
          simp [Table.prevs, Table.setEntry]
        · simp [Table.prevs, Table.setEntry, hi, Ne.symm hi]
  · have hpn : n ≠ p := fun heq => hnodup.1.1 (by simp [heq])
    have hfirst : t.head ≠ some n := fun heq => hnodup.1.1 (List.mem_of_head? (by rw [← heq, hhead]; cases a <;> rfl))
    rw [List.getLast?_concat] at hprev
    cases b with
    | nil =>
      rw [List.getLast?_concat] at htail
      refine ⟨{ t.setEntry p (fun e => { e with next := none }) with tail := some p }, ?_, rfl, rfl, ?_, ?_, ?_, ?_, ?_, ?_⟩
      · simp [lhTableUnlink, htail, hfirst, Table.setNext, Table.prevs, hprev, Table.setEntry, hpn]
      · funext i
        by_cases hi : i = p <;> simp [Table.slots, Table.setEntry, hi]
      · funext i
        by_cases hi : i = p <;> simp [Table.vals, Table.setEntry, hi]
      · rw [List.append_nil]
        exact hhead.trans (by cases a <;> rfl)
      · simp
      · intro i
        by_cases hi : p = i
        · subst hi
          simp [Table.nexts, Table.setEntry]
        · simp [Table.nexts, Table.setEntry, hi, Ne.symm hi]
      · intro i
        by_cases hi : i = p <;> simp [Table.prevs, Table.setEntry, hi]
    | cons s b =>
      have hns : n ≠ s := fun heq => hnodup.1.2 (by simp [heq])
      have hps : p ≠ s := fun heq => by simp [heq, List.nodup_append] at hnodup
      have htail' : t.tail = (s :: b).getLast? := by rw [htail, List.getLast?_append_cons, List.getLast?_cons_cons]
      have hlast : t.tail ≠ some n := fun heq => hnodup.1.2 (List.mem_of_getLast? (htail'.symm.trans heq))
      refine ⟨(t.setEntry p fun e => { e with next := some s }).setEntry s (fun e => { e with prev := some p }), ?_, rfl, rfl, ?_,
        ?_, ?_, ?_, ?_, ?_⟩
      · simp [lhTableUnlink, hlast, hfirst, Table.setNext, Table.setPrev, Table.nexts, Table.prevs, hprev, hnext,
          Table.setEntry, hpn]
      · exact Table.slots_setEntry.trans (Table.update_slots_self.trans (Table.slots_setEntry.trans Table.update_slots_self))
      · exact Table.vals_setEntry.trans (Table.update_vals_self.trans (Table.vals_setEntry.trans Table.update_vals_self))
      · exact hhead.trans (by cases a <;> rfl)
      · rw [Table.tail_setEntry, Table.tail_setEntry, htail', List.getLast?_append_cons]
      · intro i
        rw [Table.nexts_setEntry.trans (Table.update_nexts_self.trans Table.nexts_setEntry), Function.update_apply]
        simp [eq_comm]
      · intro i
        rw [Table.prevs_setEntry, Table.prevs_setEntry, Table.update_prevs_self, Function.update_apply]
        simp [eq_comm]

/-- The entry at an index is deleted with its key. -/
theorem HoldsAt.deleteEntry [DecidableEq κ] {c d : List (κ × Option ν)} (h : HoldsAt hash t (a ++ n :: b) m)
    (hm : m.entries = c ++ (k, v) :: d) (hslot : t.slots n = .full k) (ha : a.map t.entryOf = c.map fun e => (.full e.1, e.2))
    (hb : b.map t.entryOf = d.map fun e => (.full e.1, e.2)) :
    ∃ t', lhTableDeleteEntry t n = some (0, t') ∧ HoldsAt hash t' (a ++ b) (m.del k) := by
  have hnodup := h.linked.nodup
  rw [List.nodup_middle, List.nodup_cons, List.mem_append] at hnodup
  generalize ht1 : ({ t with count := t.count - 1 } : Table κ ν).setEntry n (fun e => { e with k := .freed, v := none }) = t1
  have hslots1 : t1.slots = Function.update t.slots n .freed := ht1 ▸ Table.slots_setEntry
  have hvals1 : t1.vals = Function.update t.vals n none := ht1 ▸ Table.vals_setEntry
  have hnexts1 : t1.nexts = t.nexts := ht1 ▸ Table.nexts_setEntry.trans Table.update_nexts_self
  have hprevs1 : t1.prevs = t.prevs := ht1 ▸ Table.prevs_setEntry.trans Table.update_prevs_self
  have hhead1 : t1.head = t.head := ht1 ▸ rfl
  have htail1 : t1.tail = t.tail := ht1 ▸ rfl
  obtain ⟨t2, hunlink, hsize2, hcount2, hslots2, hvals2, hhead2, htail2, hnexts2, hprevs2⟩ :=
    lhTableUnlink_eq (t := t1) (a := a) (n := n) (b := b) (by rw [hnexts1, hprevs1, hhead1, htail1]; exact h.linked)
  have hsize : t2.size = t.size := hsize2.trans (ht1 ▸ rfl)
  have hcount : t2.count = t.count - 1 := hcount2.trans (ht1 ▸ rfl)
  have hslots : t2.slots = Function.update t.slots n .freed := hslots2.trans hslots1
  have hvals : t2.vals = Function.update t.vals n none := hvals2.trans hvals1
  generalize ht3 : t2.setEntry n (fun e => { e with next := none, prev := none }) = t3
  have hslots3 : t3.slots = Function.update t.slots n .freed :=
    ht3 ▸ (Table.slots_setEntry.trans Table.update_slots_self).trans hslots
  have hvals3 : t3.vals = Function.update t.vals n none := ht3 ▸ (Table.vals_setEntry.trans Table.update_vals_self).trans hvals
  refine ⟨t3, ?_, ?_, ?_, ?_, ?_, ?_, ?_⟩
  · simp [lhTableDeleteEntry, hslot, ht1, hunlink, ht3]
  · rw [← ht3, Table.size_setEntry, hsize]
    exact h.size_pos
  · have hne : ∀ x ∈ a ++ b, x ≠ n := fun x hx hxn => hnodup.1 (List.mem_append.mp (hxn ▸ hx))
    have hhead3 : t3.head = (a ++ b).head? := ht3 ▸ hhead2
    have htail3 : t3.tail = (a ++ b).getLast? := ht3 ▸ htail2
    rw [hhead3, htail3]
    refine h.linked.unlink (fun x hx => ?_) fun x hx => ?_
    · rw [← ht3, Table.nexts_setEntry, Function.update_of_ne (hne x hx), hnexts2, hnexts1]
    · rw [← ht3, Table.prevs_setEntry, Function.update_of_ne (hne x hx), hprevs2, hprevs1]
  · have hcount3 : t3.count = t.count - 1 := ht3 ▸ hcount
    rw [hcount3, h.count_eq]
    simp
  · intro j
    have hsize3 : t3.size = t.size := ht3 ▸ hsize
    have hmem := h.mem_iff j
    rw [hsize3, hslots3]
    by_cases hj : j = n
    · simpa [hj] using hnodup.1
    · rw [Function.update_of_ne hj, ← hmem]
      simp [hj]
  · have hsame : ∀ l : List Nat, n ∉ l → l.map t3.entryOf = l.map t.entryOf := fun l hl =>
      Table.map_entryOf_congr hl (fun j hj => by rw [hslots3, Function.update_of_ne hj]) fun j hj => by
        rw [hvals3, Function.update_of_ne hj]
    rw [m.del_of_split hm, List.map_append, List.map_append, hsame a fun hn => hnodup.1 (.inl hn), hsame b fun hn =>
      hnodup.1 (.inr hn), ha, hb]
  · have hsize3 : t3.size = t.size := ht3 ▸ hsize
    rw [hsize3, hslots3]
    exact h.probing.free n

/-- A key is deleted: the answer says whether it was there. -/
theorem Holds.delete [DecidableEq κ] (h : Holds hash t m) (k : κ) :
    ∃ t', lhTableDelete hash t k = some (if k ∈ m.keys then 0 else -1, t') ∧ Holds hash t' (m.del k) := by
  obtain ⟨ids, h⟩ := h
  by_cases hk : k ∈ m.keys
  · obtain ⟨c, v, d, hm⟩ := m.exists_of_mem_keys hk
    obtain ⟨a, n, b, rfl, hlookup, hslot, -, ha, hb⟩ := h.lookupEntry_of_split hm
    obtain ⟨t', hdel, hholds⟩ := h.deleteEntry hm hslot ha hb
    exact ⟨t', by simp [lhTableDelete, hlookup, hdel, hk], a ++ b, hholds⟩
  · rw [m.del_of_notMem hk]
    exact ⟨t, by simp [lhTableDelete, h.lookupEntry_of_notMem hk, hk], ids, h⟩

end Pixel845.Json
