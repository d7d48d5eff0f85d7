import Mathlib.Data.List.Nodup

/-!
# Maps that keep the order of insertion

Keys with values, in the order in which the keys came. Adding a key that is there changes its value where it stands; a new key
comes last.
-/

namespace Pixel845

variable {κ ν : Type}

/-- Each key once, with its value. -/
structure OrderedMap (κ ν : Type) where
  entries : List (κ × ν)
  nodup : (entries.map Prod.fst).Nodup

namespace OrderedMap

variable {m : OrderedMap κ ν} {a b : List (κ × ν)} {k k' : κ} {u v : ν}

/-- A map is its entries. -/
@[ext]
theorem ext {m m' : OrderedMap κ ν} (h : m.entries = m'.entries) : m = m' := by
  cases m
  cases m'
  cases h
  rfl

def empty : OrderedMap κ ν := ⟨[], List.nodup_nil⟩

def length (m : OrderedMap κ ν) : Nat := m.entries.length

def keys (m : OrderedMap κ ν) : List κ := m.entries.map Prod.fst

/-- The key of an entry is a key. -/
theorem mem_keys (h : m.entries = a ++ (k, v) :: b) : k ∈ m.keys := by
  rw [keys, h]
  simp

/-- A key has its entry somewhere among the others. -/
theorem exists_of_mem_keys (h : k ∈ m.keys) : ∃ a v b, m.entries = a ++ (k, v) :: b := by
  obtain ⟨⟨k', v⟩, hmem, rfl⟩ := List.mem_map.mp h
  obtain ⟨a, b, hab⟩ := List.append_of_mem hmem
  exact ⟨a, v, b, hab⟩

/-- A key stands nowhere else. -/
theorem ne_of_split (h : m.entries = a ++ (k, v) :: b) : ∀ e ∈ a ++ b, e.1 ≠ k := by
  have hnodup := m.nodup
  rw [h, List.map_append, List.map_cons, List.nodup_middle, List.nodup_cons, ← List.map_append] at hnodup
  exact fun e he heq => hnodup.1 (List.mem_map.mpr ⟨e, he, heq⟩)

/-- A new entry at the end leaves the keys distinct. -/
theorem nodup_concat (h : k ∉ m.keys) (v : ν) : ((m.entries ++ [(k, v)]).map Prod.fst).Nodup := by
  rw [List.map_append, List.nodup_append]
  refine ⟨m.nodup, List.nodup_singleton k, fun x hx y hy heq => h ?_⟩
  have hxk : x = k := heq.trans (List.mem_singleton.mp hy)
  exact hxk ▸ hx

variable [DecidableEq κ]

/-- The value of a key. -/
def get (m : OrderedMap κ ν) (k : κ) : Option ν := (m.entries.find? (·.1 = k)).map Prod.snd

/-- The value of a key, where it stands. -/
def replace (k : κ) (v : ν) (l : List (κ × ν)) : List (κ × ν) := l.map fun e => if e.1 = k then (k, v) else e

/-- Replacing the value of a key that is not there changes nothing. -/
theorem replace_eq_self {l : List (κ × ν)} (h : ∀ e ∈ l, e.1 ≠ k) : replace k v l = l := by
  induction l with
  | nil => rfl
  | cons e l ih =>
    have hrest := ih fun e' he' => h e' (List.mem_cons_of_mem e he')
    rw [replace] at hrest ⊢
    rw [List.map_cons, if_neg (h e List.mem_cons_self), hrest]

/-- Replacing a value leaves the keys. -/
theorem map_fst_replace (l : List (κ × ν)) : (replace k v l).map Prod.fst = l.map Prod.fst := by
  rw [replace, List.map_map]
  refine List.map_congr_left fun e _ => ?_
  by_cases he : e.1 = k <;> simp [he]

/-- The keys stay distinct when a value is replaced. -/
theorem nodup_replace (m : OrderedMap κ ν) (k : κ) (v : ν) : ((replace k v m.entries).map Prod.fst).Nodup := by
  rw [map_fst_replace]
  exact m.nodup

/-- The key with a value: in its place if it is there, and last if it is new. -/
def add (m : OrderedMap κ ν) (k : κ) (v : ν) : OrderedMap κ ν :=
  if h : k ∈ m.keys then ⟨replace k v m.entries, m.nodup_replace k v⟩ else ⟨m.entries ++ [(k, v)], nodup_concat h v⟩

/-- The keys stay distinct when one is deleted. -/
theorem nodup_filter (m : OrderedMap κ ν) (k : κ) : ((m.entries.filter (·.1 ≠ k)).map Prod.fst).Nodup :=
  (List.filter_sublist.map Prod.fst).nodup m.nodup

/-- The other keys. -/
def del (m : OrderedMap κ ν) (k : κ) : OrderedMap κ ν :=
  ⟨m.entries.filter (·.1 ≠ k), m.nodup_filter k⟩

/-- The value of a key is that of its entry. -/
theorem get_of_split (h : m.entries = a ++ (k, v) :: b) : m.get k = some v := by
  have hnone : a.find? (·.1 = k) = none := List.find?_eq_none.mpr fun e he => by
    simpa using ne_of_split h e (List.mem_append_left b he)
  simp [get, h, List.find?_append, hnone]

/-- A key that is not there has no value. -/
theorem get_of_notMem (h : k ∉ m.keys) : m.get k = none := by
  have hnone : m.entries.find? (·.1 = k) = none := List.find?_eq_none.mpr fun e he => by
    simpa using fun heq => h (List.mem_map.mpr ⟨e, he, heq⟩)
  rw [get, hnone]
  rfl

/-- A new key goes to the end. -/
theorem add_of_notMem (h : k ∉ m.keys) : (m.add k v).entries = m.entries ++ [(k, v)] := by
  rw [add, dif_neg h]

/-- A key that is there keeps its place. -/
theorem add_of_split (h : m.entries = a ++ (k, u) :: b) : (m.add k v).entries = a ++ (k, v) :: b := by
  have hne := ne_of_split h
  have hkeep : replace k v (a ++ (k, u) :: b) = replace k v a ++ (k, v) :: replace k v b := by simp [replace]
  rw [add, dif_pos (mem_keys h)]
  simp only [h]
  rw [hkeep, replace_eq_self fun e he => hne e (List.mem_append_left b he), replace_eq_self fun e he =>
    hne e (List.mem_append_right a he)]

/-- Deleting a key takes out its entry. -/
theorem del_of_split (h : m.entries = a ++ (k, v) :: b) : (m.del k).entries = a ++ b := by
  have hne := ne_of_split h
  have hsame : (a ++ b).filter (·.1 ≠ k) = a ++ b := List.filter_eq_self.mpr fun e he => by simpa using hne e he
  simp only [del, h, List.filter_append, List.filter_cons] at hsame ⊢
  simpa using hsame

/-- Deleting a key that is not there changes nothing. -/
theorem del_of_notMem (h : k ∉ m.keys) : m.del k = m := by
  ext1
  exact List.filter_eq_self.mpr fun e he => by simpa using fun heq => h (List.mem_map.mpr ⟨e, he, heq⟩)

end OrderedMap

end Pixel845
