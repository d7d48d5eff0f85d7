import Pixel845.Lib.Linked
import Pixel845.Lib.Probe

/-!
# The hash table of json-c

`linkhash.c`: an open hash table whose entries are also a doubly linked list in the order of insertion. A pointer to an entry is
the index of the entry in `table`. A step gives `none` where the code divides by zero, follows a `NULL` pointer, overflows an
`int` or never ends. What `calloc` does when there is no memory (`lh_abort`) is left out, and so are the counters that nothing
reads and the callback that frees an entry's key and value.
-/

namespace Pixel845.Json

variable {κ ν : Type}

/-- `struct lh_entry`; a value is a pointer that can be `NULL`. -/
structure Entry (κ ν : Type) where
  k : Slot κ
  v : Option ν
  next : Option Nat
  prev : Option Nat

/-- `struct lh_table`. -/
structure Table (κ ν : Type) where
  size : Nat
  count : Nat
  head : Option Nat
  tail : Option Nat
  table : Nat → Entry κ ν

namespace Table

/-- The keys of the entries. -/
def slots (t : Table κ ν) (n : Nat) : Slot κ := (t.table n).k

/-- What the entries name as the next one. -/
def nexts (t : Table κ ν) (n : Nat) : Option Nat := (t.table n).next

/-- What the entries name as the one before. -/
def prevs (t : Table κ ν) (n : Nat) : Option Nat := (t.table n).prev

/-- A change of one entry. -/
def setEntry (t : Table κ ν) (n : Nat) (f : Entry κ ν → Entry κ ν) : Table κ ν :=
  { t with table := Function.update t.table n (f (t.table n)) }

/-- A store to `next` of an entry that a pointer names. -/
def setNext (t : Table κ ν) (p : Option Nat) (q : Option Nat) : Option (Table κ ν) :=
  p.map fun n => t.setEntry n fun e => { e with next := q }

/-- A store to `prev` of an entry that a pointer names. -/
def setPrev (t : Table κ ν) (p : Option Nat) (q : Option Nat) : Option (Table κ ν) :=
  p.map fun n => t.setEntry n fun e => { e with prev := q }

end Table

/-- `lh_table_new`. -/
def lhTableNew (size : Nat) : Table κ ν where
  size := size
  count := 0
  head := none
  tail := none
  table := fun _ => { k := .empty, v := none, next := none, prev := none }

/-- The entry at the slot that has room: it becomes the last of the list. -/
def lhTablePlace (t : Table κ ν) (n : Nat) (k : κ) (v : Option ν) : Option (Table κ ν) :=
  let t := { t.setEntry n (fun e => { e with k := .full k, v := v }) with count := t.count + 1 }
  match t.head with
  | none => some { t.setEntry n (fun e => { e with next := none, prev := none }) with head := some n, tail := some n }
  | some _ => do
    let t ← t.setNext t.tail (some n)
    let t := t.setEntry n fun e => { e with prev := t.tail }
    let t := t.setEntry n fun e => { e with next := none }
    some { t with tail := some n }

/-- What `lh_table_insert` does once there is room; the loop that looks for room goes on for ever when one round finds none. -/
def lhTablePut (hash : κ → Nat) (t : Table κ ν) (k : κ) (v : Option ν) : Option (Table κ ν) := do
  guard (t.size ≠ 0)
  let n ← findRoom t.slots t.size t.size (hash k % t.size)
  lhTablePlace t n k v

/-- A round of the loop of `lh_table_resize`, where `insert` is `lh_table_insert`: a key that is no key cannot be hashed. -/
def lhTableMove (insert : Table κ ν → κ → Option ν → Option (Table κ ν)) (t newT : Table κ ν) (ent : Nat) : Option (Table κ ν) :=
  match t.slots ent with
  | .full k => insert newT k (t.table ent).v
  | .empty | .freed => none

/-- `lh_table_resize`. A list that goes round never ends. -/
def lhTableResize (insert : Table κ ν → κ → Option ν → Option (Table κ ν)) (t : Table κ ν) (newSize : Nat) :
    Option (Table κ ν) := do
  let ents ← walk t.nexts t.size t.head
  let newT ← ents.foldlM (lhTableMove insert t) (lhTableNew newSize)
  some { t with table := newT.table, size := newSize, head := newT.head, tail := newT.tail }

/-- `INT_MAX`. -/
def intMax : Nat := 2147483647

/-- `lh_table_insert`, with as many resizes inside one another as given. The load factor is 0.66. -/
def lhTableInsert (hash : κ → Nat) : Nat → Table κ ν → κ → Option ν → Option (Table κ ν)
  | resizes, t, k, v =>
    if 66 * t.size ≤ 100 * t.count then
      match resizes with
      | 0 => none
      | resizes + 1 => do
        guard (t.size * 2 ≤ intMax)
        let t ← lhTableResize (lhTableInsert hash resizes) t (t.size * 2)
        lhTablePut hash t k v
    else lhTablePut hash t k v

section Lookup

variable [DecidableEq κ]

/-- `lh_table_lookup_entry`. -/
def lhTableLookupEntry (hash : κ → Nat) (t : Table κ ν) (k : κ) : Option (Option Nat) := do
  guard (t.size ≠ 0)
  some (findKey t.slots t.size k t.size (hash k % t.size))

/-- `lh_table_lookup_ex`: whether the key was found, and the value. -/
def lhTableLookupEx (hash : κ → Nat) (t : Table κ ν) (k : κ) : Option (Bool × Option ν) := do
  match ← lhTableLookupEntry hash t k with
  | some e => some (true, (t.table e).v)
  | none => some (false, none)

end Lookup

/-- How `lh_table_delete_entry` takes an entry out of the list. -/
def lhTableUnlink (t : Table κ ν) (n : Nat) : Option (Table κ ν) :=
  if t.tail = some n ∧ t.head = some n then some { t with head := none, tail := none }
  else if t.head = some n then do
    let t ← t.setPrev (t.nexts n) none
    some { t with head := t.nexts n }
  else if t.tail = some n then do
    let t ← t.setNext (t.prevs n) none
    some { t with tail := t.prevs n }
  else do
    let t ← t.setNext (t.prevs n) (t.nexts n)
    t.setPrev (t.nexts n) (t.prevs n)

/-- `lh_table_delete_entry`, for the entry at an index of `table`. -/
def lhTableDeleteEntry (t : Table κ ν) (e : Int) : Option (Int × Table κ ν) :=
  if e < 0 then some (-2, t)
  else
    let n := e.toNat
    match t.slots n with
    | .empty | .freed => some (-1, t)
    | .full _ => do
      let t := { t with count := t.count - 1 }
      let t ← lhTableUnlink (t.setEntry n fun e => { e with k := .freed, v := none }) n
      some (0, t.setEntry n fun e => { e with next := none, prev := none })

/-- `lh_table_delete`. -/
def lhTableDelete [DecidableEq κ] (hash : κ → Nat) (t : Table κ ν) (k : κ) : Option (Int × Table κ ν) := do
  match ← lhTableLookupEntry hash t k with
  | none => some (-1, t)
  | some e => lhTableDeleteEntry t e

/-- `lh_table_length`. -/
def lhTableLength (t : Table κ ν) : Nat := t.count

/-- `lh_foreach`: the keys and values that following `next` from the head meets. -/
def lhForeach (t : Table κ ν) : Option (List (Slot κ × Option ν)) :=
  (walk t.nexts t.size t.head).map fun ents => ents.map fun n => (t.slots n, (t.table n).v)

end Pixel845.Json
