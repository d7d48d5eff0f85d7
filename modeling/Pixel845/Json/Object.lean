import Pixel845.Json.Linkhash
import Pixel845.Lib.OrderedMap

/-!
# JSON objects

The functions of `json_object.c` on the fields of an object, over the hash table that keeps them, and what they are for: a map
from names to values that keeps the order in which the names came. The reference counts of the values are left out here.
-/

namespace Pixel845.Json

variable {κ ν : Type}

/-- `JSON_OBJECT_DEF_HASH_ENTRIES`. -/
def jsonObjectDefHashEntries : Nat := 16

/-- `json_object_new_object`. -/
def jsonObjectNewObject : Table κ ν := lhTableNew jsonObjectDefHashEntries

variable [DecidableEq κ]

/-- `json_object_object_add`. -/
def jsonObjectObjectAdd (hash : κ → Nat) (resizes : Nat) (t : Table κ ν) (key : κ) (val : Option ν) : Option (Table κ ν) := do
  match ← lhTableLookupEntry hash t key with
  | none => lhTableInsert hash resizes t key val
  | some e => some (t.setEntry e fun ent => { ent with v := val })

/-- `json_object_object_get_ex`. -/
def jsonObjectObjectGetEx (hash : κ → Nat) (t : Table κ ν) (key : κ) : Option (Bool × Option ν) := lhTableLookupEx hash t key

/-- `json_object_object_del`. -/
def jsonObjectObjectDel (hash : κ → Nat) (t : Table κ ν) (key : κ) : Option (Table κ ν) := (lhTableDelete hash t key).map Prod.snd

/-- `json_object_object_length`. -/
def jsonObjectObjectLength (t : Table κ ν) : Nat := lhTableLength t

/-- The calls on an object. -/
inductive ObjectCall (κ ν : Type) where
  | add (key : κ) (val : Option ν)
  | del (key : κ)
  | get (key : κ)
  | length
  | foreach

/-- What the calls answer. -/
inductive ObjectReply (κ ν : Type) where
  | done
  | found (isFound : Bool) (val : Option ν)
  | length (n : Nat)
  | entries (ents : List (Slot κ × Option ν))
deriving DecidableEq

/-- A call on the table of an object. -/
def objectStep (hash : κ → Nat) (resizes : Nat) (t : Table κ ν) : ObjectCall κ ν → Option (ObjectReply κ ν × Table κ ν)
  | .add key val => (jsonObjectObjectAdd hash resizes t key val).map fun t => (.done, t)
  | .del key => (jsonObjectObjectDel hash t key).map fun t => (.done, t)
  | .get key => (jsonObjectObjectGetEx hash t key).map fun r => (.found r.1 r.2, t)
  | .length => some (.length (jsonObjectObjectLength t), t)
  | .foreach => (lhForeach t).map fun ents => (.entries ents, t)

/-- Calls one after the other. -/
def objectRun (hash : κ → Nat) (resizes : Nat) : Table κ ν → List (ObjectCall κ ν) → Option (List (ObjectReply κ ν) × Table κ ν)
  | t, [] => some ([], t)
  | t, call :: calls => do
    let (reply, t) ← objectStep hash resizes t call
    let (replies, t) ← objectRun hash resizes t calls
    some (reply :: replies, t)

/-- What a call is for. -/
def fieldsStep (m : OrderedMap κ (Option ν)) : ObjectCall κ ν → ObjectReply κ ν × OrderedMap κ (Option ν)
  | .add key val => (.done, m.add key val)
  | .del key => (.done, m.del key)
  | .get key => (.found (m.get key).isSome (m.get key).join, m)
  | .length => (.length m.length, m)
  | .foreach => (.entries (m.entries.map fun e => (.full e.1, e.2)), m)

/-- What calls one after the other are for. -/
def fieldsRun : OrderedMap κ (Option ν) → List (ObjectCall κ ν) → List (ObjectReply κ ν) × OrderedMap κ (Option ν)
  | m, [] => ([], m)
  | m, call :: calls =>
    let (reply, m) := fieldsStep m call
    let (replies, m) := fieldsRun m calls
    (reply :: replies, m)

/-- The most fields that calls make a map have before one of them. -/
def fieldsPeak : OrderedMap κ (Option ν) → List (ObjectCall κ ν) → Nat
  | _, [] => 0
  | m, call :: calls => max m.length (fieldsPeak (fieldsStep m call).2 calls)

end Pixel845.Json
