import Pixel845.Json.Arraylist
import Pixel845.Lib.OrderedMap
import Pixel845.Lib.RefCount

/-!
# The reference counts of json-c

The functions of `json_object.c` that make objects, count the references to them and put them into one another. An address names
an object; a pointer can be `NULL`. A step gives `none` where the code uses an object that is freed, takes one for another type,
or overflows a count.
-/

namespace Pixel845.Json

variable {κ : Type}

/-- What an object holds: a value without other objects in it, the pointers of an array, or the fields of an object. -/
inductive Contents (κ : Type) where
  | value
  | array (vals : List (Option Nat))
  | object (fields : OrderedMap κ (Option Nat))

/-- The objects that `array_list_free` and `lh_table_free` release. -/
def Contents.refs : Contents κ → List Nat
  | .value => []
  | .array vals => vals.reduceOption
  | .object fields => (fields.entries.map Prod.snd).reduceOption

/-- The objects at their addresses. -/
abbrev Objects (κ : Type) : Type := Cells (Contents κ)

/-- `json_object_get`. -/
def jsonObjectGet (h : Objects κ) : Option Nat → Option (Objects κ)
  | none => some h
  | some jso => do
    let c ← h.cell jso
    guard (c.count < intMax)
    some (h.set jso (some { c with count := c.count + 1 }))

/-- `json_object_put`, with as many deletions inside one another as given: whether the object was freed. -/
def jsonObjectPut (depth : Nat) (h : Objects κ) : Option Nat → Option (Bool × Objects κ)
  | none => some (false, h)
  | some jso => do
    let c ← h.cell jso
    let h ← h.release Contents.refs depth jso
    some (c.count = 1, h)

/-- An entry of an object or an array is put, and then its place is given to another one. -/
def replaceEntry (depth : Nat) (h : Objects κ) (jso : Nat) (existing : Option Nat) (store : Contents κ → Option (Contents κ)) :
    Option (Objects κ) := do
  let (_, h) ← jsonObjectPut depth h existing
  let c ← h.cell jso
  let content ← store c.content
  some (h.set jso (some { c with content := content }))

/-- A pointer in an array, as `array_list_put_idx` puts it there. -/
def Contents.putIdx (idx : Nat) (val : Option Nat) : Contents κ → Option (Contents κ)
  | .array vals => some (.array (listPut vals idx val))
  | .value | .object _ => none

/-- `json_object_array_put_idx`. -/
def jsonObjectArrayPutIdx (depth : Nat) (h : Objects κ) (jso idx : Nat) (val : Option Nat) : Option (Objects κ) := do
  let c ← h.cell jso
  match c.content with
  | .array vals => replaceEntry depth h jso vals[idx]?.join (Contents.putIdx idx val)
  | .value | .object _ => none

/-- `json_object_array_add`. -/
def jsonObjectArrayAdd (depth : Nat) (h : Objects κ) (jso : Nat) (val : Option Nat) : Option (Objects κ) := do
  let c ← h.cell jso
  match c.content with
  | .array vals => jsonObjectArrayPutIdx depth h jso vals.length val
  | .value | .object _ => none

section Fields

variable [DecidableEq κ]

/-- A field of an object, as `json_object_object_add` stores it. -/
def Contents.addField (key : κ) (val : Option Nat) : Contents κ → Option (Contents κ)
  | .object fields => some (.object (fields.add key val))
  | .value | .array _ => none

/-- The other fields of an object. -/
def Contents.delField (key : κ) : Contents κ → Option (Contents κ)
  | .object fields => some (.object (fields.del key))
  | .value | .array _ => none

/-- `json_object_object_add`: the value that a key had is put. -/
def jsonObjectAddRef (depth : Nat) (h : Objects κ) (jso : Nat) (key : κ) (val : Option Nat) : Option (Objects κ) := do
  let c ← h.cell jso
  match c.content with
  | .object fields => replaceEntry depth h jso (fields.get key).join (Contents.addField key val)
  | .value | .array _ => none

/-- `json_object_object_del`: `json_object_lh_entry_free` puts the value. -/
def jsonObjectDelRef (depth : Nat) (h : Objects κ) (jso : Nat) (key : κ) : Option (Objects κ) := do
  let c ← h.cell jso
  match c.content with
  | .object fields => replaceEntry depth h jso (fields.get key).join (Contents.delField key)
  | .value | .array _ => none

end Fields

/-- The calls of a program on its objects. -/
inductive RefCall (κ : Type) where
  | newValue
  | newArray
  | newObject
  | get (jso : Option Nat)
  | put (jso : Option Nat)
  | arrayPutIdx (jso idx : Nat) (val : Option Nat)
  | arrayAdd (jso : Nat) (val : Option Nat)
  | objectAdd (jso : Nat) (key : κ) (val : Option Nat)
  | objectDel (jso : Nat) (key : κ)

/-- A program: the objects, and how many references to each it owns. -/
structure Client (κ : Type) where
  objects : Objects κ
  own : Nat → Nat

/-- A program that starts has no objects. -/
def Client.start : Client κ := { objects := .empty, own := fun _ => 0 }

/-- A pointer as references: one, or none for `NULL`. -/
def pointed (p : Option Nat) (a : Nat) : Nat := if p = some a then 1 else 0

variable [DecidableEq κ]

/-- A call on the objects. -/
def refStep (depth : Nat) (h : Objects κ) : RefCall κ → Option (Objects κ)
  | .newValue => some (h.alloc .value)
  | .newArray => some (h.alloc (.array []))
  | .newObject => some (h.alloc (.object .empty))
  | .get jso => jsonObjectGet h jso
  | .put jso => (jsonObjectPut depth h jso).map Prod.snd
  | .arrayPutIdx jso idx val => jsonObjectArrayPutIdx depth h jso idx val
  | .arrayAdd jso val => jsonObjectArrayAdd depth h jso val
  | .objectAdd jso key val => jsonObjectAddRef depth h jso key val
  | .objectDel jso key => jsonObjectDelRef depth h jso key

/-- What the program owns after a call: it gets a reference to a new object and with `json_object_get`, and gives one away with
`json_object_put` and with a value that is put into another object. -/
def ownAfter (s : Client κ) : RefCall κ → Nat → Nat
  | .newValue, a | .newArray, a | .newObject, a => s.own a + pointed (some s.objects.next) a
  | .get jso, a => s.own a + pointed jso a
  | .put jso, a => s.own a - pointed jso a
  | .arrayPutIdx _ _ val, a | .arrayAdd _ val, a | .objectAdd _ _ val, a => s.own a - pointed val a
  | .objectDel _ _, a => s.own a

/-- A call of a program. -/
def clientStep (depth : Nat) (s : Client κ) (call : RefCall κ) : Option (Client κ) :=
  (refStep depth s.objects call).map fun h => { objects := h, own := ownAfter s call }

/-- Calls one after the other. -/
def clientRun (depth : Nat) (s : Client κ) (calls : List (RefCall κ)) : Option (Client κ) := calls.foldlM (clientStep depth) s

/-- What the program can get at: what it owns, and what is in such an object. -/
def Client.Sees (s : Client κ) (jso : Nat) : Prop := s.objects.Reachable Contents.refs s.own (fun _ => True) jso

/-- The references to an object that are in arrays and objects. -/
def Client.held (s : Client κ) (jso : Nat) : Nat :=
  ∑ p ∈ Finset.range s.objects.next, ((s.objects.cell p).map fun c => c.content.refs.count jso).getD 0

/-- No object is inside itself. -/
def Client.Acyclic (s : Client κ) : Prop := ∃ rank : Nat → Nat, ∀ p c a, s.objects.cell p = some c → a ∈ c.content.refs →
      rank a < rank p

/-- The pointer is `NULL`, or the program owns a reference to the object. -/
def Client.Owns (s : Client κ) (p : Option Nat) : Prop := ∀ a, p = some a → 0 < s.own a

/-- An array that the program can get at. -/
def Client.SeesArray (s : Client κ) (jso : Nat) : Prop := s.Sees jso ∧ ∃ c vals, s.objects.cell jso = some c ∧
      c.content = .array vals

/-- An object with fields that the program can get at. -/
def Client.SeesObject (s : Client κ) (jso : Nat) : Prop := s.Sees jso ∧ ∃ c fields, s.objects.cell jso = some c ∧
      c.content = .object fields

/-- What `json_object.h` asks of a call: it is about objects that the program can get at, and gives away what the program owns. -/
def Client.Permits (s : Client κ) : RefCall κ → Prop
  | .newValue | .newArray | .newObject => True
  | .get jso => ∀ a, jso = some a → s.Sees a
  | .put jso => s.Owns jso
  | .arrayPutIdx jso _ val | .arrayAdd jso val => s.SeesArray jso ∧ s.Owns val
  | .objectAdd jso _ val => s.SeesObject jso ∧ s.Owns val
  | .objectDel jso _ => s.SeesObject jso

/-- Each call is one that `json_object.h` permits. -/
def Obeys (depth : Nat) : Client κ → List (RefCall κ) → Prop
  | _, [] => True
  | s, call :: calls => s.Permits call ∧ ∀ s', clientStep depth s call = some s' → Obeys depth s' calls

end Pixel845.Json
