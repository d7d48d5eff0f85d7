import Pixel845.Json.Linkhash

/-!
# The array list of json-c

`arraylist.c`: pointers in an allocated block that grows. A step gives `none` where the code overflows an `int` or looks outside
the block. The slots of a block that has grown are those that memory had, up to where the code clears them. What `calloc` and
`realloc` do when there is no memory is left out, and so is `array_list_sort`.
-/

namespace Pixel845.Json

variable {α : Type}

/-- `struct array_list`: the slots from `array` on, of which `size` are allocated. A slot is a pointer that can be `NULL`. -/
structure ArrayList (α : Type) where
  array : Nat → Option α
  length : Nat
  size : Nat

/-- `ARRAY_LIST_DEFAULT_SIZE`. -/
def arrayListDefaultSize : Nat := 32

/-- `array_list_new`: `calloc` clears the block, and memory goes on behind it. -/
def arrayListNew (memory : Nat → Option α) : ArrayList α where
  array := fun i => if i < arrayListDefaultSize then none else memory i
  length := 0
  size := arrayListDefaultSize

/-- `array_list_get_idx`. -/
def arrayListGetIdx (arr : ArrayList α) (i : Int) : Option (Option α) :=
  if arr.length ≤ i then some none else if i < 0 then none else some (arr.array i.toNat)

/-- `array_list_expand_internal`. -/
def arrayListExpandInternal (arr : ArrayList α) (max : Nat) : Option (ArrayList α) :=
  if max < arr.size then some arr
  else do
    guard (arr.size * 2 ≤ intMax)
    let newSize := if arr.size * 2 < max then max else arr.size * 2
    some { arr with array := fun i => if arr.size ≤ i ∧ i < newSize then none else arr.array i, size := newSize }

/-- `array_list_put_idx`: the pointer that `free_fn` is called with, and the list. -/
def arrayListPutIdx (arr : ArrayList α) (idx : Int) (data : Option α) : Option (Option α × ArrayList α) := do
  guard (0 ≤ idx ∧ idx < intMax)
  let idx := idx.toNat
  let arr ← arrayListExpandInternal arr (idx + 1)
  guard (idx < arr.size)
  some (arr.array idx, { arr with
    array := Function.update arr.array idx data, length := if arr.length ≤ idx then idx + 1 else arr.length })

/-- `array_list_add`. -/
def arrayListAdd (arr : ArrayList α) (data : Option α) : Option (Option α × ArrayList α) := arrayListPutIdx arr arr.length data

/-- `array_list_length`. -/
def arrayListLength (arr : ArrayList α) : Nat := arr.length

/-- `array_list_free`: the pointers that `free_fn` is called with. -/
def arrayListFree (arr : ArrayList α) : List α := ((List.range arr.length).map arr.array).reduceOption

/-- The calls on an array list. -/
inductive ArrayCall (α : Type) where
  | putIdx (idx : Int) (data : Option α)
  | add (data : Option α)
  | getIdx (i : Int)
  | length

/-- What the calls answer. -/
inductive ArrayReply (α : Type) where
  | freed (old : Option α)
  | got (data : Option α)
  | length (n : Nat)
deriving DecidableEq

/-- A call on an array list. -/
def arrayStep (arr : ArrayList α) : ArrayCall α → Option (ArrayReply α × ArrayList α)
  | .putIdx idx data => (arrayListPutIdx arr idx data).map fun (old, arr) => (.freed old, arr)
  | .add data => (arrayListAdd arr data).map fun (old, arr) => (.freed old, arr)
  | .getIdx i => (arrayListGetIdx arr i).map fun data => (.got data, arr)
  | .length => some (.length (arrayListLength arr), arr)

/-- A list with a value at an index: behind its end, `NULL` comes in between. -/
def listPut (l : List (Option α)) (idx : Nat) (data : Option α) : List (Option α) :=
  if idx < l.length then l.set idx data else l ++ List.replicate (idx - l.length) none ++ [data]

/-- What a call is for. -/
def listStep (l : List (Option α)) : ArrayCall α → ArrayReply α × List (Option α)
  | .putIdx idx data => (.freed l[idx.toNat]?.join, listPut l idx.toNat data)
  | .add data => (.freed none, l ++ [data])
  | .getIdx i => (.got l[i.toNat]?.join, l)
  | .length => (.length l.length, l)

/-- As many slots as a list may have: a larger block can overflow its size. -/
def maxSlots : Nat := 1073741823

/-- An index that the calls may have: none is below zero or too large. -/
def ArrayCall.InRange (l : List (Option α)) : ArrayCall α → Prop
  | .putIdx idx _ => 0 ≤ idx ∧ idx < maxSlots
  | .add _ => l.length < maxSlots
  | .getIdx i => 0 ≤ i
  | .length => True

/-- Calls one after the other. -/
def arrayRun : ArrayList α → List (ArrayCall α) → Option (List (ArrayReply α) × ArrayList α)
  | arr, [] => some ([], arr)
  | arr, call :: calls => do
    let (reply, arr) ← arrayStep arr call
    let (replies, arr) ← arrayRun arr calls
    some (reply :: replies, arr)

/-- What calls one after the other are for. -/
def listRun : List (Option α) → List (ArrayCall α) → List (ArrayReply α) × List (Option α)
  | l, [] => ([], l)
  | l, call :: calls =>
    let (reply, l) := listStep l call
    let (replies, l) := listRun l calls
    (reply :: replies, l)

/-- Each call has an index that it may have. -/
def InRange : List (Option α) → List (ArrayCall α) → Prop
  | _, [] => True
  | l, call :: calls => call.InRange l ∧ InRange (listStep l call).2 calls

end Pixel845.Json
