import Pixel845.Json.Object
import Pixel845.Lemmas.JsonTable

/-!
# Objects are maps that keep their order

Whatever the hash function, the calls on an object answer as a map from names to values in the order of insertion does, for as
long as the object has no more than 708669603 fields before a call. No call divides by zero, follows a `NULL` pointer or looks for
room for ever: a table always has fewer entries than slots, through every deletion and resize.
-/

namespace Pixel845.Json

namespace JsonStoreAux

variable {κ ν : Type} {hash : κ → Nat} {t : Table κ ν} {m : OrderedMap κ (Option ν)}

/-- A new object is the empty map. -/
theorem holds_new : Holds hash (jsonObjectNewObject : Table κ ν) .empty := ⟨[], HoldsAt.new (by simp [jsonObjectDefHashEntries])⟩

variable [DecidableEq κ]

/-- A field is added, or gets another value where it stands. -/
theorem holds_add (h : Holds hash t m) (hmax : m.length ≤ maxEntries) (resizes : Nat) (key : κ) (val : Option ν) :
    ∃ t', jsonObjectObjectAdd hash (resizes + 1) t key val = some t' ∧ Holds hash t' (m.add key val) := by
  by_cases hk : key ∈ m.keys
  · obtain ⟨c, u, d, hm⟩ := m.exists_of_mem_keys hk
    obtain ⟨n, hlookup, -, hholds⟩ := h.setValue hm val
    exact ⟨_, by simp [jsonObjectObjectAdd, hlookup], hholds⟩
  · obtain ⟨t', hinsert, hholds⟩ := h.insert hk hmax val resizes
    obtain ⟨ids, h⟩ := h
    exact ⟨t', by simp [jsonObjectObjectAdd, h.lookupEntry_of_notMem hk, hinsert], hholds⟩

/-- One call answers from the map and keeps the table in step with it. -/
theorem holds_step (h : Holds hash t m) (hmax : m.length ≤ maxEntries) (resizes : Nat) (call : ObjectCall κ ν) :
    ∃ t', objectStep hash (resizes + 1) t call = some ((fieldsStep m call).1, t') ∧ Holds hash t' (fieldsStep m call).2 := by
  cases call with
  | add key val =>
    obtain ⟨t', hadd, hholds⟩ := holds_add h hmax resizes key val
    exact ⟨t', by simp [objectStep, fieldsStep, hadd], hholds⟩
  | del key =>
    obtain ⟨t', hdel, hholds⟩ := h.delete key
    exact ⟨t', by simp [objectStep, fieldsStep, jsonObjectObjectDel, hdel], hholds⟩
  | get key => exact ⟨t, by simp [objectStep, fieldsStep, jsonObjectObjectGetEx, h.lookupEx key], h⟩
  | length => exact ⟨t, by simp [objectStep, fieldsStep, jsonObjectObjectLength, h.length], h⟩
  | foreach => exact ⟨t, by simp [objectStep, fieldsStep, h.foreach], h⟩

/-- A run of calls keeps the table in step with the map. -/
theorem holds_run (h : Holds hash t m) (resizes : Nat) (calls : List (ObjectCall κ ν)) (hpeak : fieldsPeak m calls ≤ maxEntries) :
    ∃ t', objectRun hash (resizes + 1) t calls = some ((fieldsRun m calls).1, t') ∧ Holds hash t' (fieldsRun m calls).2 := by
  induction calls generalizing t m with
  | nil => exact ⟨t, rfl, h⟩
  | cons call calls ih =>
    rw [fieldsPeak, max_le_iff] at hpeak
    obtain ⟨t1, hstep, h1⟩ := holds_step h hpeak.1 resizes call
    obtain ⟨t', hrun, h'⟩ := ih h1 hpeak.2
    exact ⟨t', by simp [objectRun, fieldsRun, hstep, hrun], h'⟩

end JsonStoreAux

open JsonStoreAux in
/-- Every run of calls on a new object answers as the map does. -/
theorem objectRun_eq_fieldsRun {κ ν : Type} [DecidableEq κ] (hash : κ → Nat) (resizes : Nat) (calls : List (ObjectCall κ ν))
    (hpeak : fieldsPeak .empty calls ≤ maxEntries) :
    ∃ t, objectRun hash (resizes + 1) jsonObjectNewObject calls = some ((fieldsRun .empty calls).1, t) ∧
      Holds hash t (fieldsRun .empty calls).2 :=
  holds_run holds_new resizes calls hpeak

/-- The rule where all keys have one hash. -/
theorem objectRun_eq_fieldsRun_replaced :
    ∃ t : Table Nat Nat, objectRun (fun _ => 7) 1 jsonObjectNewObject
      [.add 1 (some 10), .add 2 none, .del 1, .add 1 (some 20), .get 2, .foreach] =
        some ([.done, .done, .done, .done, .found true none, .entries [(.full 2, none), (.full 1, some 20)]], t) ∧
      Holds (fun _ => 7) t ((OrderedMap.empty.add 2 none).add 1 (some 20)) :=
  objectRun_eq_fieldsRun (fun _ => 7) 0 [.add 1 (some 10), .add 2 none, .del 1, .add 1 (some 20), .get 2, .foreach] (by decide)

end Pixel845.Json
