import Pixel845.Json.Refs
import Mathlib.Data.List.ReduceOption

/-!
# References

A program that gives away only what it owns never uses an object that is freed, and an object is there as long as there is a
reference to it: an object or an array that is deleted puts what is in it, and an entry that is replaced or deleted is put as
well, while it still stands in its place.
-/

namespace Pixel845.Json

open Cells

variable {κ : Type}

namespace JsonRefsAux

/-! ## Pointers -/

/-- A pointer that is there is counted without the others. -/
theorem count_reduceOption (l : List (Option Nat)) (a : Nat) : l.reduceOption.count a = l.count (some a) := by
  induction l with
  | nil => rfl
  | cons p l ih =>
    cases p with
    | none => rw [List.reduceOption_cons_of_none, List.count_cons_of_ne (by simp), ih]
    | some b => by_cases hba : b = a <;> simp [ih, hba]

/-- A pointer in a list counts once. -/
theorem count_middle (l l' : List (Option Nat)) (p : Option Nat) (a : Nat) :
    (l ++ p :: l').count (some a) = (l ++ l').count (some a) + pointed p a := by
  rw [List.count_append, List.count_cons, List.count_append, pointed]
  by_cases hp : p = some a
  · rw [if_pos hp, if_pos (by simpa using hp), Nat.add_assoc]
  · rw [if_neg hp, if_neg (by simpa using hp), Nat.add_zero, Nat.add_zero]

/-- The pointer that was at the index is gone, and the new one is there. -/
theorem count_listPut (vals : List (Option Nat)) (idx : Nat) (val : Option Nat) (a : Nat) :
    (listPut vals idx val).count (some a) + pointed vals[idx]?.join a = vals.count (some a) + pointed val a := by
  by_cases hidx : idx < vals.length
  · have hsplit : vals = vals.take idx ++ vals[idx] :: vals.drop (idx + 1) := by
      rw [← List.drop_eq_getElem_cons hidx, List.take_append_drop]
    have hold := congrArg (List.count (some a)) hsplit
    rw [count_middle] at hold
    rw [listPut, if_pos hidx, List.set_eq_take_append_cons_drop, if_pos hidx, count_middle, List.getElem?_eq_getElem hidx, hold]
    simp only [Option.join_some]
    omega
  · have hnone : vals[idx]? = none := List.getElem?_eq_none (Nat.le_of_not_lt hidx)
    rw [listPut, if_neg hidx, hnone, count_middle]
    simp [pointed, List.count_replicate]

section Fields

variable [DecidableEq κ] {fields : OrderedMap κ (Option Nat)} {key : κ} {val : Option Nat}

/-- The pointer that a key had is gone, and the new one is there. -/
theorem count_add (fields : OrderedMap κ (Option Nat)) (key : κ) (val : Option Nat) (a : Nat) :
    ((fields.add key val).entries.map Prod.snd).count (some a) + pointed (fields.get key).join a =
      (fields.entries.map Prod.snd).count (some a) + pointed val a := by
  by_cases hkey : key ∈ fields.keys
  · obtain ⟨l, old, l', hsplit⟩ := OrderedMap.exists_of_mem_keys hkey
    rw [OrderedMap.add_of_split hsplit, OrderedMap.get_of_split hsplit, hsplit]
    simp only [List.map_append, List.map_cons, count_middle, Option.join_some]
    omega
  · rw [OrderedMap.add_of_notMem hkey, OrderedMap.get_of_notMem hkey, List.map_append, List.map_singleton, count_middle,
      List.append_nil]
    simp [pointed]

/-- The pointer that a key had is gone. -/
theorem count_del (fields : OrderedMap κ (Option Nat)) (key : κ) (a : Nat) :
    ((fields.del key).entries.map Prod.snd).count (some a) + pointed (fields.get key).join a =
      (fields.entries.map Prod.snd).count (some a) := by
  by_cases hkey : key ∈ fields.keys
  · obtain ⟨l, old, l', hsplit⟩ := OrderedMap.exists_of_mem_keys hkey
    rw [OrderedMap.del_of_split hsplit, OrderedMap.get_of_split hsplit, hsplit]
    simp only [List.map_append, List.map_cons, count_middle, Option.join_some]
  · rw [OrderedMap.del_of_notMem hkey, OrderedMap.get_of_notMem hkey]
    simp [pointed]

/-- A value of a field is referred to. -/
theorem mem_of_get {b : Nat} (hget : (fields.get key).join = some b) : b ∈ Contents.refs (.object fields) := by
  by_cases hkey : key ∈ fields.keys
  · obtain ⟨l, old, l', hsplit⟩ := OrderedMap.exists_of_mem_keys hkey
    rw [OrderedMap.get_of_split hsplit, Option.join_some] at hget
    simp [Contents.refs, hsplit, List.reduceOption_mem_iff, hget]
  · rw [OrderedMap.get_of_notMem hkey] at hget
    cases hget

end Fields

/-- A value of an array is referred to. -/
theorem mem_of_getElem {vals : List (Option Nat)} {idx b : Nat} (hget : vals[idx]?.join = some b) :
    b ∈ (Contents.array vals : Contents κ).refs := by
  cases hval : vals[idx]? with
  | none =>
    rw [hval] at hget
    cases hget
  | some old =>
    rw [hval, Option.join_some] at hget
    exact List.reduceOption_mem_iff.mpr (hget ▸ List.mem_of_getElem? hval)

/-! ## Calls -/

variable {depth : Nat} {s : Client κ} {jso : Nat} {c : Cell (Contents κ)} {existing val : Option Nat} {content : Contents κ}
  {store : Contents κ → Option (Contents κ)}

/-- An entry is replaced: what stood there is put, and what comes there is given away. -/
theorem replaceEntry_spec (hbalanced : Balanced Contents.refs s.own s.objects) (hsees : s.Sees jso)
    (hc : s.objects.cell jso = some c) (hle : s.objects.total ≤ depth) (hstore : store c.content = some content)
    (hexisting : ∀ b, existing = some b → b ∈ c.content.refs)
    (hcount : ∀ a, content.refs.count a + pointed existing a = c.content.refs.count a + pointed val a) (howns : s.Owns val) :
    ∃ h', replaceEntry depth s.objects jso existing store = some h' ∧
      Balanced Contents.refs (fun a => s.own a - pointed val a) h' ∧ h'.total ≤ s.objects.total := by
  have hown (a : Nat) : pointed val a ≤ s.own a := by
    by_cases hval : val = some a
    · rw [pointed, if_pos hval]
      exact howns a hval
    · rw [pointed, if_neg hval]
      exact Nat.zero_le _
  cases existing with
  | none =>
    have hrest : ∀ a, content.refs.count a + (s.own a - pointed val a) = c.content.refs.count a - 0 + s.own a := by
      intro a
      have h₁ := hcount a
      have h₂ := hown a
      simp only [pointed, reduceCtorEq, if_false] at h₁ h₂ ⊢
      omega
    obtain ⟨hbalanced', htotal⟩ := Balanced.store hbalanced.counted hbalanced.pos hc (fun _ _ _ => rfl) hrest
    exact ⟨_, by simp [replaceEntry, jsonObjectPut, hc, hstore], hbalanced', htotal.le⟩
  | some b =>
    have hb := hexisting b rfl
    obtain ⟨h₁, m, hrelease, hcounted, hreleased, hle₁, hc₁⟩ := hbalanced.release_stale hsees hc hb hle
    have hrest : ∀ a, content.refs.count a + (s.own a - pointed val a) =
        c.content.refs.count a - (if jso = jso ∧ a = b then 1 else 0) + s.own a := by
      intro a
      have h₁ := hcount a
      have h₂ := hown a
      by_cases hab : a = b
      · subst hab
        have hpos := List.count_pos_iff.mpr hb
        rw [pointed, if_pos rfl] at h₁
        rw [if_pos ⟨rfl, rfl⟩]
        omega
      · rw [pointed, if_neg (by simpa using Ne.symm hab)] at h₁
        rw [if_neg (fun hand => hab hand.2)]
        omega
    obtain ⟨hbalanced', htotal⟩ := Balanced.store hcounted (Balanced.pos_released hbalanced.pos hreleased) hc₁
      (fun q a hne => if_neg fun hand => hne hand.1) hrest
    obtain ⟨d, hd⟩ := hbalanced.reachable (.child hsees trivial hc hb)
    refine ⟨_, ?_, hbalanced', htotal.le.trans hle₁⟩
    simp [replaceEntry, jsonObjectPut, hd, hrelease, hc₁, hstore]

/-- A pointer counts where it points. -/
theorem pointed_some (b a : Nat) : pointed (some b) a = if a = b then 1 else 0 := by
  by_cases hab : a = b
  · rw [pointed, if_pos (by rw [hab]), if_pos hab]
  · rw [pointed, if_neg (by simpa using Ne.symm hab), if_neg hab]

theorem balanced_congr {h : Objects κ} {own own' : Nat → Nat} (hbalanced : Balanced Contents.refs own h)
    (heq : ∀ a, own' a = own a) : Balanced Contents.refs own' h := by
  obtain rfl : own' = own := funext heq
  exact hbalanced

/-- A pointer is put by the program that owns it. -/
theorem put_spec (hbalanced : Balanced Contents.refs s.own s.objects) (howns : s.Owns existing) (hle : s.objects.total ≤ depth) :
    ∃ r h', jsonObjectPut depth s.objects existing = some (r, h') ∧
      Balanced Contents.refs (fun a => s.own a - pointed existing a) h' ∧ h'.total ≤ s.objects.total := by
  cases existing with
  | none => exact ⟨false, s.objects, rfl, balanced_congr hbalanced fun a => by simp [pointed], Nat.le_refl _⟩
  | some jso =>
    have hown := howns jso rfl
    obtain ⟨h', hrelease, hbalanced', hle'⟩ := hbalanced.release hown hle
    have hsees : s.Sees jso := .own hown
    obtain ⟨c, hc⟩ := hbalanced.reachable hsees
    refine ⟨decide (c.count = 1), h', ?_, balanced_congr hbalanced' fun a => by rw [pointed_some], hle'⟩
    simp only [jsonObjectPut, hc, hrelease, Option.bind_eq_bind, Option.bind_some]

/-- A pointer that the program can get at is got. -/
theorem get_spec (hbalanced : Balanced Contents.refs s.own s.objects) (hsees : ∀ a, existing = some a → s.Sees a)
    (hlt : s.objects.total < intMax) : ∃ h', jsonObjectGet s.objects existing = some h' ∧
      Balanced Contents.refs (fun a => s.own a + pointed existing a) h' ∧ h'.total ≤ s.objects.total + 1 := by
  cases existing with
  | none => exact ⟨s.objects, rfl, balanced_congr hbalanced fun a => by simp [pointed], Nat.le_succ _⟩
  | some jso =>
    obtain ⟨c, hc⟩ := hbalanced.reachable (hsees jso rfl)
    obtain ⟨hbalanced', htotal⟩ := hbalanced.grab hc
    have hle := countOf_le_total (hbalanced.counted.lt_next hc)
    rw [countOf_some hc] at hle
    refine ⟨_, ?_, balanced_congr hbalanced' fun a => by rw [pointed_some], htotal.le⟩
    simp [jsonObjectGet, hc, show c.count < intMax by omega]

/-- The references from an array. -/
theorem count_refs_array (vals : List (Option Nat)) (a : Nat) :
    (Contents.array vals : Contents κ).refs.count a = vals.count (some a) :=
  count_reduceOption vals a

/-- The references from an object. -/
theorem count_refs_object (fields : OrderedMap κ (Option Nat)) (a : Nat) :
    (Contents.refs (.object fields)).count a = (fields.entries.map Prod.snd).count (some a) := count_reduceOption _ a

/-- A pointer is put into an array. -/
theorem arrayPutIdx_spec (hbalanced : Balanced Contents.refs s.own s.objects) (hsees : s.SeesArray jso) (howns : s.Owns val)
    (hle : s.objects.total ≤ depth) (idx : Nat) :
    ∃ h', jsonObjectArrayPutIdx depth s.objects jso idx val = some h' ∧
      Balanced Contents.refs (fun a => s.own a - pointed val a) h' ∧ h'.total ≤ s.objects.total := by
  obtain ⟨hsees, ⟨n, content⟩, vals, hc, rfl⟩ := hsees
  have hstore : Contents.putIdx idx val (.array vals : Contents κ) = some (.array (listPut vals idx val)) := rfl
  have hcount (a : Nat) : (Contents.array (listPut vals idx val) : Contents κ).refs.count a + pointed vals[idx]?.join a =
      (Contents.array vals : Contents κ).refs.count a + pointed val a := by rw [count_refs_array, count_refs_array, count_listPut]
  obtain ⟨h', hreplace, hrest⟩ := replaceEntry_spec hbalanced hsees hc hle hstore (fun b hb => mem_of_getElem hb) hcount howns
  exact ⟨h', by simp only [jsonObjectArrayPutIdx, hc, Option.bind_eq_bind, Option.bind_some, hreplace], hrest⟩

/-- A pointer is put at the end of an array. -/
theorem arrayAdd_spec (hbalanced : Balanced Contents.refs s.own s.objects) (hsees : s.SeesArray jso) (howns : s.Owns val)
    (hle : s.objects.total ≤ depth) :
    ∃ h', jsonObjectArrayAdd depth s.objects jso val = some h' ∧ Balanced Contents.refs (fun a => s.own a - pointed val a) h' ∧
      h'.total ≤ s.objects.total := by
  obtain ⟨c, vals, hc, hcontent⟩ := hsees.2
  obtain ⟨h', hput, hrest⟩ := arrayPutIdx_spec hbalanced hsees howns hle vals.length
  exact ⟨h', by simp only [jsonObjectArrayAdd, hc, hcontent, Option.bind_eq_bind, Option.bind_some, hput], hrest⟩

section Fields

variable [DecidableEq κ]

/-- A field is added to an object. -/
theorem objectAdd_spec (hbalanced : Balanced Contents.refs s.own s.objects) (hsees : s.SeesObject jso) (howns : s.Owns val)
    (hle : s.objects.total ≤ depth) (key : κ) :
    ∃ h', jsonObjectAddRef depth s.objects jso key val = some h' ∧ Balanced Contents.refs (fun a => s.own a - pointed val a) h' ∧
      h'.total ≤ s.objects.total := by
  obtain ⟨hsees, ⟨n, content⟩, fields, hc, rfl⟩ := hsees
  have hstore : Contents.addField key val (.object fields) = some (.object (fields.add key val)) := rfl
  have hcount (a : Nat) : (Contents.refs (.object (fields.add key val))).count a + pointed (fields.get key).join a =
      (Contents.refs (.object fields)).count a + pointed val a := by rw [count_refs_object, count_refs_object, count_add]
  obtain ⟨h', hreplace, hrest⟩ := replaceEntry_spec hbalanced hsees hc hle hstore (fun b hb => mem_of_get hb) hcount howns
  exact ⟨h', by simp only [jsonObjectAddRef, hc, Option.bind_eq_bind, Option.bind_some, hreplace], hrest⟩

/-- A field is deleted from an object. -/
theorem objectDel_spec (hbalanced : Balanced Contents.refs s.own s.objects) (hsees : s.SeesObject jso)
    (hle : s.objects.total ≤ depth) (key : κ) : ∃ h', jsonObjectDelRef depth s.objects jso key = some h' ∧
      Balanced Contents.refs s.own h' ∧ h'.total ≤ s.objects.total := by
  obtain ⟨hsees, ⟨n, content⟩, fields, hc, rfl⟩ := hsees
  have hstore : Contents.delField key (.object fields) = some (.object (fields.del key)) := rfl
  have hcount (a : Nat) : (Contents.refs (.object (fields.del key))).count a + pointed (fields.get key).join a =
      (Contents.refs (.object fields)).count a + pointed none a := by rw [count_refs_object, count_refs_object, count_del]; rfl
  obtain ⟨h', hreplace, hbalanced', hle'⟩ :=
    replaceEntry_spec hbalanced hsees hc hle hstore (fun b hb => mem_of_get hb) hcount (by rintro _ ⟨⟩)
  exact ⟨h', by simp only [jsonObjectDelRef, hc, Option.bind_eq_bind, Option.bind_some, hreplace],
    balanced_congr hbalanced' fun a => by simp [pointed], hle'⟩

/-- A call that `json_object.h` permits comes to an end, and the counts stay right. -/
theorem clientStep_spec (depth : Nat) (hbalanced : Balanced Contents.refs s.own s.objects) {call : RefCall κ}
    (hpermits : s.Permits call) (hle : s.objects.total ≤ depth) (hlt : s.objects.total < intMax) :
    ∃ s', clientStep depth s call = some s' ∧ Balanced Contents.refs s'.own s'.objects ∧
      s'.objects.total ≤ s.objects.total + 1 := by
  have hnew {content : Contents κ} (hnone : content.refs = []) :
      Balanced Contents.refs (fun a => s.own a + pointed (some s.objects.next) a) (s.objects.alloc content) ∧
        (s.objects.alloc content).total ≤ s.objects.total + 1 := by
    obtain ⟨hbalanced', htotal⟩ := hbalanced.alloc hnone
    exact ⟨balanced_congr hbalanced' fun a => by rw [pointed_some], htotal.le⟩
  have hended {own' : Nat → Nat} (hafter : ∀ a, ownAfter s call a = own' a)
      (hstep : ∃ h', refStep depth s.objects call = some h' ∧ Balanced Contents.refs own' h' ∧ h'.total ≤ s.objects.total) :
      ∃ s', clientStep depth s call = some s' ∧ Balanced Contents.refs s'.own s'.objects ∧
      s'.objects.total ≤ s.objects.total + 1 := by
    obtain ⟨h', hstep, hbalanced', hle'⟩ := hstep
    exact ⟨⟨h', ownAfter s call⟩, by rw [clientStep, hstep]; rfl, balanced_congr hbalanced' hafter, hle'.trans (Nat.le_succ _)⟩
  cases call with
  | newValue => exact ⟨_, rfl, hnew rfl⟩
  | newArray => exact ⟨_, rfl, hnew rfl⟩
  | newObject => exact ⟨_, rfl, hnew rfl⟩
  | get jso =>
    obtain ⟨h', hget, hrest⟩ := get_spec hbalanced hpermits hlt
    exact ⟨⟨h', ownAfter s (.get jso)⟩, by rw [clientStep, refStep, hget]; rfl, hrest⟩
  | put jso =>
    obtain ⟨r, h', hput, hrest⟩ := put_spec hbalanced hpermits hle
    exact hended (fun a => rfl) ⟨h', by rw [refStep, hput]; rfl, hrest⟩
  | arrayPutIdx jso idx val => exact hended (fun a => rfl) (arrayPutIdx_spec hbalanced hpermits.1 hpermits.2 hle idx)
  | arrayAdd jso val => exact hended (fun a => rfl) (arrayAdd_spec hbalanced hpermits.1 hpermits.2 hle)
  | objectAdd jso key val => exact hended (fun a => rfl) (objectAdd_spec hbalanced hpermits.1 hpermits.2 hle key)
  | objectDel jso key => exact hended (fun a => rfl) (objectDel_spec hbalanced hpermits hle key)

/-- Calls one after the other. -/
theorem clientRun_spec (calls : List (RefCall κ)) : ∀ {s : Client κ}, Balanced Contents.refs s.own s.objects →
      Obeys depth s calls → s.objects.total + calls.length ≤ depth → s.objects.total + calls.length ≤ intMax →
    ∃ s', clientRun depth s calls = some s' ∧ Balanced Contents.refs s'.own s'.objects := by
  induction calls with
  | nil =>
    intro s hbalanced _ _ _
    exact ⟨s, rfl, hbalanced⟩
  | cons call calls ih =>
    intro s hbalanced hobeys hle hlt
    rw [List.length_cons] at hle hlt
    obtain ⟨s₁, hstep, hbalanced₁, hle₁⟩ := clientStep_spec depth hbalanced hobeys.1 (by omega) (by omega)
    obtain ⟨s', hrun, hbalanced'⟩ := ih hbalanced₁ (hobeys.2 s₁ hstep) (by omega) (by omega)
    exact ⟨s', by rw [clientRun, List.foldlM_cons, hstep]; exact hrun, hbalanced'⟩

end Fields

/-- The references in arrays and objects are the ones that are counted. -/
theorem indegree_eq_held (hbalanced : Balanced Contents.refs s.own s.objects) (a : Nat) :
    indegree Contents.refs (fun _ _ => 0) s.objects a = s.held a := by
  refine Finset.sum_congr rfl fun p _ => ?_
  cases hc : s.objects.cell p with
  | none => rw [edges_none hc]; rfl
  | some c => rw [hbalanced.edges_eq hc]; rfl

/-- If no object is inside itself, the program can get at each: going from an object to one that it is in comes to an end. -/
theorem sees_of_acyclic (hbalanced : Balanced Contents.refs s.own s.objects) (hacyclic : s.Acyclic) :
    ∀ jso c, s.objects.cell jso = some c → s.Sees jso := by
  obtain ⟨rank, hrank⟩ := hacyclic
  have htop (p : Nat) (c : Cell (Contents κ)) (hc : s.objects.cell p = some c) : rank p ≤
    (Finset.range s.objects.next).sup rank :=
    Finset.le_sup (Finset.mem_range.mpr (hbalanced.counted.lt_next hc))
  intro jso c hc
  induction hn : (Finset.range s.objects.next).sup rank - rank jso using Nat.strong_induction_on generalizing jso c with
  | _ n ih =>
    have hpos := (hbalanced.isSome_iff jso).mp (by rw [hc]; rfl)
    rw [hbalanced.count] at hpos
    by_cases hown : 0 < s.own jso
    · exact .own hown
    · have hin : indegree Contents.refs (fun _ _ => 0) s.objects jso ≠ 0 := by omega
      obtain ⟨p, -, hedge⟩ := Finset.exists_ne_zero_of_sum_ne_zero hin
      cases hp : s.objects.cell p with
      | none => exact absurd (edges_none hp) hedge
      | some d =>
        rw [hbalanced.edges_eq hp] at hedge
        have hmem := List.count_pos_iff.mp (Nat.pos_of_ne_zero hedge)
        have hlt := hrank p d jso hp hmem
        exact .child (ih _ (by have := htop p d hp; omega) p d hp rfl) trivial hp hmem

/-- A call that is permitted, in front of others that are. -/
theorem obeys_cons [DecidableEq κ] {call : RefCall κ} {calls : List (RefCall κ)} {s' : Client κ} (hpermits : s.Permits call)
    (hstep : clientStep depth s call = some s') (hobeys : Obeys depth s' calls) : Obeys depth s (call :: calls) := by
  refine ⟨hpermits, fun s'' hstep' => ?_⟩
  rw [hstep] at hstep'
  cases hstep'
  exact hobeys

end JsonRefsAux

open JsonRefsAux in
/-- In every run in which the program gives away only references that it owns and touches only objects that it can get at, no call
uses an object that has been freed, each count is that of the references there are, an object is there while it has one, and
unless an object is inside itself the program can get at everything that is there. -/
theorem references_counted [DecidableEq κ] (depth : Nat) (calls : List (RefCall κ)) (hobeys : Obeys depth Client.start calls)
    (hdepth : calls.length ≤ depth) (hlength : calls.length ≤ intMax) :
    ∃ s, clientRun depth Client.start calls = some s ∧ (∀ jso, s.objects.countOf jso = s.own jso + s.held jso) ∧
      (∀ jso, (s.objects.cell jso).isSome ↔ 0 < s.own jso + s.held jso) ∧
      (s.Acyclic → ∀ jso c, s.objects.cell jso = some c → s.Sees jso) := by
  have hzero : (Client.start : Client κ).objects.total = 0 := rfl
  obtain ⟨s, hrun, hbalanced⟩ := clientRun_spec calls Balanced.empty hobeys (by omega) (by omega)
  have hcount (jso : Nat) : s.objects.countOf jso = s.own jso + s.held jso := by rw [hbalanced.count, indegree_eq_held hbalanced]
  exact ⟨s, hrun, hcount, fun jso => by rw [hbalanced.isSome_iff, hcount], sees_of_acyclic hbalanced⟩

/-- An object with an array that holds a value: the array is replaced by the value, which the program has got before. -/
def replacesArray : List (RefCall (List UInt8)) :=
  [.newObject, .newArray, .newValue, .objectAdd 0 [107] (some 1), .arrayAdd 1 (some 2), .get (some 2),
    .objectAdd 0 [107] (some 2), .put (some 0)]

open JsonRefsAux in
/-- The array and its other references are gone when it has been replaced. -/
theorem references_counted_replaced :
    ∃ s, clientRun 8 Client.start replacesArray = some s ∧ (∀ jso, s.objects.countOf jso = s.own jso + s.held jso) ∧
      (∀ jso, (s.objects.cell jso).isSome ↔ 0 < s.own jso + s.held jso) ∧
      (s.Acyclic → ∀ jso c, s.objects.cell jso = some c → s.Sees jso) :=
  references_counted 8 replacesArray
    (obeys_cons trivial rfl <| obeys_cons trivial rfl <| obeys_cons trivial rfl <|
      obeys_cons ⟨⟨.own (by decide), _, _, rfl, rfl⟩, by rintro _ ⟨⟩; decide⟩ rfl <|
      obeys_cons ⟨⟨.child (p := 0) (.own (by decide)) trivial rfl (by decide), _, _, rfl, rfl⟩, by rintro _ ⟨⟩; decide⟩ rfl <|
      obeys_cons (by
        rintro _ ⟨⟩
        exact .child (p := 1) (.child (p := 0) (.own (by decide)) trivial rfl (by decide)) trivial rfl (by decide)) rfl <|
      obeys_cons ⟨⟨.own (by decide), _, _, rfl, rfl⟩, by rintro _ ⟨⟩; decide⟩ rfl <|
      obeys_cons (by rintro _ ⟨⟩; decide) rfl trivial)
    (by decide) (by decide)

end Pixel845.Json
