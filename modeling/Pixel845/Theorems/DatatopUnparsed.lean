import Pixel845.Theorems.DatatopSnapshot
import Pixel845.Theorems.DatatopValues

/-!
# Strings that are no numbers

The result of the conversion is ignored and the baseline is taken from the data whatever was converted. So a string without an
integer leaves a data point alone exactly if its baseline is there already (`unparsed_iff`); with it, all that is printed comes
from the file.
-/

namespace Pixel845.Datatop

/-! ## Runs of polls and resets -/

/-- The integer types. -/
def DpType.integer (type : DpType) : Bool := type = .ulong ∨ type = .long ∨ type = .uint ∨ type = .int

/-- The integer in a union, as a type reads it. -/
def intOf (type : DpType) (u : DataUnion) : Int :=
  match type with
  | .long => (DataUnion.dLong u).toInt
  | .uint => (DataUnion.dUint u).toNat
  | .int => (DataUnion.dInt u).toInt
  | _ => (DataUnion.dUlong u).toNat

/-- The integer that is parsed from a string. -/
def parsedInt (type : DpType) (str : List UInt8) : Option Int :=
  (scanInt str).map fun x =>
    match type with
    | .long => (toLong x.1 x.2).toInt
    | .uint => (toUlong x.1 x.2).toUInt32.toNat
    | .int => (toLong x.1 x.2).toUInt64.toUInt32.toInt32.toInt
    | _ => (toUlong x.1 x.2).toNat

/-- What is printed for an integer of a type. -/
def printed (type : DpType) (v : Int) : List UInt8 :=
  match type with
  | .long => decimalInt v
  | .uint => decimalInt (UInt32.ofNat v.toNat).toInt32.toInt
  | .int => decimal (Int32.ofInt v).toUInt32.toNat
  | _ => decimal v.toNat

/-- The ways a poll stores a string: `plain` as it is, `signed` as `dtop_gen_poll` does, which first makes the data point signed
if the string has a sign. -/
inductive Storing where
  | plain
  | signed
deriving DecidableEq

/-- What happens to a data point in a run. -/
inductive PollStep where
  | poll (str : List UInt8)
  | reset

namespace Storing

def store : Storing → DataPoint → List UInt8 → DataPoint
  | plain => storeDp
  | signed => (ValueSource.gen []).store

/-- A step, on a data point and the integers that were parsed for it so far. -/
def step (s : Storing) (x : DataPoint × List Int) : PollStep → DataPoint × List Int
  | .poll str => (s.store x.1 str, x.2 ++ (parsedInt (s.store x.1 str).type str).toList)
  | .reset => (resetInitial x.1, x.2)

def run (s : Storing) (dp : DataPoint) (steps : List PollStep) : DataPoint × List Int := steps.foldl s.step (dp, [])

/-- A data point as it is registered. -/
structure Registered (s : Storing) (dp : DataPoint) : Prop where
  integer : dp.type.integer = true
  unsigned : s = .signed → dp.type = .ulong
  notPopulated : dp.initialDataPopulated = false

/-- A step that is harmless: a string without an integer comes only when the baseline is there; and a sign makes a data point
signed only if the integers that it keeps are ones of both types. -/
def StepOk (s : Storing) (dp : DataPoint) : PollStep → Prop
  | .poll str => (scanInt str = none → dp.initialDataPopulated = true) ∧
      (s = .signed → dp.type = .ulong → str.head? = some 45 →
        (dp.initialDataPopulated = true → intOf .ulong dp.initialData < 2 ^ 63) ∧
        (scanInt str = none → intOf .ulong dp.data < 2 ^ 63))
  | .reset => True

/-- What is printed after a poll is an integer that was parsed, and so is the baseline. -/
def AllParsed (s : Storing) (dp : DataPoint) (steps : List PollStep) : Prop :=
  ((∃ str, .poll str ∈ steps) → ∃ v ∈ (s.run dp steps).2, formatDpValues (s.run dp steps).1 = printed (s.run dp steps).1.type v) ∧
    ((s.run dp steps).1.initialDataPopulated = true →
      intOf (s.run dp steps).1.type (s.run dp steps).1.initialData ∈ (s.run dp steps).2)

end Storing

/-- A store leaves what a data point holds. -/
def Unchanged (dp dp' : DataPoint) : Prop :=
  dp'.data = dp.data ∧ dp'.initialData = dp.initialData ∧ dp'.initialDataPopulated = dp.initialDataPopulated

namespace UnparsedAux

variable {s : Storing} {dp : DataPoint} {type : DpType} {str : List UInt8} {values : List Int}

/-! ### Integers in unions -/

/-- The integer types. -/
theorem integer_cases (h : type.integer = true) : type = .ulong ∨ type = .long ∨ type = .uint ∨ type = .int := of_decide_eq_true h

/-- A member that is set is read. -/
theorem dUint_setUint (u : DataUnion) (v : UInt32) : DataUnion.dUint (DataUnion.setUint u v) = v := by
  have hv : v.toNat < 256 ^ 4 := v.toNat_lt
  rw [DataUnion.dUint, DataUnion.setUint, Image.nat_write_leBytes, Nat.mod_eq_of_lt hv, UInt32.ofNat_toNat]

/-- The conversion leaves the integer that is parsed. -/
theorem intOf_sscanf (h : type.integer = true) {v : Int} (hv : parsedInt type str = some v) (u : DataUnion) :
    intOf type (sscanf type str u) = v := by
  unfold parsedInt at hv
  obtain ⟨x, hx, rfl⟩ := Option.map_eq_some_iff.mp hv
  rcases integer_cases h with rfl | rfl | rfl | rfl
  · simp only [sscanf, hx, Option.elim_some, intOf, DataUnion.dUlong_setUlong]
  · simp only [sscanf, hx, Option.elim_some, intOf, DataUnion.dLong_setLong]
  · simp only [sscanf, hx, Option.elim_some, intOf, dUint_setUint]
  · simp only [sscanf, hx, Option.elim_some, intOf, DataUnion.dInt, dUint_setUint]

/-- Without an integer there is nothing to convert. -/
theorem sscanf_none (h : type.integer = true) (hs : scanInt str = none) (u : DataUnion) : sscanf type str u = u := by
  rcases integer_cases h with rfl | rfl | rfl | rfl <;> simp only [sscanf, hs, Option.elim_none]

/-- Copying a member copies its number. -/
theorem intOf_copyMember (h : type.integer = true) (src dst : DataUnion) :
    intOf type (copyMember type src dst) = intOf type src := by
  rcases integer_cases h with rfl | rfl | rfl | rfl <;>
    simp only [intOf, copyMember, DataUnion.dLong, DataUnion.dUlong, DataUnion.dInt, DataUnion.dUint, Image.nat_write_read]

/-- An integer is printed as its number. -/
theorem formatDpValues_eq (h : dp.type.integer = true) : formatDpValues dp = printed dp.type (intOf dp.type dp.data) := by
  unfold formatDpValues printed intOf
  rcases integer_cases h with ht | ht | ht | ht <;> simp only [ht]
  · rw [Int.toNat_natCast]
  · rw [Int.toNat_natCast, UInt32.ofNat_toNat]
  · rw [Int32.ofInt_toInt]
    rfl

/-- An integer of both types of 64 bits reads the same as either. -/
theorem intOf_long (u : DataUnion) (h : intOf .ulong u < 2 ^ 63) : intOf .long u = intOf .ulong u := by
  simp only [intOf, DataUnion.dLong] at h ⊢
  rw [SnapshotAux.toInt_toInt64]
  exact Int.bmod_eq_of_le (by omega) (by omega)

/-! ### One store -/

/-- Storing where there is an initial value. -/
theorem storeDp_of_populated (h : dp.initialDataPopulated = true) (str : List UInt8) :
    storeDp dp str = { dp with data := sscanf dp.type str dp.data } := by
  simp [storeDp, h]

/-- Storing where there is no initial value yet. -/
theorem storeDp_of_not_populated (ht : dp.type.integer = true) (h : dp.initialDataPopulated = false) (str : List UInt8) :
    storeDp dp str = { dp with
      data := sscanf dp.type str dp.data
      initialData := copyMember dp.type (sscanf dp.type str dp.data) dp.initialData
      initialDataPopulated := true } := by
  have hother : dp.type ≠ .other := by
    rintro hother
    rw [hother] at ht
    cases ht
  simp [storeDp, h, hother]

/-- A string without an integer changes nothing exactly if the baseline is there. -/
theorem unchanged_iff (ht : dp.type.integer = true) (hs : scanInt str = none) :
    Unchanged dp (storeDp dp str) ↔ dp.initialDataPopulated = true := by
  cases h : dp.initialDataPopulated with
  | true =>
    rw [storeDp_of_populated h, sscanf_none ht hs]
    exact iff_of_true ⟨rfl, rfl, rfl⟩ rfl
  | false =>
    rw [storeDp_of_not_populated ht h]
    refine iff_of_false ?_ Bool.false_ne_true
    rintro ⟨-, -, hpop⟩
    rw [h] at hpop
    cases hpop

/-! ### Runs -/

/-- What holds of a data point and the integers that were parsed for it: what it holds is among them, once there are any. -/
structure Holds (s : Storing) (dp : DataPoint) (values : List Int) : Prop where
  integer : dp.type.integer = true
  wide : s = .signed → dp.type = .ulong ∨ dp.type = .long
  data : values ≠ [] → intOf dp.type dp.data ∈ values
  baseline : dp.initialDataPopulated = true → intOf dp.type dp.initialData ∈ values

/-- A store into a data point of which the baseline is one of the integers, and the data too if nothing is parsed. -/
theorem holds_storeDp (hint : dp.type.integer = true) (hwide : s = .signed → dp.type = .ulong ∨ dp.type = .long)
    (hdata : scanInt str = none → intOf dp.type dp.data ∈ values)
    (hbase : dp.initialDataPopulated = true → intOf dp.type dp.initialData ∈ values)
    (hok : scanInt str = none → dp.initialDataPopulated = true) :
    Holds s (storeDp dp str) (values ++ (parsedInt dp.type str).toList) ∧ values ++ (parsedInt dp.type str).toList ≠ [] := by
  cases hparsed : parsedInt dp.type str with
  | none =>
    have hs : scanInt str = none := Option.map_eq_none_iff.mp hparsed
    rw [Option.toList_none, List.append_nil, storeDp_of_populated (hok hs), sscanf_none hint hs]
    exact ⟨⟨hint, hwide, fun _ => hdata hs, hbase⟩, List.ne_nil_of_mem (hdata hs)⟩
  | some v =>
    have hnew := intOf_sscanf hint hparsed dp.data
    have hlast : v ∈ values ++ [v] := List.mem_append_right _ (List.mem_singleton.mpr rfl)
    rw [Option.toList_some]
    refine ⟨?_, by simp⟩
    cases hpop : dp.initialDataPopulated with
    | true =>
      rw [storeDp_of_populated hpop]
      exact ⟨hint, hwide, fun _ => by rw [hnew]; exact hlast, fun _ => List.mem_append_left _ (hbase hpop)⟩
    | false =>
      rw [storeDp_of_not_populated hint hpop]
      refine ⟨hint, hwide, fun _ => by rw [hnew]; exact hlast, ?_⟩
      intro _
      change intOf dp.type (copyMember dp.type _ _) ∈ _
      rw [intOf_copyMember hint, hnew]
      exact hlast

/-- A poll that is harmless. After it there is an integer that was parsed. -/
theorem Holds.poll (h : Holds s dp values) (hok : s.StepOk dp (.poll str)) :
    Holds s (s.store dp str) (values ++ (parsedInt (s.store dp str).type str).toList) ∧
      values ++ (parsedInt (s.store dp str).type str).toList ≠ [] := by
  obtain ⟨hpop, hsign⟩ := hok
  have hdata : scanInt str = none → intOf dp.type dp.data ∈ values := by
    intro hs
    exact h.data (List.ne_nil_of_mem (h.baseline (hpop hs)))
  cases s with
  | plain =>
    unfold Storing.store
    simp only [storeDp_type]
    exact holds_storeDp h.integer h.wide hdata h.baseline hpop
  | signed =>
    unfold Storing.store ValueSource.store
    simp only [storeDp_type]
    by_cases hneg : str.head? = some 45
    · rw [if_pos hneg]
      -- the type changes to signed, and with it how the integers in the unions are read
      refine holds_storeDp rfl (fun _ => .inr rfl) (fun hs => ?_) (fun hp => ?_) hpop
      · rcases h.wide rfl with ht | ht
        · rw [intOf_long _ ((hsign rfl ht hneg).2 hs), ← ht]
          exact hdata hs
        · rw [← ht]
          exact hdata hs
      · rcases h.wide rfl with ht | ht
        · rw [intOf_long _ ((hsign rfl ht hneg).1 hp), ← ht]
          exact h.baseline hp
        · rw [← ht]
          exact h.baseline hp
    · rw [if_neg hneg]
      exact holds_storeDp h.integer h.wide hdata h.baseline hpop

/-- A reset of the initial value. -/
theorem Holds.reset (h : Holds s dp values) : Holds s (resetInitial dp) values := by
  refine ⟨h.integer, h.wide, h.data, ?_⟩
  intro hpop
  cases hpop

/-- Another poll at the end. -/
theorem run_concat (s : Storing) (dp : DataPoint) (steps : List PollStep) (r : PollStep) :
    s.run dp (steps ++ [r]) = s.step (s.run dp steps) r := by
  simp [Storing.run]

/-- A run of harmless steps. -/
theorem holds_run (h : s.Registered dp) {steps : List PollStep}
    (hok : ∀ pre r, pre ++ [r] <+: steps → s.StepOk (s.run dp pre).1 r) :
    Holds s (s.run dp steps).1 (s.run dp steps).2 ∧ ((∃ str, .poll str ∈ steps) → (s.run dp steps).2 ≠ []) := by
  induction steps using List.reverseRecOn with
  | nil =>
    refine ⟨⟨h.integer, fun hs => .inl (h.unsigned hs), fun hne => absurd rfl hne, fun hpop => ?_⟩, by simp⟩
    rw [show (s.run dp []).1 = dp from rfl, h.notPopulated] at hpop
    cases hpop
  | append_singleton steps r ih =>
    obtain ⟨hholds, hsome⟩ := ih fun pre r' hpre => hok pre r' (hpre.trans (List.prefix_append _ _))
    have hr := hok steps r (List.prefix_refl _)
    rw [run_concat]
    cases r with
    | poll str =>
      obtain ⟨hnew, hne⟩ := hholds.poll hr
      exact ⟨hnew, fun _ => hne⟩
    | reset =>
      refine ⟨hholds.reset, ?_⟩
      rintro ⟨str, hmem⟩
      refine hsome ⟨str, ?_⟩
      simpa using hmem

/-- Steps that are all right have all been parsed. -/
theorem allParsed_of_ok (h : s.Registered dp) {steps : List PollStep}
    (hok : ∀ pre r, pre ++ [r] <+: steps → s.StepOk (s.run dp pre).1 r) : s.AllParsed dp steps := by
  obtain ⟨hholds, hsome⟩ := holds_run h hok
  refine ⟨?_, hholds.baseline⟩
  intro hpolled
  exact ⟨_, hholds.data (hsome hpolled), formatDpValues_eq hholds.integer⟩

end UnparsedAux

open UnparsedAux in
/-- A string without an integer leaves a data point of an integer type as it was if and only if the baseline is there. And in
every run from the registration on whose steps are all harmless, what is printed after a poll and each baseline was parsed at
some poll. -/
theorem unparsed_iff (s : Storing) :
    (∀ (dp : DataPoint) (str : List UInt8), dp.type.integer = true → scanInt str = none →
      (Unchanged dp (storeDp dp str) ↔ dp.initialDataPopulated = true)) ∧
    ∀ (dp : DataPoint) (steps : List PollStep), s.Registered dp →
      (∀ pre r, pre ++ [r] <+: steps → s.StepOk (s.run dp pre).1 r) → s.AllParsed dp steps := by
  refine ⟨?_, ?_⟩
  · intro dp str ht hs
    exact unchanged_iff ht hs
  · intro dp steps h hok
    exact allParsed_of_ok h hok

/-- A data point of a file with a value, as it is registered in cleared memory. -/
def freshPoint : DataPoint := { DataPoint.blank with type := .ulong, initialDataPopulated := false }

/-- The value `7`, a name, and a reset after it. -/
theorem unparsed_seven :
    Unchanged { freshPoint with initialDataPopulated := true } (storeDp { freshPoint with initialDataPopulated := true } [45]) ∧
      Storing.AllParsed .plain freshPoint [.poll [55], .poll [99, 117, 98, 105, 99], .reset] := by
  have hok : ∀ pre r, pre ++ [r] <+: [PollStep.poll [55], .poll [99, 117, 98, 105, 99], .reset] →
      Storing.StepOk .plain (Storing.run .plain freshPoint pre).1 r := by
    intro pre r hpre
    match pre, hpre with
    | [], hpre =>
      obtain ⟨t, ht⟩ := hpre
      cases ht
      exact ⟨by decide, by decide⟩
    | [p], hpre =>
      obtain ⟨t, ht⟩ := hpre
      cases ht
      exact ⟨fun _ => by decide +kernel, by decide⟩
    | [p, q], hpre =>
      obtain ⟨t, ht⟩ := hpre
      cases ht
      trivial
    | p :: q :: o :: pre, hpre =>
      have hlen := hpre.length_le
      simp only [List.length_append, List.length_cons, List.length_nil] at hlen
      omega
  exact ⟨((unparsed_iff .plain).1 _ [45] rfl (by decide)).mpr rfl, (unparsed_iff .plain).2 freshPoint _ ⟨rfl, by decide, rfl⟩ hok⟩

/-- The first poll of a point whose file holds a name takes whatever the point held for its baseline. -/
theorem not_unparsed : ¬∀ (dp : DataPoint) (str : List UInt8), dp.type.integer = true → scanInt str = none →
    Unchanged dp (storeDp dp str) := by
  intro h
  have hnone : scanInt [99, 117, 98, 105, 99] = none := by decide
  have hflag := (h freshPoint [99, 117, 98, 105, 99] rfl hnone).2.2
  rw [UnparsedAux.storeDp_of_not_populated rfl rfl] at hflag
  cases hflag

end Pixel845.Datatop
