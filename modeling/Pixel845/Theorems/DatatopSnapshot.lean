import Pixel845.Datatop.DataPoint
import Mathlib.Data.List.Induction

/-!
# Snapshot differences over whole runs

What happens to a data point is a list of requests: values stored, resets and snapshots. Resets cut it into periods. The baseline
is the first value of the latest period that has one, the last value is the last of that period (`baseline`, `lastValue`), and
that is what the two unions and the flag of the data point come down to: `snapshot_prints_difference`.
-/

namespace Pixel845.Datatop

/-! ## What should be printed -/

/-- The digits are some, and all are digits. -/
def isNumeral (ds : List UInt8) : Bool := ds ≠ [] && ds.all isDigit

/-- The integer that a decimal string stands for. -/
def decimalValue : List UInt8 → Option Int
  | 45 :: ds => if isNumeral ds then some (-digitsVal ds) else none
  | ds => if isNumeral ds then some (digitsVal ds) else none

/-- The values of a type. -/
def InRange (type : DpType) (v : Int) : Prop :=
  match type with
  | .long => -2 ^ 63 ≤ v ∧ v < 2 ^ 63
  | _ => 0 ≤ v ∧ v < 2 ^ 64

instance (type : DpType) (v : Int) : Decidable (InRange type v) :=
  match type with
  | .long => inferInstanceAs (Decidable (_ ∧ _))
  | .ulong | .uint | .int | .uchar | .char | .str | .other => inferInstanceAs (Decidable (_ ∧ _))

/-- The string stands for a value of the type. -/
def Denotes (type : DpType) (str : List UInt8) (v : Int) : Prop := decimalValue str = some v ∧ InRange type v

/-- What can happen to a data point. -/
inductive Request where
  | store (str : List UInt8)
  | reset
  | snapshot

/-- Add a request to the values stored in each period between resets, the latest period first. -/
def addRequest (ps : List (List Int)) : Request → List (List Int)
  | .store str => (ps.headD [] ++ (decimalValue str).toList) :: ps.tail
  | .reset => [] :: ps
  | .snapshot => ps

/-- The values stored in each period between resets, the latest period first. -/
def periods (rs : List Request) : List (List Int) := rs.foldl addRequest [[]]

/-- The latest period in which a value was stored. -/
def latest (rs : List Request) : Option (List Int) := (periods rs).find? (· ≠ [])

/-- The first value stored after the most recent reset, or the baseline before it if none was stored since. -/
def baseline (rs : List Request) : Option Int := (latest rs).bind List.head?

/-- The value stored last. -/
def lastValue (rs : List Request) : Option Int := (latest rs).bind List.getLast?

/-- What a request does to a data point. -/
def apply (dp : DataPoint) : Request → DataPoint
  | .store str => storeDp dp str
  | .reset => resetInitial dp
  | .snapshot => dp

namespace SnapshotAux

variable {type : DpType} {dp : DataPoint}

/-- The value in a union, for the two types of 64 bits. -/
def valueOf (type : DpType) (u : DataUnion) : Int :=
  match type with
  | .long => (DataUnion.dLong u).toInt
  | _ => (DataUnion.dUlong u).toNat

/-! ### Storing a value -/

/-- A string that stands for a value is read as this value. -/
theorem scanInt_of_decimalValue {str : List UInt8} {v : Int} (h : decimalValue str = some v) :
    ∃ neg n, scanInt str = some (neg, n) ∧ v = if neg then -(n : Int) else n := by
  have hscan : ∀ {ds : List UInt8} (neg : Bool), isNumeral ds = true →
      scanInt ((if neg then [45] else []) ++ ds) = some (neg, digitsVal ds) := by
    intro ds neg hds
    simp only [isNumeral, Bool.and_eq_true, decide_eq_true_eq, List.all_eq_true] at hds
    exact scanInt_digits neg hds.1 hds.2
  unfold decimalValue at h
  split at h
  · obtain ⟨hds, hv⟩ := Option.ite_none_right_eq_some.mp h
    exact ⟨true, _, hscan true hds, (Option.some.inj hv).symm⟩
  · obtain ⟨hds, hv⟩ := Option.ite_none_right_eq_some.mp h
    exact ⟨false, _, hscan false hds, (Option.some.inj hv).symm⟩

/-- An unsigned value is converted as it is. -/
theorem toUlong_toNat {neg : Bool} {n : Nat} (h : InRange .ulong (if neg then -(n : Int) else n)) :
    ((toUlong neg n).toNat : Int) = if neg then -(n : Int) else n := by
  simp only [InRange] at h
  have hlt : ¬2 ^ 64 ≤ n := by
    cases neg <;> simp at h <;> omega
  simp only [toUlong, if_neg hlt]
  cases neg with
  | true =>
    have hn : n = 0 := by simp at h; omega
    subst hn
    simp
  | false =>
    simp only [Bool.false_eq_true, if_false, UInt64.toNat_ofNat']
    omega

/-- So is a signed one. -/
theorem toLong_toInt {neg : Bool} {n : Nat} (h : InRange .long (if neg then -(n : Int) else n)) :
    (toLong neg n).toInt = if neg then -(n : Int) else n := by
  simp only [InRange] at h
  simp only [toLong]
  cases neg with
  | true =>
    have hle : ¬2 ^ 63 < n := by simp at h; omega
    simp only [if_true, if_neg hle] at h ⊢
    exact Int64.toInt_ofInt_of_le (by simpa using h.1) (by simpa using h.2)
  | false =>
    have hlt : ¬2 ^ 63 ≤ n := by simp at h; omega
    simp only [Bool.false_eq_true, if_false, if_neg hlt] at h ⊢
    exact Int64.toInt_ofNat_of_lt (by omega)

/-- `dtop_store_dp` leaves the value that the string stands for. -/
theorem valueOf_sscanf {str : List UInt8} {v : Int} (ht : type = .ulong ∨ type = .long) (h : Denotes type str v)
    (u : DataUnion) : valueOf type (sscanf type str u) = v := by
  obtain ⟨hv, hr⟩ := h
  obtain ⟨neg, n, hs, rfl⟩ := scanInt_of_decimalValue hv
  rcases ht with rfl | rfl
  · simp only [sscanf, hs, Option.elim_some, valueOf, DataUnion.dUlong_setUlong, toUlong_toNat hr]
  · simp only [sscanf, hs, Option.elim_some, valueOf, DataUnion.dLong_setLong, toLong_toInt hr]

/-- The first value that is stored becomes the initial one. -/
theorem valueOf_copyMember (ht : type = .ulong ∨ type = .long) (src dst : DataUnion) :
    valueOf type (copyMember type src dst) = valueOf type src := by
  have hnat := Image.nat_write_read src dst 0 0 8
  rcases ht with rfl | rfl
  · simp only [valueOf, copyMember, DataUnion.dUlong, hnat]
  · simp only [valueOf, copyMember, DataUnion.dLong, DataUnion.dUlong, hnat]

/-! ### The difference -/

/-- The signed number is the unsigned one, wrapped. -/
theorem toInt_toInt64 (a : UInt64) : a.toInt64.toInt = (a.toNat : Int).bmod (2 ^ 64) := by
  have h := Int64.toInt_ofNat' (n := a.toNat)
  rwa [← UInt64.toInt64_ofNat', UInt64.ofNat_toNat] at h

/-- The difference is that of the values, modulo `2 ^ 64`. -/
theorem toInt_snapshotDiff (ht : dp.type = .ulong ∨ dp.type = .long) :
    (snapshotDiff dp).toInt = (valueOf dp.type dp.data - valueOf dp.type dp.initialData).bmod (2 ^ 64) := by
  rcases ht with ht | ht
  · simp only [snapshotDiff, ht, valueOf, Int64.toInt_sub, toInt_toInt64]
    rw [Int.sub_bmod_bmod, Int.bmod_sub_bmod]
  · simp only [snapshotDiff, ht, valueOf, Int64.toInt_sub]

/-- It is zero only for equal values. -/
theorem snapshotDiff_eq_zero_iff (ht : dp.type = .ulong ∨ dp.type = .long) :
    snapshotDiff dp = 0 ↔ valueOf dp.type dp.data = valueOf dp.type dp.initialData := by
  have hsub : ∀ a b : Int64, a - b = 0 ↔ a = b := fun a b => by rw [Int64.sub_eq_iff_eq_add, Int64.zero_add]
  rcases ht with ht | ht
  · simp only [snapshotDiff, ht, valueOf, hsub]
    rw [Int.natCast_inj, UInt64.toNat_inj]
    exact ⟨fun h => by simpa using congrArg Int64.toUInt64 h, fun h => by rw [h]⟩
  · simp only [snapshotDiff, ht, valueOf, hsub, Int64.toInt_inj]

/-! ### Runs -/

/-- What a run has made of a data point. -/
structure After (dp₀ : DataPoint) (rs : List Request) (dp : DataPoint) : Prop where
  name : dp.name = dp₀.name
  pfx : dp.pfx = dp₀.pfx
  type : dp.type = dp₀.type
  periods_ne : periods rs ≠ []
  populated : dp.initialDataPopulated = true ↔ (periods rs).headD [] ≠ []
  baseline : ∀ v, baseline rs = some v → valueOf dp.type dp.initialData = v
  last : ∀ v, lastValue rs = some v → valueOf dp.type dp.data = v

/-- The periods with another request. -/
theorem periods_append (rs : List Request) (r : Request) : periods (rs ++ [r]) = addRequest (periods rs) r := by
  rw [periods, List.foldl_append]
  rfl

section Store

variable {rs : List Request} {str : List UInt8} {v : Int}

/-- The latest value after another one is stored. -/
theorem latest_store (hv : decimalValue str = some v) : latest (rs ++ [.store str]) = some ((periods rs).headD [] ++ [v]) := by
  simp [latest, periods_append, addRequest, hv]

/-- The last value after another one is stored. -/
theorem lastValue_store (hv : decimalValue str = some v) : lastValue (rs ++ [.store str]) = some v := by
  rw [lastValue, latest_store hv, Option.bind_some, List.getLast?_concat]

/-- The first value of its period becomes the baseline. -/
theorem baseline_first (hv : decimalValue str = some v) (hempty : (periods rs).headD [] = []) :
    baseline (rs ++ [.store str]) = some v := by
  rw [baseline, latest_store hv, hempty]
  rfl

/-- A later value of its period leaves the baseline alone. -/
theorem baseline_later (hv : decimalValue str = some v) (hne : periods rs ≠ []) (hsome : (periods rs).headD [] ≠ []) :
    baseline (rs ++ [.store str]) = baseline rs := by
  have hl : latest (rs ++ [.store str]) = some ((periods rs).headD [] ++ [v]) := latest_store hv
  obtain ⟨p, ps, hps⟩ := List.exists_cons_of_ne_nil hne
  simp only [hps, List.headD_cons] at hsome hl
  have hl' : latest rs = some p := by simp [latest, hps, hsome]
  obtain ⟨x, xs, rfl⟩ := List.exists_cons_of_ne_nil hsome
  simp [baseline, hl, hl']

end Store

/-- One request. -/
theorem After.step {dp₀ : DataPoint} {rs : List Request} {r : Request} (ht : dp₀.type = .ulong ∨ dp₀.type = .long)
    (h : After dp₀ rs dp) (hr : ∀ str, r = .store str → ∃ v, Denotes dp₀.type str v) :
    After dp₀ (rs ++ [r]) (apply dp r) := by
  have hp := periods_append rs r
  cases r with
  | snapshot => exact ⟨h.name, h.pfx, h.type, by rw [hp]; exact h.periods_ne, by rw [hp]; exact h.populated,
      fun v hv => h.baseline v (by rwa [Datatop.baseline, latest, hp] at hv),
      fun v hv => h.last v (by rwa [lastValue, latest, hp] at hv)⟩
  | reset =>
    -- A reset opens an empty period, which is passed over until a value is stored.
    have hl : latest (rs ++ [.reset]) = latest rs := by
      simp [latest, hp, addRequest]
    refine ⟨h.name, h.pfx, h.type, by simp [hp, addRequest], by simp [hp, addRequest, apply, resetInitial], ?_, ?_⟩
    · intro v hv
      exact h.baseline v (by rwa [Datatop.baseline, hl] at hv)
    · intro v hv
      exact h.last v (by rwa [lastValue, hl] at hv)
  | store str =>
    obtain ⟨v, hv⟩ := hr str rfl
    have hne : (periods rs).headD [] ++ (decimalValue str).toList ≠ [] := by simp [hv.1]
    have htype : dp.type = .ulong ∨ dp.type = .long := h.type ▸ ht
    have hother : dp.type ≠ .other := by
      rcases htype with ht | ht <;> simp [ht]
    have hval : valueOf dp.type (sscanf dp.type str dp.data) = v := valueOf_sscanf htype (h.type ▸ hv) _
    have hperiods : periods (rs ++ [.store str]) ≠ [] := by simp [hp, addRequest]
    have hhead : (periods (rs ++ [.store str])).headD [] ≠ [] := by simpa [hp, addRequest] using hne
    cases hpop : dp.initialDataPopulated with
    | false =>
      have hempty : (periods rs).headD [] = [] := by
        by_contra hn
        rw [h.populated.mpr hn] at hpop
        cases hpop
      have hstore : apply dp (.store str) = { dp with
          data := sscanf dp.type str dp.data
          initialData := copyMember dp.type (sscanf dp.type str dp.data) dp.initialData
          initialDataPopulated := true } := by
        simp [apply, storeDp, hpop, hother]
      rw [hstore]
      refine ⟨h.name, h.pfx, h.type, hperiods, by simpa using hhead, ?_, ?_⟩
      · intro w hw
        obtain rfl := Option.some.inj ((baseline_first hv.1 hempty).symm.trans hw)
        exact (valueOf_copyMember htype _ _).trans hval
      · intro w hw
        obtain rfl := Option.some.inj ((lastValue_store hv.1).symm.trans hw)
        exact hval
    | true =>
      have hstore : apply dp (.store str) = { dp with data := sscanf dp.type str dp.data } := by
        simp [apply, storeDp, hpop]
      rw [hstore]
      refine ⟨h.name, h.pfx, h.type, hperiods, by simpa [hpop] using hhead, ?_, ?_⟩
      · intro w hw
        exact h.baseline w (baseline_later hv.1 h.periods_ne (h.populated.mp hpop) ▸ hw)
      · intro w hw
        obtain rfl := Option.some.inj ((lastValue_store hv.1).symm.trans hw)
        exact hval

/-- A whole run. -/
theorem after_run {dp₀ : DataPoint} (ht : dp₀.type = .ulong ∨ dp₀.type = .long) (h₀ : dp₀.initialDataPopulated = false)
    (rs : List Request) (hrs : ∀ str, .store str ∈ rs → ∃ v, Denotes dp₀.type str v) : After dp₀ rs (rs.foldl apply dp₀) := by
  induction rs using List.reverseRecOn with
  | nil => exact ⟨rfl, rfl, rfl, by simp [periods], by simp [periods, h₀], by simp [Datatop.baseline, latest, periods],
      by simp [lastValue, latest, periods]⟩
  | append_singleton rs r ih =>
    rw [List.foldl_append]
    refine (ih fun str hs => hrs str (List.mem_append_left _ hs)).step ht ?_
    rintro str rfl
    exact hrs str (by simp)

/-- Once a value was stored there is a latest period. -/
theorem exists_latest (rs : List Request) (hrs : ∀ str, .store str ∈ rs → decimalValue str ≠ none)
    (hstore : ∃ str, .store str ∈ rs) : ∃ p, latest rs = some p := by
  induction rs using List.reverseRecOn with
  | nil => simp at hstore
  | append_singleton rs r ih =>
    have hp := periods_append rs r
    have hold := fun str hs => hrs str (List.mem_append_left _ hs)
    cases r with
    | store str =>
      obtain ⟨v, hv⟩ := Option.ne_none_iff_exists'.mp (hrs str (by simp))
      exact ⟨(periods rs).headD [] ++ [v], by simp [latest, hp, addRequest, hv]⟩
    | reset =>
      obtain ⟨p, hl⟩ := ih hold (by simpa using hstore)
      exact ⟨p, by simpa [latest, hp, addRequest] using hl⟩
    | snapshot =>
      obtain ⟨p, hl⟩ := ih hold (by simpa using hstore)
      exact ⟨p, by simpa [latest, hp, addRequest] using hl⟩

end SnapshotAux

open SnapshotAux in
/-- A data point of a 64-bit type that was just created, and any list of requests that store values of its type, at least
one: a snapshot then prints nothing when the last value is the baseline, and otherwise the last value less the baseline,
modulo `2 ^ 64`. -/
theorem snapshot_prints_difference (dpset : Gatherer) (dp : DataPoint) (rs : List Request)
    (htype : dp.type = .ulong ∨ dp.type = .long) (hnew : dp.initialDataPopulated = false)
    (hrs : ∀ str, .store str ∈ rs → ∃ v, Denotes dp.type str v) (hstored : ∃ str, .store str ∈ rs) :
    ∃ first last, baseline rs = some first ∧ lastValue rs = some last ∧
      handleDpTypeForSnapshot dpset (rs.foldl apply dp) =
        if last = first then []
        else formatTextForSnapshot dpset dp ++ decimalInt ((last - first).bmod (2 ^ 64)) ++ [10] := by
  have hrun := after_run htype hnew rs hrs
  obtain ⟨p, hl⟩ := exists_latest rs (fun str hs => by
    obtain ⟨v, hv⟩ := hrs str hs
    simp [hv.1]) hstored
  have hp : p ≠ [] := by simpa using List.find?_some hl
  have hb : baseline rs = some (p.head hp) := by simp [baseline, hl, List.head?_eq_some_head hp]
  have hv : lastValue rs = some (p.getLast hp) := by simp [lastValue, hl, List.getLast?_eq_some_getLast hp]
  refine ⟨_, _, hb, hv, ?_⟩
  have htype' : (rs.foldl apply dp).type = .ulong ∨ (rs.foldl apply dp).type = .long := hrun.type ▸ htype
  have htext : formatTextForSnapshot dpset (rs.foldl apply dp) = formatTextForSnapshot dpset dp := by
    rw [formatTextForSnapshot, formatTextForSnapshot, hrun.name, hrun.pfx]
  simp only [handleDpTypeForSnapshot, ne_eq, snapshotDiff_eq_zero_iff htype', toInt_snapshotDiff htype', hrun.last _ hv,
    hrun.baseline _ hb, htext, ite_not]

/-- A counter of a file `/proc/net/snmp`. -/
def inReceives : DataPoint := ⟨.copy [73, 110], none, .ulong, Image.zero, false, Image.zero, false⟩

/-- The gatherer of the counter. -/
def snmp : Gatherer := ⟨[115], [115], [inReceives], ⟨2048, 0, fun _ => Image.zero⟩⟩

/-- The rule at a run: the counter is stored as 7, then as `2 ^ 64 - 1`, reset, and stored as 3. -/
theorem snapshot_prints_difference_wrapped :
    ∃ first last, baseline [.store [55], .store [49, 56, 52, 52, 54, 55, 52, 52, 48, 55, 51, 55, 48, 57, 53, 53, 49, 54, 49, 53],
        .reset, .store [51]] = some first ∧
      lastValue [.store [55], .store [49, 56, 52, 52, 54, 55, 52, 52, 48, 55, 51, 55, 48, 57, 53, 53, 49, 54, 49, 53], .reset,
        .store [51]] = some last ∧
      handleDpTypeForSnapshot snmp ([Request.store [55],
          .store [49, 56, 52, 52, 54, 55, 52, 52, 48, 55, 51, 55, 48, 57, 53, 53, 49, 54, 49, 53], .reset,
          .store [51]].foldl apply inReceives) =
        if last = first then []
        else formatTextForSnapshot snmp inReceives ++ decimalInt ((last - first).bmod (2 ^ 64)) ++ [10] := by
  refine snapshot_prints_difference snmp inReceives _ (.inl rfl) rfl ?_ ⟨[51], by simp⟩
  intro str hs
  simp only [List.mem_cons, Request.store.injEq, reduceCtorEq, List.not_mem_nil, or_false, false_or] at hs
  rcases hs with rfl | rfl | rfl
  · exact ⟨7, by decide, by decide⟩
  · exact ⟨2 ^ 64 - 1, by decide, by decide⟩
  · exact ⟨3, by decide, by decide⟩

end Pixel845.Datatop
