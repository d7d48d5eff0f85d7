import Pixel845.Theorems.DatatopFields
import Mathlib.Data.List.Nodup
import Mathlib.Data.Nat.Digits.Defs

/-!
# The names of columns

The data points of a file with several values are named by their number in brackets and a colon, which is cut to the size of a
small buffer. Six characters hold the digits of every number that a line can give rise to, so that the names of `dpg_construction`
differ; three hold two digits, so that those of `dtop_value_only_search` differ up to a hundred values (`column_names_iff`).
-/

namespace Pixel845.Datatop

/-- The data points of a gatherer have different names. -/
def Gatherer.NamesDiffer (dpg : Gatherer) : Prop := (dpg.dataPoints.map fun dp => dp.name).Nodup

namespace ColumnsAux

variable {i j k n : Nat}

/-- The digits of a number are left of its numeral with a closing bracket and a colon, cut after `k` characters, if they
are no more. -/
theorem digits_of_cut (h : (decimal i).length ≤ k) : ((decimal i ++ [93, 58]).take k).takeWhile isDigit = decimal i := by
  have hdigits : ∀ c ∈ decimal i, isDigit c = true := fun _ hc => isDigit_of_mem_decimal hc
  rw [List.take_append, List.take_of_length_le h, List.takeWhile_append_of_pos hdigits]
  rcases hk : k - (decimal i).length with _ | _ | _ <;> simp [isDigit]

/-- A number below a power of ten has no more digits than it has zeros. -/
theorem decimal_length_le (hk : 0 < k) (h : i < 10 ^ k) : (decimal i).length ≤ k := by
  rw [decimal, List.length_map]
  exact Nat.toDigits_length 10 i k hk h

/-- Numbers whose digits are not cut have different names. -/
theorem cut_injective (hi : (decimal i).length ≤ k) (hj : (decimal j).length ≤ k)
    (h : ([91] ++ decimal i ++ [93, 58]).take (k + 1) = ([91] ++ decimal j ++ [93, 58]).take (k + 1)) : i = j := by
  have htail := (List.cons.inj h).2
  apply decimal_injective
  rw [← digits_of_cut hi, ← digits_of_cut hj]
  exact congrArg _ htail

/-- Names that are copied are distinct exactly if their texts are. -/
theorem copy_nodup {f : Nat → List UInt8} : ((List.range n).map fun i => Str.copy (f i)).Nodup ↔
      ((List.range n).map f).Nodup := by
  rw [List.nodup_map_iff_inj_on List.nodup_range, List.nodup_map_iff_inj_on List.nodup_range]
  simp only [Str.copy.injEq]

/-! ### Files of a directory -/

/-- A line gives rise to no more values than the dictionary has entries. -/
theorem getNumberOfValues_le (content : List UInt8) (rest line : Image) : getNumberOfValues content rest line ≤ dictSize := by
  have hsize : genLine = dictSize := rfl
  obtain ⟨l, hread, hlt⟩ :=
    FieldsAux.readLine_first (by decide : 1 ≤ genLine) (by decide : 1 ≤ genSize) (readFile content genSize rest) line
  unfold getNumberOfValues
  split
  · exact Nat.zero_le _
  · simp only [hread]
    split
    · exact Nat.zero_le _
    · have hle := List.length_filter_le (fun i => decide (((line.write 0 (l ++ [0])) i = 32 ∨ (line.write 0 (l ++ [0])) i = 44 ∨
        (line.write 0 (l ++ [0])) i = 9) ∧ (line.write 0 (l ++ [0])) (i + 1) ≠ 0)) (List.range l.length)
      rw [List.length_range] at hle
      omega

/-- The names of a generic file are distinct as long as its numbers fit. -/
theorem genName_nodup (name : List UInt8) {num : Nat} (h : num ≤ dictSize) : ((List.range num).map (genName name num)).Nodup := by
  rw [List.nodup_map_iff_inj_on List.nodup_range]
  intro i hi j hj heq
  have hsize : dictSize = 2048 := rfl
  rw [List.mem_range] at hi hj
  by_cases h1 : num = 1
  · omega
  · rw [genName, genName, if_neg h1, if_neg h1] at heq
    exact cut_injective (decimal_length_le (by decide) (by omega)) (decimal_length_le (by decide) (by omega))
      (List.append_cancel_left heq)

/-- A generic file has distinct names. -/
theorem gen_names (dir name content : List UInt8) (rest line : Image) (priv : Vars) (junk : Nat → DataPoint) {dpg : Gatherer}
    (h : dpgConstruction dir name content rest line priv junk = some dpg) : dpg.NamesDiffer := by
  rw [dpgConstruction] at h
  split at h
  · obtain rfl := Option.some.inj h
    unfold Gatherer.NamesDiffer
    rw [List.map_map]
    exact copy_nodup.mpr (genName_nodup name (getNumberOfValues_le content rest line))
  · cases h

/-! ### Files with values only -/

/-- The names differ as long as no number has three digits: the hundredth is cut to the tenth. -/
theorem valueName_nodup (n : Nat) : ((List.range n).map (valueName n)).Nodup ↔ n ≤ 100 := by
  rw [List.nodup_map_iff_inj_on List.nodup_range]
  constructor
  · intro h
    by_contra hn
    have hname : valueName n 10 = valueName n 100 := by
      rw [valueName, valueName, if_pos (by omega), if_pos (by omega)]
      decide
    exact absurd (h 10 (List.mem_range.mpr (by omega)) 100 (List.mem_range.mpr (by omega)) hname) (by decide)
  · intro hn i hi j hj heq
    rw [List.mem_range] at hi hj
    by_cases h1 : 1 < n
    · rw [valueName, valueName, if_pos h1, if_pos h1] at heq
      exact cut_injective (decimal_length_le (by decide) (by omega)) (decimal_length_le (by decide) (by omega)) heq
    · omega

/-- What is registered for a file that has content. -/
theorem valueOnly_names (name : List UInt8) {content : List UInt8} (rest line : Image) (priv : Vars) (junk : Nat → DataPoint)
    (h0 : content ≠ []) :
    ∃ dpg, valueOnlySearch name content rest line priv junk = some (some dpg) ∧ dpg.dataPoints.map (fun dp => dp.name) =
      (List.range (fields (firstLine content rest)).length).map fun i =>
        .copy (valueName (fields (firstLine content rest)).length i) := by
  obtain ⟨vars, dict, hparse, hcut⟩ := ValuesAux.parseValues_cut content rest line
  have hcount := ValuesAux.valuePtrs_length _ vars dict hcut
  have hval : ∀ i ∈ List.range (fields (firstLine content rest)).length, ∃ p, dict.val i = some p := by
    intro i hi
    rw [List.mem_range, ← hcount] at hi
    exact ⟨_, (hcut.val i).trans (List.getElem?_eq_getElem hi)⟩
  unfold valueOnlySearch
  rw [if_neg h0]
  simp only [hparse, hcut.max, hcount, Option.bind_eq_bind, Option.bind_some, Option.pure_def]
  obtain ⟨points, hpoints⟩ := mapM_isSome_iff (f := fun i => (dict.val i).bind fun val => some { junk i with
        name := .copy (valueName (fields (firstLine content rest)).length i)
        pfx := none
        type := if vars.buf val.buf val.off = 45 then .long else .ulong
        skip := false
        initialDataPopulated := false }) (l := List.range (fields (firstLine content rest)).length) |>.mpr fun i hi => by
    obtain ⟨p, hp⟩ := hval i hi
    exact ⟨_, by rw [hp, Option.bind_some]⟩
  refine ⟨_, by rw [hpoints, Option.bind_some], ?_⟩
  have hforall := mapM_eq_some.mp hpoints
  rw [← List.forall₂_eq_eq_eq, List.forall₂_map_left_iff, List.forall₂_map_right_iff]
  refine hforall.flip.imp fun dp i hdp => ?_
  obtain ⟨p, -, hdp⟩ := Option.bind_eq_some_iff.mp hdp
  rw [← Option.some.inj hdp]

/-- Whether the names of a file differ, if it has content. -/
theorem valueOnly_differ (name : List UInt8) {content : List UInt8} (rest line : Image) (priv : Vars) (junk : Nat → DataPoint)
    (h0 : content ≠ []) :
    (∀ dpg, valueOnlySearch name content rest line priv junk = some (some dpg) → dpg.NamesDiffer) ↔
      (fields (firstLine content rest)).length ≤ 100 := by
  obtain ⟨dpg, hdpg, hnames⟩ := valueOnly_names name rest line priv junk h0
  have hdiffer : dpg.NamesDiffer ↔ (fields (firstLine content rest)).length ≤ 100 := by
    rw [Gatherer.NamesDiffer, hnames, copy_nodup, valueName_nodup]
  simp [hdpg, hdiffer]

end ColumnsAux

open ColumnsAux in
/-- The columns of a file in a directory that is scanned differ. Those of a file with values only differ exactly if the file is
empty or its first line has no more than a hundred values. -/
theorem column_names_iff (dir name content : List UInt8) (rest line : Image) (priv : Vars) (junk : Nat → DataPoint) :
    (∀ dpg, dpgConstruction dir name content rest line priv junk = some dpg → dpg.NamesDiffer) ∧
      ((∀ dpg, valueOnlySearch name content rest line priv junk = some (some dpg) → dpg.NamesDiffer) ↔
        content = [] ∨ (fields (firstLine content rest)).length ≤ 100) := by
  refine ⟨fun _ => gen_names dir name content rest line priv junk, ?_⟩
  by_cases h0 : content = []
  · have hnone : valueOnlySearch name content rest line priv junk = some none := if_pos h0
    rw [hnone]
    simp [h0]
  · rw [valueOnly_differ name rest line priv junk h0, or_iff_right h0]

/-- A line of 101 empty values. -/
def manyValues : List UInt8 := List.replicate 100 44 ++ [10]

/-- The names of the eleventh and of the last one of 101 values are the same. -/
theorem column_names_collide :
    ¬ ∀ (dir name content : List UInt8) (rest line : Image) (priv : Vars) (junk : Nat → DataPoint),
      (∀ dpg, dpgConstruction dir name content rest line priv junk = some dpg → dpg.NamesDiffer) ∧
        ∀ dpg, valueOnlySearch name content rest line priv junk = some (some dpg) → dpg.NamesDiffer := by
  intro h
  have hcount : (fields (firstLine manyValues .zero)).length = 101 := by decide +kernel
  have hdiffer := (h [47] [97] manyValues .zero .zero (.cleared 2048 1) fun _ => .blank).2
  rw [ColumnsAux.valueOnly_differ _ _ _ _ _ (by decide), hcount] at hdiffer
  exact absurd hdiffer (by decide)

end Pixel845.Datatop
