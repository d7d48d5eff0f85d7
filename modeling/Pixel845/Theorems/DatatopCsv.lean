import Pixel845.Datatop.DataPoint
import Pixel845.Lib.Split

/-!
# Columns of the polling file

A row is written as its fields, each followed by a comma (`headerRow_eq`, `dataRow_eq`), so that rows line up exactly when every
value is written as one field. The two character types write two. Of the others, an unsigned number of 32 bits is written as a
signed one and a signed one as unsigned, which is its numeral only where the two agree.
-/

namespace Pixel845.Datatop

/-! ## What a row should hold -/

/-- The comma-separated fields of a row, less its newline. -/
def csvFields (row : List UInt8) : List (List UInt8) := row.dropLast.splitOn 44

/-- All data points of the gatherers, in the order of the columns. -/
def columns (dpgList : List Gatherer) : List DataPoint := dpgList.flatMap Gatherer.dataPoints

/-- The field with the name of a data point. -/
def nameField (dpg : Gatherer) (dp : DataPoint) : List UInt8 :=
  [34] ++ dpg.pfx ++ [58] ++ dp.pfx.elim [] dpg.priv.text ++ [58] ++ dpg.priv.text dp.name ++ [34]

/-- The name fields of all columns. -/
def nameFields (dpgList : List Gatherer) : List (List UInt8) :=
  dpgList.flatMap fun dpg => dpg.dataPoints.map (nameField dpg)

/-- The text of the value of a data point: an integer in its own signedness, a character as it is, a string in quotes. -/
def valueField (dp : DataPoint) : List UInt8 :=
  match dp.type with
  | .ulong => decimalInt (DataUnion.dUlong dp.data).toNat
  | .long => decimalInt (DataUnion.dLong dp.data).toInt
  | .uint => decimalInt (DataUnion.dUint dp.data).toNat
  | .int => decimalInt (DataUnion.dInt dp.data).toInt
  | .uchar | .char => [DataUnion.dUchar dp.data]
  | .str => [34] ++ DataUnion.dStr dp.data ++ [34]
  | .other => []

/-- The rows line up: they have equally many fields, and under each name stands the text of the value. -/
def LinedUp (header row : List Gatherer) (sec usec : Nat) : Prop :=
  (csvFields (headerRow header)).length = (csvFields (dataRow sec usec row)).length ∧
  ∀ i name dp, (nameFields header)[i]? = some name → (columns row)[i]? = some dp →
    (csvFields (headerRow header))[i + 1]? = some name ∧ (csvFields (dataRow sec usec row))[i + 1]? = some (valueField dp)

/-- The gatherers of two rows have the same numbers of data points: a poll changes what they hold. -/
def SameColumns (header row : List Gatherer) : Prop :=
  row.map (fun dpg => dpg.dataPoints.length) = header.map (fun dpg => dpg.dataPoints.length)

/-- The names and prefixes hold no comma. -/
def PlainNames (dpgList : List Gatherer) : Prop :=
  ∀ dpg ∈ dpgList, 44 ∉ dpg.pfx ∧ ∀ dp ∈ dpg.dataPoints, 44 ∉ dpg.priv.text dp.name ∧ ∀ p, dp.pfx = some p → 44 ∉ dpg.priv.text p

/-- The type is one of the declared ones, and a string holds no comma. -/
def PlainValue (dp : DataPoint) : Prop := dp.type ≠ .other ∧ (dp.type = .str → 44 ∉ DataUnion.dStr dp.data)

/-- The value is written as its text: it is no character, and a number of 32 bits is less than `2 ^ 31`, signed or unsigned. -/
def WrittenAsIs (dp : DataPoint) : Prop :=
  match dp.type with
  | .uint | .int => (DataUnion.dUint dp.data).toNat < 2 ^ 31
  | .uchar | .char => False
  | _ => True

namespace CsvAux

/-! ### Fields and commas -/

/-- Fields, each followed by a comma. -/
def joined (fs : List (List UInt8)) : List UInt8 := fs.flatMap (· ++ [44])

/-! ### Rows -/

/-- The field of the time. -/
def timeField (sec usec : Nat) : List UInt8 := padLeft 32 10 (decimal sec) ++ [46] ++ padLeft 48 6 (decimal usec)

/-- The header is the time and the names, with commas between them. -/
theorem headerRow_eq (dpgList : List Gatherer) :
    headerRow dpgList = joined ([34, 84, 105, 109, 101, 34] :: nameFields dpgList) ++ [10] := by
  have hfield : ∀ (dpg : Gatherer) (dp : DataPoint), formatDpNames dpg.priv dpg.pfx dp = nameField dpg dp ++ [44] :=
    fun dpg dp => by simp [formatDpNames, nameField]
  have hname : ∀ dpg : Gatherer, printDpgNamesCsv dpg = joined (dpg.dataPoints.map (nameField dpg)) := by
    intro dpg
    rw [printDpgNamesCsv, joined, List.flatMap_map]
    exact List.flatMap_congr fun dp _ => hfield dpg dp
  have hall : dpgList.flatMap printDpgNamesCsv = joined (nameFields dpgList) := by
    rw [nameFields, joined, List.flatMap_assoc]
    exact List.flatMap_congr fun dpg _ => hname dpg
  rw [headerRow, hall]
  simp [joined]

/-- A row is the time and the values, with commas between them. -/
theorem dataRow_eq (sec usec : Nat) (dpgList : List Gatherer) :
    dataRow sec usec dpgList = joined (timeField sec usec :: (columns dpgList).map formatDpValues) ++ [10] := by
  have hall : dpgList.flatMap printDpgCsv = joined ((columns dpgList).map formatDpValues) := by
    rw [columns, joined, List.flatMap_map, List.flatMap_assoc]
    rfl
  rw [dataRow, writePollingdataCsv, hall]
  simp [joined, printTimeAtPoll, timeField]

/-- The fields of a row are those that were joined. -/
theorem csvFields_joined {fs : List (List UInt8)} (h : ∀ f ∈ fs, 44 ∉ f) : csvFields (joined fs ++ [10]) = fs ++ [[]] := by
  rw [csvFields, List.dropLast_concat, joined, splitOn_ended h]

/-! ### Values -/

/-- An integer has no comma. -/
theorem not_mem_decimalInt (z : Int) : 44 ∉ decimalInt z := by
  intro h
  rcases mem_decimalInt h with h | h
  · exact absurd h (by decide)
  · exact absurd h (by decide)

theorem decimal_eq (n : Nat) : decimal n = decimalInt n := by
  simp [decimalInt]

/-- The signed member is the unsigned one, wrapped. -/
theorem toInt_dInt (u : DataUnion) : (DataUnion.dInt u).toInt = ((DataUnion.dUint u).toNat : Int).bmod (2 ^ 32) := by
  have h := Int32.toInt_ofNat' (n := (DataUnion.dUint u).toNat)
  rwa [← UInt32.toInt32_ofNat', UInt32.ofNat_toNat] at h

/-- An unsigned number of 32 bits and a signed one of the same bits are the same number exactly below `2 ^ 31`. -/
theorem bmod_eq_self_iff {n : Nat} (h : n < 2 ^ 32) : (n : Int).bmod (2 ^ 32) = n ↔ n < 2 ^ 31 := by
  constructor
  · intro heq
    have := Int.bmod_lt (x := (n : Int)) (m := 2 ^ 32) (by decide)
    rw [heq] at this
    omega
  · intro hlt
    exact Int.bmod_eq_of_le (by omega) (by omega)

/-- A value that is no character is written as its text exactly when it is written as it is. -/
theorem formatDpValues_eq_iff {dp : DataPoint} (hother : dp.type ≠ .other) (huchar : dp.type ≠ .uchar)
    (hchar : dp.type ≠ .char) : formatDpValues dp = valueField dp ↔ WrittenAsIs dp := by
  have hinj : ∀ {a b : Int}, decimalInt a = decimalInt b ↔ a = b := ⟨decimalInt_injective, fun h => by rw [h]⟩
  have hlt : (DataUnion.dUint dp.data).toNat < 2 ^ 32 := UInt32.toNat_lt _
  unfold formatDpValues valueField WrittenAsIs
  cases ht : dp.type with
  | ulong => simp [decimal_eq]
  | long => simp
  | uint =>
    simp only [hinj]
    rw [← DataUnion.dInt, toInt_dInt]
    exact bmod_eq_self_iff hlt
  | int =>
    simp only [decimal_eq, hinj, toInt_dInt]
    rw [eq_comm]
    exact bmod_eq_self_iff hlt
  | str => simp
  | uchar => exact absurd ht huchar
  | char => exact absurd ht hchar
  | other => exact absurd ht hother

/-- A character is written with a comma. -/
theorem mem_formatDpValues {dp : DataPoint} (h : dp.type = .uchar ∨ dp.type = .char) : 44 ∈ formatDpValues dp := by
  unfold formatDpValues
  rcases h with h | h <;> simp [h]

/-- Anything else is written without. -/
theorem not_mem_formatDpValues {dp : DataPoint} (h : PlainValue dp) (huchar : dp.type ≠ .uchar) (hchar : dp.type ≠ .char) :
    44 ∉ formatDpValues dp := by
  unfold formatDpValues
  cases ht : dp.type with
  | str => simpa [ht] using h.2 ht
  | ulong => simpa [decimal_eq] using not_mem_decimalInt _
  | long => simpa using not_mem_decimalInt _
  | uint => simpa using not_mem_decimalInt _
  | int => simpa [decimal_eq] using not_mem_decimalInt _
  | uchar => exact absurd ht huchar
  | char => exact absurd ht hchar
  | other => exact absurd ht h.1

/-- Padding brings no comma. -/
theorem not_mem_padLeft {fill : UInt8} {width : Nat} {s : List UInt8} (hf : fill ≠ 44) (hs : 44 ∉ s) :
    44 ∉ padLeft fill width s := by
  simp [padLeft, hs, hf.symm]

/-- The time has no comma. -/
theorem not_mem_timeField (sec usec : Nat) : 44 ∉ timeField sec usec := by
  have h : ∀ n, 44 ∉ decimal n := fun n => decimal_eq n ▸ not_mem_decimalInt _
  simp [timeField, not_mem_padLeft (show (32 : UInt8) ≠ 44 by decide) (h sec),
    not_mem_padLeft (show (48 : UInt8) ≠ 44 by decide) (h usec)]

/-- Plain names have no comma. -/
theorem not_mem_nameFields {dpgList : List Gatherer} (h : PlainNames dpgList) : ∀ f ∈ nameFields dpgList, 44 ∉ f := by
  intro f hf
  obtain ⟨dpg, hdpg, hf⟩ := List.mem_flatMap.mp hf
  obtain ⟨dp, hdp, rfl⟩ := List.mem_map.mp hf
  obtain ⟨hpfx, hpoints⟩ := h dpg hdpg
  obtain ⟨hname, hp⟩ := hpoints dp hdp
  have hdpfx : 44 ∉ dp.pfx.elim [] dpg.priv.text := by
    cases hdp : dp.pfx with
    | none => simp
    | some p => exact hp p hdp
  simp [nameField, hpfx, hname, hdpfx]

theorem length_nameFields (header row : List Gatherer) (h : SameColumns header row) :
    (nameFields header).length = (columns row).length := by
  have h' := congrArg List.sum h
  simpa [nameFields, columns, List.length_flatMap] using h'.symm

end CsvAux

open CsvAux in
/-- For any gatherers with plain names, and what they hold at a later row: the rows line up exactly when every value is
written as it is. -/
theorem columns_lined_up_iff (header row : List Gatherer) (sec usec : Nat) (hcols : SameColumns header row)
    (hnames : PlainNames header) (hvalues : ∀ dp ∈ columns row, PlainValue dp) :
    LinedUp header row sec usec ↔ ∀ dp ∈ columns row, WrittenAsIs dp := by
  have hlen := length_nameFields header row hcols
  have hheader : csvFields (headerRow header) = [34, 84, 105, 109, 101, 34] :: nameFields header ++ [[]] := by
    rw [headerRow_eq, csvFields_joined]
    intro f hf
    rcases List.mem_cons.mp hf with rfl | hf
    · decide
    · exact not_mem_nameFields hnames f hf
  by_cases hchar : ∃ dp ∈ columns row, dp.type = .uchar ∨ dp.type = .char
  · -- A character adds a field: the numbers of fields differ.
    obtain ⟨dp, hdp, ht⟩ := hchar
    refine iff_of_false (fun hl => ?_) (fun hw => ?_)
    · have hcount := hl.1
      rw [hheader, csvFields, dataRow_eq, List.dropLast_concat, splitOn_length, joined, count_ended] at hcount
      have hmem : 44 ∈ (timeField sec usec :: (columns row).map formatDpValues).flatten :=
        List.mem_flatten.mpr ⟨_, List.mem_cons_of_mem _ (List.mem_map_of_mem hdp), mem_formatDpValues ht⟩
      have hpos := List.count_pos_iff.mpr hmem
      simp only [List.length_append, List.length_cons, List.length_nil, List.length_map] at hcount
      omega
    · have := hw dp hdp
      rcases ht with ht | ht <;> simp [WrittenAsIs, ht] at this
  · -- Otherwise the fields of the row are the values as they are written.
    have hplain : ∀ dp ∈ columns row, dp.type ≠ .uchar ∧ dp.type ≠ .char := fun dp hdp =>
      ⟨fun ht => hchar ⟨dp, hdp, .inl ht⟩, fun ht => hchar ⟨dp, hdp, .inr ht⟩⟩
    have hrow : csvFields (dataRow sec usec row) = timeField sec usec :: (columns row).map formatDpValues ++ [[]] := by
      rw [dataRow_eq, csvFields_joined]
      intro f hf
      rcases List.mem_cons.mp hf with rfl | hf
      · exact not_mem_timeField sec usec
      · obtain ⟨dp, hdp, rfl⟩ := List.mem_map.mp hf
        exact not_mem_formatDpValues (hvalues dp hdp) (hplain dp hdp).1 (hplain dp hdp).2
    have hiff : ∀ dp ∈ columns row, formatDpValues dp = valueField dp ↔ WrittenAsIs dp := fun dp hdp =>
      formatDpValues_eq_iff (hvalues dp hdp).1 (hplain dp hdp).1 (hplain dp hdp).2
    have hget : ∀ {fs : List (List UInt8)} {t f : List UInt8} {i : Nat}, fs[i]? = some f →
        (t :: fs ++ [[]])[i + 1]? = some f := by
      intro fs t f i hf
      rw [List.cons_append, List.getElem?_cons_succ, List.getElem?_append_left (List.getElem?_eq_some_iff.mp hf).1, hf]
    constructor
    · intro hl dp hdp
      obtain ⟨i, hi⟩ := List.mem_iff_getElem?.mp hdp
      have hlt := (List.getElem?_eq_some_iff.mp hi).1
      have hval := (hl.2 i _ dp (List.getElem?_eq_getElem (hlen ▸ hlt)) hi).2
      rw [hrow, hget (by rw [List.getElem?_map, hi, Option.map_some]), Option.some.injEq] at hval
      exact (hiff dp hdp).mp hval
    · intro hw
      refine ⟨by rw [hheader, hrow]; simp [hlen], fun i name dp hname hi => ⟨by rw [hheader, hget hname], ?_⟩⟩
      have hdp := List.mem_of_getElem? hi
      rw [hrow, hget (by rw [List.getElem?_map, hi, Option.map_some]), (hiff dp hdp).mpr (hw dp hdp)]

/-- A data point of a type with a value of zero bytes but for the first four. -/
def pointOf (type : DpType) (name : List UInt8) (bytes : List UInt8) : DataPoint :=
  ⟨.copy name, none, type, Image.zero, false, Image.ofBytes bytes, false⟩

/-- A gatherer of data points. -/
def gathererOf (dps : List DataPoint) : Gatherer := ⟨[47], [47], dps, ⟨2048, 0, fun _ => Image.zero⟩⟩

/-- The rule at a counter and a signed number: `"/::a"` over `7` and `"/::b"` over `-2`. -/
theorem columns_lined_up_counter :
    LinedUp [gathererOf [pointOf .ulong [97] [], pointOf .long [98] []]]
        [gathererOf [pointOf .ulong [97] [7], pointOf .long [98] (254 :: List.replicate 7 255)]] 10 20 ↔
      ∀ dp ∈ columns [gathererOf [pointOf .ulong [97] [7], pointOf .long [98] (254 :: List.replicate 7 255)]],
        WrittenAsIs dp := by
  refine columns_lined_up_iff _ _ 10 20 rfl ?_ ?_
  · simp [PlainNames, gathererOf, pointOf, Vars.text]
  · simp [columns, gathererOf, pointOf, PlainValue]

/-- Two ways not to line up: a character makes a row longer than the header, and an unsigned number above `2 ^ 31` stands there as
a negative one. -/
theorem character_not_lined_up :
    (csvFields (headerRow [gathererOf [pointOf .uchar [97] []]])).length = 3 ∧
      (csvFields (dataRow 10 20 [gathererOf [pointOf .uchar [97] [65]]])).length = 4 ∧
      ¬LinedUp [gathererOf [pointOf .uchar [97] []]] [gathererOf [pointOf .uchar [97] [65]]] 10 20 ∧
      (csvFields (dataRow 10 20 [gathererOf [pointOf .uint [97] [255, 255, 255, 255]]]))[1]? = some [45, 49] := by
  have h3 : (csvFields (headerRow [gathererOf [pointOf .uchar [97] []]])).length = 3 := by decide
  have h4 : (csvFields (dataRow 10 20 [gathererOf [pointOf .uchar [97] [65]]])).length = 4 := by decide
  refine ⟨h3, h4, ?_, by decide⟩
  intro h
  have := h.1
  omega

end Pixel845.Datatop
