import Pixel845.Theorems.DatatopDual
import Pixel845.Theorems.DatatopSnapshot
import Pixel845.Theorems.DatatopValues

/-!
# The sign of a value across polls

Whether a data point is signed is settled when it is registered for a dual-line file; for a generic file it is settled by the
first field with a sign, and then for good. A value that the type does not have is printed as another one (`sign_kept_iff`).
-/

namespace Pixel845.Datatop

/-- The pollers that choose between signed and unsigned: `gen` with the directory of the file. -/
inductive SignSource where
  | dual
  | gen (dir : List UInt8)

/-- What a poll finds: the content of the file, and what the read buffer and the stack held before. -/
structure PollInput where
  content : List UInt8
  rest : Image
  line : Image

/-! ## Columns -/

/-- The number of data points for each section of a dual-line file. -/
def sectionCounts (lines : List (List UInt8)) (sections : Nat) : List Nat :=
  (List.range sections).map fun j =>
    min (columnTexts (lines.getD (2 * j) [])).length (columnTexts (lines.getD (2 * j + 1) [])).length

/-- The section of a data point, and its column there. -/
def columnOf : List Nat → Nat → Nat × Nat
  | [], d => (0, d)
  | n :: counts, d => if d < n then (0, d) else ((columnOf counts (d - n)).1 + 1, (columnOf counts (d - n)).2)

/-- The values of a dual-line file under a name and a prefix: in each section with the prefix, that of the first column
with the name. -/
def valuesUnder (lines : List (List UInt8)) (sections : Nat) (name pfx : List UInt8) : List (List UInt8) :=
  (List.range sections).flatMap fun j =>
    if headerPrefix (lines.getD (2 * j) []) = pfx then
      (((columnTexts (lines.getD (2 * j) [])).zip (columnTexts (lines.getD (2 * j + 1) []))).lookup name).toList
    else []

namespace SignSource

/-- What is registered for a file. -/
def search (s : SignSource) (name : List UInt8) (x : PollInput) (vars : Vars) (junk : Nat → DataPoint) :
    Option (Option Gatherer) :=
  match s with
  | dual => dualLineSearch name x.content x.rest vars junk
  | gen dir => some (dpgConstruction dir name x.content x.rest x.line vars junk)

/-- A poll. -/
def poll (s : SignSource) (x : PollInput) (dpg : Gatherer) : Option (Option Gatherer) :=
  match s with
  | dual => dualLinePoll x.content x.rest dpg
  | gen _ => genPoll x.content x.rest x.line dpg

/-- The gatherer after several polls; a file that cannot be read changes nothing. -/
def after (s : SignSource) (polls : List PollInput) (dpg : Gatherer) : Option Gatherer :=
  polls.foldlM (fun dpg x => (s.poll x dpg).map (·.getD dpg)) dpg

/-- The field of a data point in a content: for a dual-line file the text of the column that it was registered for. -/
def field (s : SignSource) (registered : PollInput) (vars : Vars) (x : PollInput) (d : Nat) : Option (List UInt8) :=
  if x.content = [] then none
  else match s with
    | dual =>
      let place := columnOf (sectionCounts (dualLines registered.content registered.rest vars) (vars.lineCount / 2)) d
      (columnTexts ((dualLines x.content x.rest vars).getD (2 * place.1 + 1) []))[place.2]?
    | gen _ => (fields (firstLine x.content x.rest))[d]?

/-- The field is a decimal integer between `-2 ^ 63` and `2 ^ 64 - 1`. -/
def HasField (s : SignSource) (registered : PollInput) (vars : Vars) (x : PollInput) (d : Nat) (text : List UInt8)
    (v : Int) : Prop :=
  s.field registered vars x d = some text ∧ decimalValue text = some v ∧ -2 ^ 63 ≤ v ∧ v < 2 ^ 64

/-- Whether a data point is signed after some fields, when it was registered as signed or not. -/
def signed (s : SignSource) (registered : Bool) (texts : List (List UInt8)) : Bool :=
  match s with
  | dual => registered
  | gen _ => registered || texts.any (·.head? == some 45)

/-- A poll comes to its end and takes for a data point the text, or what leaves the same number: a dual-line file has all its
lines, and the values under the name and the prefix that the data point has in it are as good as the text; a generic one has a
field for each data point. -/
def Finds (s : SignSource) (vars : Vars) (x : PollInput) (dpg : Gatherer) (d : Nat) (text : List UInt8) : Prop :=
  match s with
  | dual => (∀ j < vars.lineCount / 2, SectionFull (dualLines x.content x.rest vars) j) ∧
      ∃ dp pfx, dpg.dataPoints[d]? = some dp ∧ dp.pfx = some pfx ∧
        DataUnion.dUlong ((valuesUnder (dualLines x.content x.rest vars) (vars.lineCount / 2)
          (Poller.dualLine.nameAfter x.content x.rest dpg dp.name) (Poller.dualLine.nameAfter x.content x.rest dpg pfx)).foldl
            storeDp dp).data = DataUnion.dUlong (storeDp dp text).data
  | gen _ => dpg.dataPoints.length ≤ (fields (firstLine x.content x.rest)).length

end SignSource

/-- What is printed for a data point is the integer. -/
def Prints (dpg : Gatherer) (d : Nat) (v : Int) : Prop := ∃ dp, dpg.dataPoints[d]? = some dp ∧ formatDpValues dp = decimalInt v

/-- The integer is one that a data point has which is signed or not. -/
def InType (signed : Bool) (v : Int) : Prop := if signed then v < 2 ^ 63 else 0 ≤ v

/-- A poll comes to its end, and then the integer is printed for the data point. -/
def SignSource.Shows (s : SignSource) (x : PollInput) (dpg : Gatherer) (d : Nat) (v : Int) : Prop :=
  ∃ r, s.poll x dpg = some r ∧ Prints (r.getD dpg) d v

namespace SignAux

open NamesAux SnapshotAux

variable {s : SignSource} {x : PollInput} {dpg : Gatherer} {d : Nat} {dp : DataPoint} {text : List UInt8}
  {type : DpType} {v : Int}

/-- The type of a data point of 64 bits. -/
def typeOf (signed : Bool) : DpType := if signed then .long else .ulong

/-! ### Values under a name -/

/-- The first entry with a key. -/
theorem lookup_zip {α β : Type} [BEq α] [LawfulBEq α] {ks : List α} {vs : List β} {k : α} {q : Nat} (hk : ks[q]? = some k)
    (hfirst : ∀ i < q, ks[i]? ≠ some k) : (ks.zip vs).lookup k = vs[q]? := by
  induction q generalizing ks vs with
  | zero =>
    cases ks with
    | nil => cases hk
    | cons k' ks =>
      obtain rfl := Option.some.inj hk
      cases vs with
      | nil => rfl
      | cons v vs => simp
  | succ q ih =>
    cases ks with
    | nil => cases hk
    | cons k' ks =>
      have hne : (k == k') = false := beq_eq_false_iff_ne.mpr fun heq => hfirst 0 (Nat.succ_pos q) (by rw [heq]; rfl)
      cases vs with
      | nil => rfl
      | cons v vs =>
        rw [List.zip_cons_cons, List.lookup_cons, hne]
        exact ih hk fun i hi => hfirst (i + 1) (by omega)

/-- No entry has the key. -/
theorem lookup_zip_none {α β : Type} [BEq α] [LawfulBEq α] {ks : List α} {vs : List β} {k : α}
    (h : ∀ q < min ks.length vs.length, ks[q]? ≠ some k) : (ks.zip vs).lookup k = none := by
  induction ks generalizing vs with
  | nil => rfl
  | cons k' ks ih =>
    cases vs with
    | nil => rfl
    | cons v vs =>
      have hne : (k == k') = false := beq_eq_false_iff_ne.mpr fun heq => h 0 (by simp) (by rw [heq]; rfl)
      rw [List.zip_cons_cons, List.lookup_cons, hne]
      exact ih fun q hq => h (q + 1) (by simp only [List.length_cons]; omega)

/-- The text of a column is the one that the dictionary has. -/
theorem columnTexts_getD {line : List UInt8} (hlen : line.length ≤ dictSize) {q : Nat} (hq : q < (columnTexts line).length) :
    (columnTexts line)[q]? = some ((cols line).getD q (0, [])).2 := by
  rw [columnTexts, List.length_map] at hq
  rw [DualAux.cols_eq hlen, List.getD_eq_getElem _ _ hq, columnTexts, List.getElem?_map, List.getElem?_eq_getElem hq,
    Option.map_some]

/-- What a section gives a data point: the value under its name, if it has its prefix. -/
theorem call_values {content : List UInt8} {rest : Image} {vars : Vars} (hsize : vars.lineSize ≤ dictSize) {j : Nat}
    (hj : j < vars.lineCount / 2) (hfull : SectionFull (dualLines content rest vars) j) {pfx : Str}
    (hpfx : dp.pfx = some pfx) (d : Nat) :
    ((dualCall (dualParsed content rest vars) (sectionDict (dualLines content rest vars) j)
        (sectionPrefixDict (dualLines content rest vars) j) d dp).getD []).map
          (fun call => (dualParsed content rest vars).cstr call.2) =
      if headerPrefix ((dualLines content rest vars).getD (2 * j) []) = (dualParsed content rest vars).text pfx then
        (((columnTexts ((dualLines content rest vars).getD (2 * j) [])).zip
          (columnTexts ((dualLines content rest vars).getD (2 * j + 1) []))).lookup
          ((dualParsed content rest vars).text dp.name)).toList
      else [] := by
  have heven : 2 * j / 2 = j := by omega
  have hodd : (2 * j + 1) / 2 = j := by omega
  have hnames : ∀ c ∈ cols ((dualLines content rest vars).getD (2 * j) []),
      (dualParsed content rest vars).cstr ⟨.line (2 * j), c.1⟩ = c.2 :=
    dualParsed_line_cstr hsize (by omega) (by rw [heven]; exact hfull.1) (by rw [heven]; exact hfull.2)
  have hvalues : ∀ c ∈ cols ((dualLines content rest vars).getD (2 * j + 1) []),
      (dualParsed content rest vars).cstr ⟨.line (2 * j + 1), c.1⟩ = c.2 :=
    dualParsed_line_cstr hsize (by omega) (by rw [hodd]; exact hfull.1) (by rw [hodd]; exact hfull.2)
  have hlen : ((dualLines content rest vars).getD (2 * j) []).length ≤ dictSize := by
    have h := dualLines_length hfull.1
    omega
  have hlen' : ((dualLines content rest vars).getD (2 * j + 1) []).length ≤ dictSize := by
    have h := dualLines_length hfull.2
    omega
  have hcount : sectionCount (dualLines content rest vars) j =
      min (columnTexts ((dualLines content rest vars).getD (2 * j) [])).length
      (columnTexts ((dualLines content rest vars).getD (2 * j + 1) [])).length := by
    rw [sectionCount, DualAux.cols_eq hlen, DualAux.cols_eq hlen', columnTexts, columnTexts, List.length_map, List.length_map]
  rcases dualCall_cases hfull hpfx hnames (dualParsed_prefix_cstr hsize hj hfull.1) d with
    ⟨hcall, hno⟩ | ⟨q, hq, hcall, hname, hpre, hfirst⟩
  · rw [hcall, Option.getD_some, List.map_nil]
    split
    case isFalse => rfl
    case isTrue hpre =>
      rw [lookup_zip_none, Option.toList_none]
      intro q hq hname
      rw [columnTexts_getD hlen (by omega), Option.some_inj] at hname
      exact hno q (by omega) hname hpre
  · have hval : q < (cols ((dualLines content rest vars).getD (2 * j + 1) [])).length := by
      rw [sectionCount] at hq
      omega
    rw [hcall, Option.getD_some, if_pos hpre, lookup_zip (q := q), columnTexts_getD hlen' (by omega), Option.toList_some,
      List.map_singleton, List.getD_eq_getElem _ _ hval, hvalues _ (List.getElem_mem hval)]
    · rw [columnTexts_getD hlen (by omega), hname]
    · intro i hi hname'
      rw [columnTexts_getD hlen (by omega), Option.some_inj] at hname'
      exact hfirst i hi hname'

/-- What a poll of a dual-line file leaves in a data point: the values under its name and prefix were stored. -/
theorem dual_point {content : List UInt8} {rest : Image} {vars : Vars} (hsize : vars.lineSize ≤ dictSize)
    (hshape : Shaped .dualLine vars dpg) (hdp : dpg.dataPoints[d]? = some dp) {pfx : Str} (hpfx : dp.pfx = some pfx)
    (hfull : ∀ j < vars.lineCount / 2, SectionFull (dualLines content rest vars) j) {dpg' : Gatherer}
    (hpoll : dualLinePoll content rest dpg = some (some dpg')) :
    dpg'.dataPoints[d]? = some ((valuesUnder (dualLines content rest vars) (vars.lineCount / 2)
      (Poller.dualLine.nameAfter content rest dpg dp.name) (Poller.dualLine.nameAfter content rest dpg pfx)).foldl
      storeDp dp) := by
  have hlines : dualLines content rest vars = dualLines content rest dpg.priv := by
    rw [dualLines, dualLines, hshape.lineSize, hshape.lineCount]
  have hcount := hshape.lineCount
  have hsize' : dpg.priv.lineSize ≤ dictSize := hshape.lineSize ▸ hsize
  have hne : content ≠ [] := by
    intro hnil
    rw [dualLinePoll, if_pos hnil] at hpoll
    cases hpoll
  rw [hlines] at hfull
  rw [hlines, ← hcount]
  -- The name and the prefix as the poll finds them.
  have hends : (Poller.dualLine = .dualLine ∨ Poller.dualLine = .dev) →
      Poller.dualLine.Polls content rest dpg [] := fun _ => .inr (hcount ▸ hfull)
  have hmem := List.mem_of_getElem? hdp
  have hparsed : Refilled .dualLine content rest dpg (dualParsed content rest dpg.priv) := by
    have h : Refilled .dualLine content rest dpg (dualParse content rest dpg.priv).1 := dualLine_refilled
    rwa [dualParse_eq] at h
  have hname := refilled_name hshape hsize hends hparsed hmem
  have hfront : (dualParsed content rest dpg.priv).text pfx = Poller.dualLine.nameAfter content rest dpg pfx := by
    cases pfx with
    | copy str => rfl
    | ptr q =>
      refine refilled_text hshape hsize hends hparsed hmem ?_
      simp [DataPoint.pointers, Str.pointer, hpfx]
  rw [← hname, ← hfront]
  have hcalls := dualCalls_eq (dualCall_isSome hshape hsize' fun _ => hcount ▸ hfull)
  simp only [dualLinePoll, if_neg hne, dualParse_eq, hcalls, Option.bind_eq_bind, Option.bind_some, Option.bind_eq_some_iff,
    Option.pure_def, Option.some_inj] at hpoll
  obtain ⟨points, hstore, rfl⟩ := hpoll
  rw [(storeAll_eq hstore).2.2 d, hdp, Option.map_some, callsAt_flatten, List.flatMap_map, List.map_flatMap, valuesUnder]
  congr 2
  refine List.flatMap_congr fun j hj => ?_
  have hj := List.mem_range.mp hj
  rw [callsAt_callsOf hdp, List.map_map]
  exact call_values hsize' hj (hfull j (hcount ▸ hj)) hpfx d

/-! ### What is printed -/

theorem decimal_eq (n : Nat) : decimal n = decimalInt n := by
  unfold decimalInt
  rw [if_neg (by omega), Int.natAbs_natCast]

/-- A data point is printed as the integer that it holds. -/
theorem format_eq {signed : Bool} (htype : dp.type = typeOf signed) :
    formatDpValues dp = decimalInt (valueOf (typeOf signed) dp.data) := by
  rw [formatDpValues, htype]
  cases signed with
  | true => rfl
  | false => exact decimal_eq _

/-- The integer that is printed is one of the type. -/
theorem valueOf_inType (signed : Bool) (u : DataUnion) : InType signed (valueOf (typeOf signed) u) := by
  cases signed with
  | true => exact Int64.toInt_lt _
  | false => exact Int.natCast_nonneg _

/-- Different bits are different integers. -/
theorem valueOf_inj {signed : Bool} {u u' : DataUnion} :
    valueOf (typeOf signed) u = valueOf (typeOf signed) u' ↔ DataUnion.dUlong u = DataUnion.dUlong u' := by
  cases signed with
  | true =>
    show (DataUnion.dLong u).toInt = (DataUnion.dLong u').toInt ↔ _
    rw [Int64.toInt_inj]
    refine ⟨fun h => ?_, fun h => by rw [DataUnion.dLong, DataUnion.dLong, h]⟩
    simpa [DataUnion.dLong] using congrArg Int64.toUInt64 h
  | false =>
    show ((DataUnion.dUlong u).toNat : Int) = (DataUnion.dUlong u').toNat ↔ _
    rw [Int.natCast_inj, UInt64.toNat_inj]

/-- An integer is kept by a store exactly if the type has it. -/
theorem valueOf_store_iff {signed : Bool} (hv : decimalValue text = some v) (hlo : -2 ^ 63 ≤ v) (hhi : v < 2 ^ 64)
    (u : DataUnion) : valueOf (typeOf signed) (sscanf (typeOf signed) text u) = v ↔ InType signed v := by
  constructor
  · exact fun h => h ▸ valueOf_inType signed _
  cases signed with
  | true => exact fun hlt => valueOf_sscanf (.inr rfl) ⟨hv, hlo, hlt⟩ u
  | false => exact fun hle => valueOf_sscanf (.inl rfl) ⟨hv, hle, hhi⟩ u

/-- A data point prints the integer of a text exactly if its type has it and it holds what the text leaves. -/
theorem prints_iff {signed : Bool} (hv : decimalValue text = some v) (hlo : -2 ^ 63 ≤ v) (hhi : v < 2 ^ 64)
    (htype : dp.type = typeOf signed) (u : DataUnion) :
    formatDpValues dp = decimalInt v ↔
      InType signed v ∧ DataUnion.dUlong dp.data = DataUnion.dUlong (sscanf (typeOf signed) text u) := by
  rw [format_eq htype, (show decimalInt (valueOf (typeOf signed) dp.data) = decimalInt v ↔
    valueOf (typeOf signed) dp.data = v from
    ⟨fun h => decimalInt_injective h, fun h => by rw [h]⟩), ← valueOf_inj, ← valueOf_store_iff hv hlo hhi u]
  constructor
  · intro h
    have hin := (valueOf_store_iff hv hlo hhi u).mpr (h ▸ valueOf_inType signed dp.data)
    exact ⟨hin, h.trans hin.symm⟩
  · exact fun h => h.2.trans h.1

/-! ### One poll -/

/-- A data point as polls find it: of 64 bits, signed or not, and for a dual-line file where the search put it. -/
structure Current (s : SignSource) (vars : Vars) (dpg : Gatherer) (d : Nat) (signed : Bool) (dp : DataPoint) : Prop where
  shaped : s = .dual → Shaped .dualLine vars dpg
  point : dpg.dataPoints[d]? = some dp
  type : dp.type = typeOf signed

variable {registered : PollInput} {vars : Vars} {signed : Bool}

/-- A field is one of a content that is not empty. -/
theorem field_content (h : s.field registered vars x d = some text) : x.content ≠ [] := by
  intro hnil
  unfold SignSource.field at h
  rw [if_pos hnil] at h
  cases h

/-- A poll that comes to its end leaves the data point with the type that the field gives it. -/
theorem current_next (hcur : Current s vars dpg d signed dp) (hfield : s.field registered vars x d = some text)
    {r : Option Gatherer} (hpoll : s.poll x dpg = some r) :
    ∃ dp', Current s vars (r.getD dpg) d (s.signed signed [text]) dp' := by
  have hne := field_content hfield
  unfold SignSource.field at hfield
  rw [if_neg hne] at hfield
  cases s with
  | dual =>
    cases r with
    | none => exact absurd hpoll (poll_ne_failed (p := .dualLine) hne)
    | some dpg' =>
      have hpolled := dualLine_polled hpoll
      have hshaped := (hcur.shaped rfl).of_fixed hpolled.fixed hpolled.refilled.lineSize hpolled.refilled.lineCount
      have hget := congrArg (fun l => l[d]?) hpolled.fixed
      simp only [List.getElem?_map, hcur.point, Option.map_some] at hget
      obtain ⟨dp', hdp', heq⟩ := Option.map_eq_some_iff.mp hget
      exact ⟨dp', fun _ => hshaped, hdp', (congrArg (·.2.2.1) heq).trans hcur.type⟩
  | gen dir =>
    have hget := (ValuesAux.usesOwn_of_poll (s := .gen dir) hpoll).2 d dp hcur.point
    change (fields (firstLine x.content x.rest))[d]? = some text at hfield
    rw [if_neg hne, hfield, Option.elim_some] at hget
    refine ⟨_, ⟨fun h => (by cases h), hget, ?_⟩⟩
    rw [ValueSource.store, storeDp_type]
    by_cases hsign : text.head? = some 45
    · simp [hsign, SignSource.signed, typeOf]
    · have hplain : (text.head? == some 45) = false := beq_eq_false_iff_ne.mpr hsign
      simp [hsign, hplain, SignSource.signed, hcur.type]

/-- What is printed for a data point. -/
theorem prints_point {dpg' : Gatherer} (hdp : dpg'.dataPoints[d]? = some dp) :
    Prints dpg' d v ↔ formatDpValues dp = decimalInt v := by
  constructor
  · rintro ⟨dp', hdp', h⟩
    obtain rfl := Option.some.inj (hdp'.symm.trans hdp)
    exact h
  · exact fun h => ⟨dp, hdp, h⟩

/-- A poll of a dual-line file. -/
theorem dual_shows_iff (hsize : vars.lineSize ≤ dictSize) (hcur : Current .dual vars dpg d signed dp) (hne : x.content ≠ [])
    (hv : decimalValue text = some v) (hlo : -2 ^ 63 ≤ v) (hhi : v < 2 ^ 64) :
    SignSource.dual.Shows x dpg d v ↔ InType signed v ∧ SignSource.dual.Finds vars x dpg d text := by
  have hshape := hcur.shaped rfl
  have hmem := List.mem_of_getElem? hcur.point
  obtain ⟨pfx, hpfx⟩ := Option.isSome_iff_exists.mp (hshape.points dp hmem)
  have hlines : dualLines x.content x.rest vars = dualLines x.content x.rest dpg.priv := by
    rw [dualLines, dualLines, hshape.lineSize, hshape.lineCount]
  have hends : (∃ r, dualLinePoll x.content x.rest dpg = some r) ↔
      ∀ j < vars.lineCount / 2, SectionFull (dualLines x.content x.rest vars) j := by
    have hpolls : (∃ r, dualLinePoll x.content x.rest dpg = some r) ↔ Poller.dualLine.Polls x.content x.rest dpg [] :=
      dualLine_ends hshape (hshape.lineSize ▸ hsize) hne
    rw [hpolls, hlines, ← hshape.lineCount]
    exact ⟨fun h => h.resolve_left (List.ne_nil_of_mem hmem), .inr⟩
  -- What a poll that comes to its end prints.
  have hprints : ∀ r, dualLinePoll x.content x.rest dpg = some r → (Prints (r.getD dpg) d v ↔ InType signed v ∧
      DataUnion.dUlong ((valuesUnder (dualLines x.content x.rest vars) (vars.lineCount / 2)
        (Poller.dualLine.nameAfter x.content x.rest dpg dp.name) (Poller.dualLine.nameAfter x.content x.rest dpg pfx)).foldl
          storeDp dp).data = DataUnion.dUlong (storeDp dp text).data) := by
    intro r hpoll
    cases r with
    | none => exact absurd hpoll (poll_ne_failed (p := .dualLine) hne)
    | some dpg' =>
      have hpoint := dual_point hsize hshape hcur.point hpfx (hends.mp ⟨_, hpoll⟩) hpoll
      have hfixed := foldl_fixed (valuesUnder (dualLines x.content x.rest vars) (vars.lineCount / 2)
        (Poller.dualLine.nameAfter x.content x.rest dpg dp.name) (Poller.dualLine.nameAfter x.content x.rest dpg pfx)) dp
      have htype := (congrArg (·.2.2.1) hfixed).trans hcur.type
      rw [Option.getD_some, prints_point hpoint, prints_iff hv hlo hhi htype dp.data, storeDp_data, hcur.type]
  constructor
  · rintro ⟨r, hpoll, h⟩
    obtain ⟨hin, heq⟩ := (hprints r hpoll).mp h
    exact ⟨hin, hends.mp ⟨r, hpoll⟩, dp, pfx, hcur.point, hpfx, heq⟩
  · rintro ⟨hin, hfull, dp', pfx', hdp', hpfx', heq⟩
    obtain rfl := Option.some.inj (hcur.point.symm.trans hdp')
    obtain rfl := Option.some.inj (hpfx.symm.trans hpfx')
    obtain ⟨r, hpoll⟩ := hends.mpr hfull
    exact ⟨r, hpoll, (hprints r hpoll).mpr ⟨hin, heq⟩⟩

/-- A poll of a file of a directory. -/
theorem gen_shows_iff {dir : List UInt8} (hcur : Current (.gen dir) vars dpg d signed dp) (hne : x.content ≠ [])
    (htext : (fields (firstLine x.content x.rest))[d]? = some text) (hv : decimalValue text = some v) (hlo : -2 ^ 63 ≤ v)
    (hhi : v < 2 ^ 64) :
    (SignSource.gen dir).Shows x dpg d v ↔
      InType ((SignSource.gen dir).signed signed [text]) v ∧ (SignSource.gen dir).Finds vars x dpg d text := by
  have hprints : ∀ r, genPoll x.content x.rest x.line dpg = some r →
      (Prints (r.getD dpg) d v ↔ InType ((SignSource.gen dir).signed signed [text]) v) := by
    intro r hpoll
    have hfield : (SignSource.gen dir).field x vars x d = some text := by
      unfold SignSource.field
      rw [if_neg hne]
      exact htext
    obtain ⟨dp', hcur'⟩ := current_next hcur hfield hpoll
    have hget := (ValuesAux.usesOwn_of_poll (s := .gen dir) hpoll).2 d dp hcur.point
    rw [if_neg hne, htext, Option.elim_some] at hget
    have hdp' := Option.some.inj (hcur'.point.symm.trans hget)
    rw [prints_point hcur'.point, prints_iff hv hlo hhi hcur'.type dp.data, and_iff_left]
    have htype := hcur'.type
    rw [hdp', ValueSource.store, storeDp_type] at htype
    rw [hdp', ValueSource.store, storeDp_data, htype]
    split
    · rfl
    · rfl
  constructor
  · rintro ⟨r, hpoll, h⟩
    exact ⟨(hprints r hpoll).mp h, (ValuesAux.usesOwn_of_poll (s := .gen dir) hpoll).1.resolve_left hne⟩
  · rintro ⟨hin, hlen⟩
    obtain ⟨r, hpoll⟩ := ValuesAux.poll_isSome (.gen dir) x.rest x.line (.inr hlen)
    exact ⟨r, hpoll, (hprints r hpoll).mpr hin⟩

/-- What one poll shows. -/
theorem shows_iff (hsize : s = .dual → vars.lineSize ≤ dictSize) (hcur : Current s vars dpg d signed dp)
    (h : s.HasField registered vars x d text v) :
    s.Shows x dpg d v ↔ InType (s.signed signed [text]) v ∧ s.Finds vars x dpg d text := by
  obtain ⟨hfield, hv, hlo, hhi⟩ := h
  have hne := field_content hfield
  unfold SignSource.field at hfield
  rw [if_neg hne] at hfield
  cases s with
  | dual => exact dual_shows_iff (hsize rfl) hcur hne hv hlo hhi
  | gen dir => exact gen_shows_iff hcur hne hfield hv hlo hhi

/-! ### Runs -/

/-- Whether the type is signed after another field. -/
theorem signed_append (s : SignSource) (signed : Bool) (texts : List (List UInt8)) (text : List UInt8) :
    s.signed signed (texts ++ [text]) = s.signed (s.signed signed texts) [text] := by
  cases s <;> simp [SignSource.signed, Bool.or_assoc]

/-- Another poll at the end. -/
theorem after_snoc (polls : List PollInput) (x : PollInput) (dpg : Gatherer) :
    s.after (polls ++ [x]) dpg = (s.after polls dpg).bind fun dpg => (s.poll x dpg).map (·.getD dpg) := by
  rw [SignSource.after, List.foldlM_append]
  refine bind_congr fun dpg => ?_
  rw [List.foldlM_cons]
  exact bind_pure _

/-- After polls at which there was a field each time, the data point has the type that these give it. -/
theorem after_current (hcur : Current s vars dpg d signed dp) {polls : List PollInput}
    (hfields : ∀ x ∈ polls, ∃ text v, s.HasField registered vars x d text v) {dpg' : Gatherer}
    (h : s.after polls dpg = some dpg') :
    ∃ dp', Current s vars dpg' d (s.signed signed (polls.filterMap fun x => s.field registered vars x d)) dp' := by
  induction polls using List.reverseRecOn generalizing dpg' with
  | nil =>
    obtain rfl := Option.some.inj h
    refine ⟨dp, ?_⟩
    have hnil : s.signed signed [] = signed := by cases s <;> simp [SignSource.signed]
    rwa [List.filterMap_nil, hnil]
  | append_singleton polls x ih =>
    rw [after_snoc, Option.bind_eq_some_iff] at h
    obtain ⟨dpg1, hafter, h⟩ := h
    obtain ⟨r, hpoll, rfl⟩ := Option.map_eq_some_iff.mp h
    obtain ⟨dp1, hcur1⟩ := ih (fun x hx => hfields x (List.mem_append_left _ hx)) hafter
    obtain ⟨text, v, hfield, -⟩ := hfields x (List.mem_append_right _ (List.mem_singleton_self x))
    rw [List.filterMap_append, List.filterMap_cons, hfield, List.filterMap_nil, signed_append]
    exact current_next hcur1 hfield hpoll

/-! ### Registration -/
theorem dualPoints_type {vars : Vars} {junk : Nat → DataPoint} {count : Nat} {sections : List (Dict × Dict)}
    {points : List DataPoint} (h : dualPoints vars junk count sections = some points) :
    ∀ dp ∈ points, dp.type = .long ∨ dp.type = .ulong := by
  induction sections generalizing count points with
  | nil =>
    cases h
    simp
  | cons sec sections ih =>
    simp only [dualPoints, dualSection, Option.bind_eq_bind, Option.bind_eq_some_iff, Option.pure_def, Option.some_inj] at h
    obtain ⟨own, ⟨max, -, hown⟩, rest, hrest, rfl⟩ := h
    intro dp hmem
    rcases List.mem_append.mp hmem with hmem | hmem
    · have hall := mapM_eq_some.mp hown
      obtain ⟨i, hi, rfl⟩ := List.getElem_of_mem hmem
      have hi := hall.get (by rwa [hall.length_eq]) hi
      simp only [Option.bind_eq_some_iff, Option.some_inj] at hi
      obtain ⟨val, -, key, -, pfx, -, hi⟩ := hi
      change _ = own[i] at hi
      rw [← hi]
      simp only
      split
      · exact .inl rfl
      · exact .inr rfl
    · exact ih hrest dp hmem

/-- What is registered. -/
theorem search_current {name : List UInt8} {junk : Nat → DataPoint} (h : s.search name x vars junk = some (some dpg))
    (hdp : dpg.dataPoints[d]? = some dp) : Current s vars dpg d (decide (dp.type = .long)) dp := by
  have htypes : dp.type = .long ∨ dp.type = .ulong := by
    have hmem := List.mem_of_getElem? hdp
    cases s with
    | dual =>
      simp only [SignSource.search, dualLineSearch] at h
      split at h
      · cases h
      · simp only [Option.bind_eq_bind, Option.bind_eq_some_iff, Option.pure_def, Option.some_inj] at h
        obtain ⟨points, hpoints, rfl⟩ := h
        exact dualPoints_type hpoints dp hmem
    | gen dir =>
      simp only [SignSource.search, dpgConstruction, Option.some_inj] at h
      split at h
      · cases h
        obtain ⟨i, -, rfl⟩ := List.mem_map.mp hmem
        exact .inr rfl
      · cases h
  refine ⟨fun hs => ?_, hdp, ?_⟩
  · subst hs
    exact dualLine_shaped h
  · rcases htypes with ht | ht <;> simp [ht, typeOf]

end SignAux

open SignAux in
/-- For every data point that was registered for a file and every run of polls in each of which its field is an integer between
`-2 ^ 63` and `2 ^ 64 - 1`: all polls come to their ends and print the integer of the file if and only if at each of them it is
below `2 ^ 63` while the data point is signed, and not negative while it is not, and the poll finds the field. -/
theorem sign_kept_iff (s : SignSource) (name : List UInt8) (x₀ : PollInput) (vars : Vars)
    (hsize : s = .dual → vars.lineSize ≤ dictSize) (junk : Nat → DataPoint) (registered : Gatherer)
    (hreg : s.search name x₀ vars junk = some (some registered)) (d : Nat) (dp : DataPoint)
    (hdp : registered.dataPoints[d]? = some dp) (polls : List PollInput)
    (hfields : ∀ x ∈ polls, ∃ text v, s.HasField x₀ vars x d text v) :
    (∀ pre x, pre ++ [x] <+: polls → ∃ dpg, s.after pre registered = some dpg ∧
        ∀ text v, s.HasField x₀ vars x d text v → s.Shows x dpg d v) ↔
      ∀ pre x, pre ++ [x] <+: polls → ∀ dpg, s.after pre registered = some dpg → ∀ text v, s.HasField x₀ vars x d text v →
        InType (s.signed (dp.type = .long) ((pre ++ [x]).filterMap fun x => s.field x₀ vars x d)) v ∧
        s.Finds vars x dpg d text := by
  have hcur := search_current hreg hdp
  -- One poll after some others.
  have hpoll : ∀ pre x, pre ++ [x] <+: polls → ∀ dpg, s.after pre registered = some dpg →
      ∀ text v, s.HasField x₀ vars x d text v →
        (s.Shows x dpg d v ↔ InType (s.signed (dp.type = .long) ((pre ++ [x]).filterMap fun x => s.field x₀ vars x d)) v ∧
        s.Finds vars x dpg d text) := by
    intro pre x hpre dpg hafter text v hfield
    have hmem : ∀ y ∈ pre, y ∈ polls := fun y hy => hpre.subset (List.mem_append_left _ hy)
    obtain ⟨dp', hcur'⟩ := after_current hcur (fun y hy => hfields y (hmem y hy)) hafter
    rw [List.filterMap_append, List.filterMap_cons, hfield.1, List.filterMap_nil, signed_append]
    exact shows_iff hsize hcur' hfield
  constructor
  · intro h pre x hpre dpg hafter text v hfield
    obtain ⟨dpg', hafter', hshows⟩ := h pre x hpre
    obtain rfl := Option.some.inj (hafter.symm.trans hafter')
    exact (hpoll pre x hpre dpg hafter text v hfield).mp (hshows text v hfield)
  · intro h
    -- The induction is on the polls: each comes to its end after those before it.
    have hafter : ∀ pre, pre <+: polls → ∃ dpg, s.after pre registered = some dpg := by
      intro pre hpre
      induction pre using List.reverseRecOn with
      | nil => exact ⟨registered, rfl⟩
      | append_singleton pre y ih =>
        obtain ⟨dpg, hdpg⟩ := ih ((List.prefix_append pre [y]).trans hpre)
        obtain ⟨text, v, hfield⟩ := hfields y (hpre.subset (List.mem_append_right _ (List.mem_singleton_self y)))
        obtain ⟨r, hr, -⟩ := (hpoll pre y hpre dpg hdpg text v hfield).mpr (h pre y hpre dpg hdpg text v hfield)
        exact ⟨r.getD dpg, by rw [after_snoc, hdpg, Option.bind_some, hr, Option.map_some]⟩
    intro pre x hpre
    obtain ⟨dpg, hdpg⟩ := hafter pre ((List.prefix_append pre [x]).trans hpre)
    exact ⟨dpg, hdpg, fun text v hfield => (hpoll pre x hpre dpg hdpg text v hfield).mpr (h pre x hpre dpg hdpg text v hfield)⟩

/-! ## Files with the headers that were registered -/

/-- The section and the column of a number. -/
theorem columnOf_sum {counts : List Nat} {k i n : Nat} (hk : counts[k]? = some n) (hi : i < n) :
    columnOf counts ((counts.take k).sum + i) = (k, i) := by
  induction counts generalizing k with
  | nil => cases hk
  | cons m counts ih =>
    cases k with
    | zero =>
      obtain rfl := Option.some.inj hk
      simp [columnOf, hi]
    | succ k =>
      have hsub : (List.take (k + 1) (m :: counts)).sum + i - m = (counts.take k).sum + i := by
        rw [List.take_succ_cons, List.sum_cons]
        omega
      have hge : ¬(List.take (k + 1) (m :: counts)).sum + i < m := by
        rw [List.take_succ_cons, List.sum_cons]
        omega
      rw [columnOf, if_neg hge, hsub, ih hk]

section Sections

open DualAux SignAux

variable {old new : List DualSection} {vars : Vars} {k i : Nat} {s s' : DualSection}

/-- The counts of sections that were read. -/
theorem sectionCounts_texts (sections : List DualSection) :
    sectionCounts (dualTexts sections) sections.length = sections.map DualSection.count := by
  refine List.ext_getElem (by simp [sectionCounts]) fun j hj hj' => ?_
  rw [sectionCounts, List.length_map, List.length_range] at hj
  obtain ⟨hheader, hvalues⟩ := dualTexts_getD (List.getElem?_eq_getElem hj)
  simp only [sectionCounts, List.getElem_map, List.getElem_range, hheader, hvalues, DualSection.count]

/-- The field of the data point for a column is the text of this column. -/
theorem field_column {rest rest' line line' : Image} (hold : DualFits vars.lineSize old) (hnew : DualFits vars.lineSize new)
    (hcount : vars.lineCount = 2 * old.length) (hcount' : vars.lineCount = 2 * new.length) (hs : old[k]? = some s)
    (hs' : new[k]? = some s') (hi : i < s.count) :
    SignSource.dual.field ⟨dualContent old, rest, line⟩ vars ⟨dualContent new, rest', line'⟩ (pointIndex old k i) =
      (columnTexts s'.values)[i]? := by
  have hne : new ≠ [] := List.ne_nil_of_mem (List.mem_of_getElem? hs')
  have hplace : columnOf (sectionCounts (dualTexts old) old.length) (pointIndex old k i) = (k, i) := by
    rw [sectionCounts_texts, pointIndex, List.map_take]
    exact columnOf_sum (by rw [List.getElem?_map, hs]; rfl) hi
  unfold SignSource.field
  rw [if_neg (content_ne hne)]
  simp only [dualLines_content rest hold hcount, dualLines_content rest' hnew hcount',
    show vars.lineCount / 2 = old.length by omega, hplace, (dualTexts_getD hs').2]

/-- The runs are those of the poller. -/
theorem after_polls {polls : List PollInput} {registered dpg : Gatherer} (h : SignSource.dual.after polls registered = some dpg) :
    AfterPolls Poller.dualLine.poll registered dpg := by
  induction polls using List.reverseRecOn generalizing dpg with
  | nil =>
    obtain rfl := Option.some.inj h
    exact .registered
  | append_singleton polls x ih =>
    rw [after_snoc, Option.bind_eq_some_iff] at h
    obtain ⟨dpg1, hafter, h⟩ := h
    obtain ⟨r, hpoll, rfl⟩ := Option.map_eq_some_iff.mp h
    exact .poll x.content x.rest (ih hafter) hpoll

variable (old new) in
/-- A poll of sections with the headers that were registered finds the field of every data point, if no pair of prefix and name
occurs twice. -/
theorem finds_column {name : List UInt8} {rest rest' line' : Image} {junk : Nat → DataPoint} {registered dpg : Gatherer}
    (hsize : vars.lineSize ≤ dictSize) (hold : DualFits vars.lineSize old) (hnew : DualFits vars.lineSize new)
    (hcount : vars.lineCount = 2 * old.length) (hheaders : new.map DualSection.header = old.map DualSection.header)
    (hpairs : (dualPairs old).Nodup) (hreg : dualLineSearch name (dualContent old) rest vars junk = some (some registered))
    {polls : List PollInput} (hafter : SignSource.dual.after polls registered = some dpg) (hs : old[k]? = some s)
    (hs' : new[k]? = some s')
    (hi : i < s.count) {text : List UInt8} (htext : (columnTexts s'.values)[i]? = some text) :
    SignSource.dual.Finds vars ⟨dualContent new, rest', line'⟩ dpg (pointIndex old k i) text := by
  have hlen : new.length = old.length := by simpa using congrArg List.length hheaders
  have hne : old ≠ [] := List.ne_nil_of_mem (List.mem_of_getElem? hs)
  have hne' : new ≠ [] := List.ne_nil_of_mem (List.mem_of_getElem? hs')
  obtain ⟨hfixed, hpsize, hpcount⟩ := NamesAux.after_fixed (p := .dualLine) (after_polls hafter)
  have hshape := (NamesAux.dualLine_shaped hreg).of_fixed hfixed hpsize hpcount
  rw [search_eq name junk hold hne hcount] at hreg
  obtain rfl := Option.some.inj (Option.some.inj hreg)
  rw [dualParsed_lineSize] at hpsize
  rw [dualParsed_lineCount] at hpcount
  obtain ⟨vars', parsed, calls, points, -, -, hpoll, hstore, hpaired⟩ : DualPaired old new rest' dpg :=
    poll_paired hold hsize (hpsize ▸ hnew) hne' (by rw [hpcount, hcount, hlen]) (hpsize ▸ hsize) hheaders hpairs hfixed
  obtain ⟨p, hcall, hp⟩ := (hpaired k s s' i hs hs' hi).1 text htext
  -- What the poll leaves in the data point, told in two ways.
  have hstored := storeAll_single hstore hcall
  have hlines := dualLines_content rest' hnew (by omega)
  have hfull : ∀ j < vars.lineCount / 2, SectionFull (dualLines (dualContent new) rest' vars) j := by
    intro j hj
    rw [hlines]
    exact sectionFull (List.getElem?_eq_getElem (by omega))
  obtain ⟨dp, hdp, -, hpfx⟩ := fixed_column hfixed hold hsize hs hi
  have hpoint := dual_point hsize hshape hdp hpfx hfull hpoll
  rw [hdp, Option.map_some, hp] at hstored
  refine ⟨hfull, dp, _, hdp, hpfx, ?_⟩
  rw [Option.some.inj (hpoint.symm.trans hstored)]

end Sections

/-- A file with the sections `X: a b` and `Y: a`, with the values `X: ` and `Y: 3`. -/
def signSections (values : List UInt8) (h : 10 ∉ values) : List DualSection :=
  [⟨[88, 58, 32, 97, 32, 98], [88, 58, 32] ++ values, by decide, by simp, by decide, by simpa using h⟩,
    ⟨[89, 58, 32, 97], [89, 58, 32, 51], by decide, by decide, by decide, by decide⟩]

/-- What a poll finds of it. -/
def signInput (values : List UInt8) (h : 10 ∉ values) : PollInput := ⟨dualContent (signSections values h), .zero, .zero⟩

/-- What the search registers for the values `-5 1`. -/
def signRegistered : Option Gatherer :=
  (SignSource.dual.search [110] (signInput [45, 53, 32, 49] (by decide)) (.cleared 2048 4) fun _ => .blank).join

/-- A data point that was registered with `-5` keeps the sign of `-7` and prints `4` after it. -/
theorem sign_kept_negative : ∃ registered, signRegistered = some registered ∧
    ∀ pre x, pre ++ [x] <+: [signInput [45, 55, 32, 49] (by decide), signInput [52, 32, 50] (by decide)] →
      ∃ dpg, SignSource.dual.after pre registered = some dpg ∧ ∀ text v,
        SignSource.dual.HasField (signInput [45, 53, 32, 49] (by decide)) (.cleared 2048 4) x 0 text v →
        SignSource.dual.Shows x dpg 0 v := by
  have hker : (signRegistered.bind fun registered => (registered.dataPoints[0]?).map fun dp => decide (dp.type = .long)) =
      some true := by
    decide +kernel
  rw [Option.bind_eq_some_iff] at hker
  obtain ⟨registered, hregistered, hker⟩ := hker
  obtain ⟨dp, hdp, htype⟩ := Option.map_eq_some_iff.mp hker
  have hreg := Option.join_eq_some_iff.mp hregistered
  -- The fields of the two polls.
  have hfield : ∀ x ∈ [signInput [45, 55, 32, 49] (by decide), signInput [52, 32, 50] (by decide)], ∃ values h text v,
      x = signInput values h ∧ DualFits 2048 (signSections values h) ∧ v < 2 ^ 63 ∧
        SignSource.dual.HasField (signInput [45, 53, 32, 49] (by decide)) (.cleared 2048 4) x 0 text v ∧
        (columnTexts ([88, 58, 32] ++ values))[0]? = some text := by
    intro x hx
    simp only [List.mem_cons, List.not_mem_nil, or_false] at hx
    rcases hx with rfl | rfl
    · exact ⟨_, _, [45, 55], -7, rfl, ⟨by decide, by decide⟩,
        by decide, ⟨by decide +kernel, by decide, by decide, by decide⟩, by decide⟩
    · exact ⟨_, _, [52], 4, rfl, ⟨by decide, by decide⟩,
        by decide, ⟨by decide +kernel, by decide, by decide, by decide⟩, by decide⟩
  refine ⟨registered, hregistered, (sign_kept_iff .dual [110] (signInput [45, 53, 32, 49] (by decide)) (.cleared 2048 4)
    (fun _ => by decide) (fun _ => .blank) registered hreg 0 dp hdp _ fun x hx => ?_).mpr ?_⟩
  · obtain ⟨_, _, text, v, -, -, -, h, -⟩ := hfield x hx
    exact ⟨text, v, h⟩
  · intro pre x hpre dpg hafter text v hv
    obtain ⟨values, h, text', v', rfl, hfits, hlt, hv', htext⟩ := hfield x (hpre.subset (by simp))
    obtain rfl := Option.some.inj (hv.1.symm.trans hv'.1)
    obtain rfl := Option.some.inj (hv.2.1.symm.trans hv'.2.1)
    refine ⟨?_, ?_⟩
    · simpa [InType, SignSource.signed, of_decide_eq_true htype] using hlt
    · have hold : DualFits 2048 (signSections [45, 53, 32, 49] (by decide)) := ⟨by decide, by decide⟩
      have hpairs : (dualPairs (signSections [45, 53, 32, 49] (by decide))).Nodup := by decide
      have hs : (signSections [45, 53, 32, 49] (by decide))[0]? = some _ := rfl
      have hs' : (signSections values h)[0]? = some _ := rfl
      have hi : 0 < DualSection.count ⟨[88, 58, 32, 97, 32, 98], [88, 58, 32] ++ [45, 53, 32, 49], by decide, by simp, by decide,
          by decide⟩ := by decide
      exact finds_column (signSections [45, 53, 32, 49] (by decide)) (signSections values h) (Nat.le_refl dictSize) hold hfits
        rfl rfl hpairs hreg hafter hs hs' hi htext

/-- A data point that was registered with `5` prints `-5` without its sign. -/
theorem not_sign_kept : ¬∀ (s : SignSource) (name : List UInt8) (x₀ : PollInput) (vars : Vars) (junk : Nat → DataPoint)
    (registered : Gatherer), s.search name x₀ vars junk = some (some registered) → ∀ (d : Nat) (dp : DataPoint),
      registered.dataPoints[d]? = some dp → ∀ polls : List PollInput, (∀ x ∈ polls, ∃ text v, s.HasField x₀ vars x d text v) →
        ∀ pre x, pre ++ [x] <+: polls → ∃ dpg, s.after pre registered = some dpg ∧
          ∀ text v, s.HasField x₀ vars x d text v → s.Shows x dpg d v := by
  intro h
  have hker : ((SignSource.dual.search [110] (signInput [53, 32, 49] (by decide)) (.cleared 2048 4) fun _ => .blank).join.bind
    fun registered =>
      (registered.dataPoints[0]?).bind fun _ =>
        ((SignSource.dual.poll (signInput [45, 53, 32, 49] (by decide)) registered).bind id).bind fun dpg =>
          (dpg.dataPoints[0]?).map formatDpValues) = some (decimal 18446744073709551611) := by decide +kernel
  simp only [Option.bind_eq_some_iff, Option.map_eq_some_iff, Option.join_eq_some_iff, id] at hker
  obtain ⟨registered, hreg, dp, hdp, dpg, ⟨r, hpoll, rfl⟩, dp', hdp', hprint⟩ := hker
  have hfield : SignSource.dual.HasField (signInput [53, 32, 49] (by decide)) (.cleared 2048 4)
      (signInput [45, 53, 32, 49] (by decide)) 0 [45, 53] (-5) := ⟨by decide +kernel, by decide, by decide, by decide⟩
  obtain ⟨dpg', hafter, hshows⟩ := h .dual [110] (signInput [53, 32, 49] (by decide)) _ _ registered hreg 0 dp hdp
    [signInput [45, 53, 32, 49] (by decide)] (List.forall_mem_singleton.mpr ⟨_, _, hfield⟩) [] _ List.prefix_rfl
  obtain rfl := Option.some.inj hafter
  obtain ⟨r', hr', dp'', hdp'', hshow⟩ := hshows [45, 53] (-5) hfield
  obtain rfl := Option.some.inj (hpoll.symm.trans hr')
  obtain rfl := Option.some.inj (hdp'.symm.trans hdp'')
  rw [hprint] at hshow
  exact absurd hshow (by decide)

end Pixel845.Datatop
