import Pixel845.Datatop.Gen
import Pixel845.Lemmas.DatatopDual
import Pixel845.Lemmas.DatatopStat
import Pixel845.Theorems.DatatopNames

/-!
# What is registered

Six constructors fill the structure of a data point by hand, over what `malloc` returned. A field that was given a value does not
depend on that memory. Name, prefix, type and `initial_data_populated` are given for all data points exactly under a condition on
the lines that differs between the constructors; two of them never set `initial_data_populated`. The data are given by none, so
that all that is read later is given exactly where no data point is registered (`registered_complete_iff`).
-/

namespace Pixel845.Datatop

/-- The constructors of gatherers; `gen` with the directory of the file. -/
inductive Constructor where
  | dualLine
  | singleLine
  | meminfo
  | dev
  | stat
  | gen (dir : List UInt8)

namespace Constructor

/-- What a constructor registers; inside, `none` is that it registers nothing. -/
def search : Constructor → List UInt8 → List UInt8 → Image → Vars → (Nat → DataPoint) → Option (Option Gatherer)
  | dualLine => dualLineSearch
  | singleLine => singleLineSearch
  | meminfo => meminfoSearch
  | dev => devSearch
  | stat => fun _ content rest vars junk => do
    match ← statSearch content rest vars junk with
    | none => return none
    | some s => return some (← s.gatherer)
  | gen dir => fun name content rest vars junk => some (dpgConstruction dir name content rest (vars.buf (.line 0)) vars junk)

/-- The poller of a gatherer whose names point into its line buffers. -/
def poller : Constructor → Option Poller
  | dualLine => some .dualLine
  | singleLine => some .singleLine
  | meminfo => some .meminfo
  | dev => some .dev
  | stat | gen _ => none

/-- A pointer into a line that was read, so that a terminator follows. -/
def InLine (c : Constructor) (content : List UInt8) (rest : Image) (vars : Vars) (ptr : Ptr) : Prop :=
  ∃ p line, c.poller = some p ∧ p.lineOf content rest vars ptr.buf = some line ∧ ptr.off ≤ line.length

/-- The search is defined, and each data point that it registers has been given a name, a prefix, a type and `NOT_POPULATED`: none
of them depends on what `malloc` returned for the data points, and the pointers point into lines that were read. -/
def Named (c : Constructor) (name content : List UInt8) (rest : Image) (vars : Vars) : Prop :=
  ∀ junk, ∃ r, c.search name content rest vars junk = some r ∧
    ∀ dpg, r = some dpg → ∀ (k : Nat) dp, dpg.dataPoints[k]? = some dp →
      dp.initialDataPopulated = false ∧ (∀ ptr ∈ dp.pointers, c.InLine content rest vars ptr) ∧
      ∀ junk' dpg' dp', c.search name content rest vars junk' = some (some dpg') → dpg'.dataPoints[k]? = some dp' →
        dp'.name = dp.name ∧ dp'.pfx = dp.pfx ∧ dp'.type = dp.type

/-- A string that is taken from the file or from its name; where a line or a file has several values, an index follows. -/
def NameText (c : Constructor) (name content s : List UInt8) : Prop :=
  match c with
  | dualLine | singleLine | meminfo | dev => s <:+: content
  | stat => ∃ key perLine n, key <:+: content ∧ s = statName key perLine n
  | gen _ => ∃ num i, s = genName name num i

/-- The search is defined, and each data point that it registers has been given all that is read later: a name that is taken
from the file or from its name, a prefix, a type, `NOT_POPULATED`, and the data and initial data, which the writer of the rows
and the snapshot read. None of them depends on what `malloc` returned for the data points, and the pointers point into lines
that were read. -/
def Complete (c : Constructor) (name content : List UInt8) (rest : Image) (vars : Vars) : Prop :=
  ∀ junk, ∃ r, c.search name content rest vars junk = some r ∧
    ∀ dpg, r = some dpg → ∀ (k : Nat) dp, dpg.dataPoints[k]? = some dp →
      dp.initialDataPopulated = false ∧ (∀ ptr ∈ dp.pointers, c.InLine content rest vars ptr) ∧
      c.NameText name content (dpg.priv.text dp.name) ∧
      ∀ junk' dpg' dp', c.search name content rest vars junk' = some (some dpg') → dpg'.dataPoints[k]? = some dp' →
        (dp'.name = dp.name ∧ dp'.pfx = dp.pfx ∧ dp'.type = dp.type) ∧ dp'.data = dp.data ∧ dp'.initialData = dp.initialData

/-- The lines from which no data point is registered. -/
def Bare (c : Constructor) (content : List UInt8) (rest : Image) (vars : Vars) : Prop :=
  match c with
  | dualLine => ∀ j < vars.lineCount / 2, SectionFull (dualLines content rest vars) j ∧
      (32 ∉ (dualLines content rest vars).getD (2 * j) [] ∨ 32 ∉ (dualLines content rest vars).getD (2 * j + 1) [])
  | singleLine | meminfo => False
  | dev => vars.lineCount ≤ 2
  | stat => Numbered 0 (statLines content rest vars) ∧ ∀ line ∈ statLines content rest vars, statValues line = []
  | gen _ => content.head? = some 10

/-- What the lines must be for all but the data. -/
def Fills (c : Constructor) (content : List UInt8) (rest : Image) (vars : Vars) : Prop :=
  match c with
  | dualLine => ∀ j < vars.lineCount / 2, SectionFull (dualLines content rest vars) j
  | singleLine | meminfo => False
  | dev => vars.lineCount ≤ dictSize + 2 ∧ ∀ n, 2 ≤ n → n < vars.lineCount →
    (Poller.dev.lineOf content rest vars (.line n)).isSome
  | stat => Numbered 0 (statLines content rest vars) ∧ NoEmptyBehind (statLines content rest vars)
  | gen _ => True

end Constructor

/-- The values of a data point are what `malloc` returned. -/
def LeftOver (junk : Nat → DataPoint) (dp : DataPoint) : Prop :=
  ∃ n, dp.data = (junk n).data ∧ dp.initialData = (junk n).initialData

namespace CompleteAux

open Constructor

variable {name content : List UInt8} {rest : Image} {vars : Vars} {junk junk' : Nat → DataPoint} {dpg : Gatherer}

/-- What a constructor is to give of a data point. -/
def given (dp : DataPoint) : Str × Option Str × DpType := (dp.name, dp.pfx, dp.type)

/-- A gatherer is complete if its data points are, and what is given is the same for all memory. -/
theorem named_of {c : Constructor}
    (h : ∀ junk, ∃ r, c.search name content rest vars junk = some r ∧ ∀ dpg, r = some dpg →
      (∀ dp ∈ dpg.dataPoints, dp.initialDataPopulated = false ∧ ∀ ptr ∈ dp.pointers, c.InLine content rest vars ptr))
    (hsame : ∀ junk junk' dpg dpg', c.search name content rest vars junk = some (some dpg) →
      c.search name content rest vars junk' = some (some dpg') → dpg'.dataPoints.map given = dpg.dataPoints.map given) :
    c.Named name content rest vars := by
  intro junk
  obtain ⟨r, hr, hpoints⟩ := h junk
  refine ⟨r, hr, ?_⟩
  intro dpg hdpg k dp hdp
  obtain ⟨hpopulated, hin⟩ := hpoints dpg hdpg dp (List.mem_of_getElem? hdp)
  refine ⟨hpopulated, hin, ?_⟩
  intro junk' dpg' dp' hsearch hdp'
  have hget := congrArg (fun l => l[k]?) (hsame junk junk' dpg dpg' (hdpg ▸ hr) hsearch)
  simp only [List.getElem?_map, hdp, hdp', Option.map_some, Option.some.injEq, given, Prod.mk.injEq] at hget
  exact hget

/-! ### Dual-line files -/

/-- A column starts within the line. -/
theorem columnsAt_fst_le {i : Nat} {line : List UInt8} {c : Nat × List UInt8} (h : c ∈ columnsAt i line) :
    c.1 ≤ i + line.length := by
  induction line generalizing i with
  | nil => cases h
  | cons x line ih =>
    rw [List.length_cons]
    rw [columnsAt] at h
    split at h
    · rcases List.mem_cons.mp h with rfl | h
      · simp only
        omega
      · have := ih h
        omega
    · have := ih h
      omega

/-- What a data point is given does not depend on the memory from `malloc`. -/
theorem dualPointList_given (points : Vars) (lines : List (List UInt8)) (count : Nat) (js : List Nat) :
    (dualPointList points lines junk count js).map given = (dualPointList points lines junk' count js).map given := by
  induction js generalizing count with
  | nil => rfl
  | cons j js ih =>
    rw [dualPointList, dualPointList, List.map_append, List.map_append, ih, List.map_map, List.map_map]
    rfl

/-- A line with content is one that was read. -/
theorem dual_lineOf {n : Nat} (h : (dualLines content rest vars).getD n [] ≠ []) :
    Poller.dualLine.lineOf content rest vars (.line n) = some ((dualLines content rest vars).getD n []) ∧
      Poller.dualLine.lineOf content rest vars (.line2 n) = some ((dualLines content rest vars).getD n []) := by
  have hjoin : ((Poller.dualLine.readLines content rest vars)[n]?).join = some ((dualLines content rest vars).getD n []) := by
    rw [Poller.readLines, Poller.readSize]
    rw [dualLines, List.getD_eq_getElem?_getD, List.getElem?_map] at h ⊢
    cases hl : (cutLines (readFile content dualSize rest) vars.lineSize dualSize vars.lineCount 0)[n]? with
    | none =>
      rw [hl] at h
      exact absurd rfl h
    | some l =>
      cases l with
      | none =>
        rw [hl] at h
        exact absurd rfl h
      | some line => rfl
  exact ⟨hjoin, by rw [Poller.lineOf, if_pos rfl, hjoin]⟩

/-- With full sections all names are given. -/
theorem dual_named (hne : content ≠ []) (hfull : Fills .dualLine content rest vars) :
    Named .dualLine name content rest vars := by
  refine named_of (fun junk => ⟨_, dualLineSearch_eq hne hfull junk, fun dpg hdpg dp hdp => ?_⟩)
    fun junk junk' dpg dpg' h h' => ?_
  · obtain rfl := Option.some.inj hdpg
    obtain ⟨j, hj, i, hi, n, rfl⟩ := mem_dualPointList hdp
    obtain ⟨hheader, -⟩ := hfull j (List.mem_range.mp hj)
    refine ⟨rfl, ?_⟩
    intro ptr hptr
    have hptr : ptr = ⟨.line (2 * j), ((cols ((dualLines content rest vars).getD (2 * j) [])).getD i (0, [])).1⟩ ∨
        ptr = ⟨.line2 (2 * j), 0⟩ := by
      simpa [DataPoint.pointers, dualPoint, Str.pointer] using hptr
    obtain ⟨hline, hline2⟩ := dual_lineOf hheader
    have hlt : i < (cols ((dualLines content rest vars).getD (2 * j) [])).length := by
      rw [sectionCount] at hi
      omega
    rcases hptr with rfl | rfl
    · refine ⟨.dualLine, _, rfl, hline, ?_⟩
      rw [List.getD_eq_getElem _ _ hlt]
      have hle := columnsAt_fst_le (mem_cols (List.getElem_mem hlt))
      rwa [Nat.zero_add] at hle
    · exact ⟨.dualLine, _, rfl, hline2, Nat.zero_le _⟩
  · obtain rfl := Option.some.inj (Option.some.inj ((dualLineSearch_eq hne hfull junk).symm.trans h))
    obtain rfl := Option.some.inj (Option.some.inj ((dualLineSearch_eq hne hfull junk').symm.trans h'))
    exact dualPointList_given ..

/-! ### Files with name and value on the same line -/

/-- A dictionary that has a count has seen a line. -/
theorem lineCount_pos {lens : List Nat} {n max : Nat} (hlens : lens.length = n)
    (hmax : (sameLineLoop lens 0 vars .unset).2.max = some max) : 0 < n := by
  rw [← hlens]
  by_contra h
  obtain rfl := List.length_eq_zero_iff.mp (Nat.eq_zero_of_not_pos h)
  cases hmax

/-- What is left in a data point of a single line. -/
theorem singlePoint_left {vars' : Vars} {dict : Dict} {i : Nat} {dp : DataPoint} (h : singlePoint vars' dict junk i = some dp) :
    dp.initialDataPopulated = (junk i).initialDataPopulated ∧ dp.data = (junk i).data ∧
      dp.initialData = (junk i).initialData := by
  simp only [singlePoint, Option.bind_eq_bind, Option.bind_eq_some_iff] at h
  obtain ⟨max, -, h⟩ := h
  split at h
  · simp only [Option.bind_eq_some_iff, Option.pure_def, Option.some.injEq] at h
    obtain ⟨val, -, key, -, rfl⟩ := h
    exact ⟨rfl, rfl, rfl⟩
  · obtain rfl := Option.some.inj h
    exact ⟨rfl, rfl, rfl⟩

/-- What the search registers: a data point for each line, none of which has `initial_data_populated` set. -/
theorem single_search (h : singleLineSearch name content rest vars junk = some (some dpg)) :
    0 < dpg.dataPoints.length ∧ ∀ (k : Nat) dp, dpg.dataPoints[k]? = some dp →
      dp.initialDataPopulated = (junk k).initialDataPopulated ∧ dp.data = (junk k).data ∧
      dp.initialData = (junk k).initialData := by
  have hne : content ≠ [] := by
    intro hnil
    rw [singleLineSearch, if_pos hnil] at h
    cases h
  simp only [singleLineSearch, if_neg hne, Pixel845.Datatop.readLines, readLinesLoop_run, Option.bind_eq_bind,
    Option.bind_eq_some_iff, Option.pure_def, Option.some.injEq] at h
  obtain ⟨max, hmax, points, hpoints, rfl⟩ := h
  have hvars :=
    sameLineLoop_vars ((cutLines (readFile content singleSize rest) vars.lineSize singleSize vars.lineCount 0).map lineLen)
      (i := 0) List.drop_zero
    (vars.store .line 0 (cutLines (readFile content singleSize rest) vars.lineSize singleSize vars.lineCount 0)) .unset
  have hcount := congrArg Vars.lineCount hvars
  rw [Vars.rewrite_lineCount, Vars.store_lineCount] at hcount
  rw [hcount, mapM_eq_some] at hpoints
  have hpos := lineCount_pos ((List.length_map _).trans (cutLines_length ..)) hmax
  have hlen := hpoints.length_eq
  rw [List.length_range] at hlen
  refine ⟨by simp only; omega, ?_⟩
  intro k dp hdp
  obtain ⟨hk, rfl⟩ := List.getElem?_eq_some_iff.mp hdp
  have hpoint := (List.forall₂_iff_get.mp hpoints).2 k (by rw [List.length_range]; exact hlen ▸ hk) hk
  simp only [List.get_eq_getElem, List.getElem_range] at hpoint
  exact singlePoint_left hpoint

/-- What is left in a data point of `/proc/meminfo`. -/
theorem meminfoPoint_left (dict : Dict) (max i : Nat) :
    (meminfoPoint dict junk max i).initialDataPopulated = (junk i).initialDataPopulated ∧
      (meminfoPoint dict junk max i).data = (junk i).data ∧ (meminfoPoint dict junk max i).initialData =
      (junk i).initialData := by
  rw [meminfoPoint]
  split
  · exact ⟨rfl, rfl, rfl⟩
  · exact ⟨rfl, rfl, rfl⟩

/-- A search of `/proc/meminfo` registers data points, in which something is left. -/
theorem meminfo_search (h : meminfoSearch name content rest vars junk = some (some dpg)) :
    0 < dpg.dataPoints.length ∧ ∀ (k : Nat) dp, dpg.dataPoints[k]? = some dp →
      dp.initialDataPopulated = (junk k).initialDataPopulated ∧ dp.data = (junk k).data ∧
      dp.initialData = (junk k).initialData := by
  have hne : content ≠ [] := by
    intro hnil
    rw [meminfoSearch, if_pos hnil] at h
    cases h
  simp only [meminfoSearch, if_neg hne, Pixel845.Datatop.readLines, readLinesLoop_run, Option.bind_eq_bind,
    Option.bind_eq_some_iff, Option.pure_def, Option.some.injEq] at h
  obtain ⟨max, hmax, rfl⟩ := h
  have hvars :=
    sameLineLoop_vars ((cutLines (readFile content singleSize rest) vars.lineSize singleSize vars.lineCount 0).map lineLen)
      (i := 0) List.drop_zero
    (vars.store .line 0 (cutLines (readFile content singleSize rest) vars.lineSize singleSize vars.lineCount 0)) .unset
  have hcount := congrArg Vars.lineCount hvars
  rw [Vars.rewrite_lineCount, Vars.store_lineCount] at hcount
  have hpos := lineCount_pos ((List.length_map _).trans (cutLines_length ..)) hmax
  refine ⟨by simp only [List.length_map, List.length_range]; omega, ?_⟩
  intro k dp hdp
  rw [List.getElem?_map, Option.map_eq_some_iff] at hdp
  obtain ⟨i, hi, rfl⟩ := hdp
  obtain ⟨-, rfl⟩ := List.getElem?_eq_some_iff.mp hi
  rw [List.getElem_range]
  exact meminfoPoint_left ..

/-- A search that leaves `initial_data_populated` as it was is complete on no file. -/
theorem not_named {c : Constructor} (hnone : c.search name content rest vars (fun _ => .blank) ≠ some none)
    (h : ∀ junk dpg, c.search name content rest vars junk = some (some dpg) → 0 < dpg.dataPoints.length ∧
      ∀ (k : Nat) dp, dpg.dataPoints[k]? = some dp → dp.initialDataPopulated = (junk k).initialDataPopulated) :
    ¬c.Named name content rest vars := by
  intro hcomplete
  obtain ⟨r, hr, hpoints⟩ := hcomplete fun _ => .blank
  cases r with
  | none => exact hnone hr
  | some dpg =>
    obtain ⟨hpos, hleft⟩ := h _ dpg hr
    have hdp : dpg.dataPoints[0]? = some dpg.dataPoints[0] := List.getElem?_eq_getElem hpos
    have hpopulated := (hpoints dpg rfl 0 _ hdp).1
    rw [hleft 0 _ hdp] at hpopulated
    cases hpopulated

/-! ### /proc/stat -/

/-- The data points of the lines, whatever the memory for them. -/
theorem statPoints_given {vars' : Vars} {dict : Dict} {perLine : List Int} {i count : Nat} {points points' : List DataPoint}
    (h : statPoints vars' dict junk perLine i count = some points)
    (h' : statPoints vars' dict junk' perLine i count = some points') :
    points'.map given = points.map given := by
  induction perLine generalizing i count points points' with
  | nil =>
    obtain rfl := Option.some.inj h
    obtain rfl := Option.some.inj h'
    rfl
  | cons k perLine ih =>
    simp only [statPoints, Option.bind_eq_bind, Option.bind_eq_some_iff] at h h'
    obtain ⟨tail, htail, h⟩ := h
    obtain ⟨tail', htail', h'⟩ := h'
    have hrest := ih htail htail'
    split at h
    · obtain rfl := Option.some.inj h
      rename_i hk
      rw [if_pos hk] at h'
      obtain rfl := Option.some.inj h'
      exact hrest
    · rename_i hk
      rw [if_neg hk] at h'
      simp only [Option.bind_eq_some_iff, Option.pure_def, Option.some.injEq] at h h'
      obtain ⟨key, hkey, rfl⟩ := h
      obtain ⟨key', hkey', rfl⟩ := h'
      obtain rfl := Option.some.inj (hkey.symm.trans hkey')
      rw [List.map_append, List.map_append, hrest, List.map_map, List.map_map]
      rfl

/-- What is given to the data points of `/proc/stat`. -/
theorem mem_statPoints {vars' : Vars} {dict : Dict} {perLine : List Int} {i count : Nat} {points : List DataPoint}
    (h : statPoints vars' dict junk perLine i count = some points) :
    ∀ dp ∈ points, dp.initialDataPopulated = false ∧ dp.pointers = [] ∧ LeftOver junk dp := by
  induction perLine generalizing i count points with
  | nil =>
    obtain rfl := Option.some.inj h
    simp
  | cons k perLine ih =>
    simp only [statPoints, Option.bind_eq_bind, Option.bind_eq_some_iff] at h
    obtain ⟨tail, htail, h⟩ := h
    have hrest := ih htail
    split at h
    · obtain rfl := Option.some.inj h
      exact hrest
    · simp only [Option.bind_eq_some_iff, Option.pure_def, Option.some.injEq] at h
      obtain ⟨key, -, rfl⟩ := h
      intro dp hdp
      rcases List.mem_append.mp hdp with hdp | hdp
      · obtain ⟨n, -, rfl⟩ := List.mem_map.mp hdp
        exact ⟨rfl, rfl, _, rfl, rfl⟩
      · exact hrest dp hdp

/-- What is written for lines whose numbers are indices of the dictionary. -/
theorem stat_written (hne : content ≠ []) (hnum : Numbered 0 (statLines content rest vars)) :
    ∃ vars' dict', ∀ junk, ∃ points, statPoints vars' dict' junk (statPerLine 0 (statLines content rest vars)) 0 0 = some points ∧
      statSearch content rest vars junk =
        some (some ⟨(statItems [] 0 (statLines content rest vars)).length, statPerLine 0 (statLines content rest vars),
        points, vars'⟩) := by
  obtain ⟨vars', dict', hloop, hread, -⟩ := statRead_some hnum
  refine ⟨vars', dict', ?_⟩
  intro junk
  obtain ⟨points, hpoints, -⟩ := statPoints_forall junk 0 0 (List.drop_zero (l := statLines content rest vars))
    fun b line hl hline => hread.key b line (List.getElem?_eq_some_iff.mp hl).1 hl hline
  refine ⟨points, hpoints, ?_⟩
  simp only [statSearch, if_neg hne, hloop, hpoints, Option.pure_def, Option.bind_eq_bind, Option.bind_some]

/-- What the search of `/proc/stat` registers. -/
theorem stat_search (hne : content ≠ []) (hfill : Fills .stat content rest vars) :
    ∃ vars' dict', ∀ junk, ∃ points, statPoints vars' dict' junk (statPerLine 0 (statLines content rest vars)) 0 0 = some points ∧
      points.length = (statLines content rest vars).foldl statCount 0 ∧
      Constructor.stat.search name content rest vars junk =
        some (some { pfx := procStat, file := procStat, dataPoints := points, priv := vars' }) := by
  obtain ⟨vars', dict', hwritten⟩ := stat_written hne hfill.1
  refine ⟨vars', dict', ?_⟩
  intro junk
  obtain ⟨points, hpoints, hsearch⟩ := hwritten junk
  obtain ⟨s, hs, -, hcount⟩ := statSearch_written junk hne hfill.1
  obtain rfl := Option.some.inj (Option.some.inj (hsearch.symm.trans hs))
  refine ⟨points, hpoints, (hcount.mpr hfill.2).trans (statItems_length 0 _ (Nat.zero_le dictSize)), ?_⟩
  simp only [search, hsearch, StatSearch.gatherer, if_pos (hcount.mpr hfill.2), Option.bind_eq_bind, Option.bind_some,
    Option.pure_def]

/-- Lines that are not as they must be make the search undefined. -/
theorem stat_search_none (hne : content ≠ []) (hfill : ¬Fills .stat content rest vars) (junk : Nat → DataPoint) :
    Constructor.stat.search name content rest vars junk = none := by
  by_cases hnum : Numbered 0 (statLines content rest vars)
  · obtain ⟨s, hs, -, hcount⟩ := statSearch_written junk hne hnum
    have hover : ¬s.written.length = s.dpCount := fun h => hfill ⟨hnum, hcount.mp h⟩
    simp only [search, hs, StatSearch.gatherer, if_neg hover, Option.bind_eq_bind, Option.bind_some, Option.bind_none]
  · simp only [search, statSearch_none junk hne hnum, Option.bind_eq_bind, Option.bind_none]

/-- With lines as they must be all names are given. -/
theorem stat_named (hne : content ≠ []) (hfill : Fills .stat content rest vars) : Named .stat name content rest vars := by
  obtain ⟨vars', dict', hsearch⟩ := stat_search hne hfill
  refine named_of (fun junk => ?_) fun junk junk' dpg dpg' h h' => ?_
  · obtain ⟨points, hpoints, -, heq⟩ := hsearch junk
    refine ⟨_, heq, ?_⟩
    intro dpg hdpg dp hdp
    obtain rfl := Option.some.inj hdpg
    obtain ⟨hpopulated, hpointers, -⟩ := mem_statPoints hpoints dp hdp
    exact ⟨hpopulated, by simp [hpointers]⟩
  · obtain ⟨points, hpoints, -, heq⟩ := hsearch junk
    obtain ⟨points', hpoints', -, heq'⟩ := hsearch junk'
    obtain rfl := Option.some.inj (Option.some.inj (heq.symm.trans h))
    obtain rfl := Option.some.inj (Option.some.inj (heq'.symm.trans h'))
    exact statPoints_given hpoints hpoints'

/-! ### /proc/net/dev -/

/-- A line that ends in its buffer is parsed. -/
theorem devParse_isSome {size len : Nat} {b : Image} (index : Nat) (id : BufId) (dict : Dict) (hend : b len = 0)
    (hsize : len < size) (hindex : index < dictSize) : (devParse size b id len index dict).isSome := by
  obtain ⟨-, i, hi, -⟩ := scanFor_congr_until (!isBlank ·) (m := b) (n := size) (i := 0) (e := len) (fun _ _ _ => rfl)
    (by rw [hend]; rfl) (Nat.zero_le _) (by omega)
  have hline : terminate b ((scanFor (· == 58) b len 0).toList.map (· + 1)) len = 0 := by rw [terminate, hend, ite_self]
  obtain ⟨words, hwords⟩ := Option.isSome_iff_exists.mp
    (devWords_congr len ((scanFor (· == 58) b len 0).elim 0 (· + 2)) (fun _ _ => rfl) hline hsize).2
  simp only [devParse, hi, hwords, Option.bind_eq_bind, Option.bind_some, if_neg (Nat.not_le.mpr hindex), Option.pure_def,
    Option.isSome_some]

/-- The loop over the interfaces comes to its end if their lines were read. -/
theorem devSearchLoop_isSome {lens : List Nat} {index : Nat} {vars : Vars} (dict : Dict) (hindex : index + lens.length ≤ dictSize)
    (hread : ∀ (j len : Nat), lens[j]? = some len → (vars.buf (.line (index + j + 2))) len = 0 ∧ len < vars.lineSize) :
    (devSearchLoop lens index vars dict).isSome := by
  induction lens generalizing index vars dict with
  | nil => rfl
  | cons len lens ih =>
    rw [List.length_cons] at hindex
    obtain ⟨hend, hsize⟩ := hread 0 len rfl
    rw [Nat.add_zero] at hend
    obtain ⟨r, hparse⟩ := Option.isSome_iff_exists.mp (devParse_isSome index (.line (index + 2)) dict hend hsize (by omega))
    rw [devSearchLoop, hparse, Option.bind_eq_bind, Option.bind_some]
    have hrest : index + 1 + lens.length ≤ dictSize := by omega
    refine ih _ hrest ?_
    intro j l hl
    have hne : BufId.line (index + 1 + j + 2) ≠ .line (index + 2) := by
      intro heq
      have := BufId.line.inj heq
      omega
    rw [Vars.setBuf_buf, Function.update_of_ne hne, Vars.setBuf_lineSize, show index + 1 + j = index + (j + 1) by omega]
    exact hread (j + 1) l hl

/-- The lines that the search of `/proc/net/dev` reads. -/
def devLines (content : List UInt8) (rest : Image) (vars : Vars) : List (Option (List UInt8)) :=
  cutLines (readFile content devSize rest) vars.lineSize devSize vars.lineCount 0

/-- The data points of an interface whose name is known. -/
def devPointList (dict : Dict) (junk : Nat → DataPoint) (index : Nat) : List DataPoint :=
  devPrefixes.zipIdx.map fun (pfx, i) => { junk (16 * index + i) with
    skip := false
    initialDataPopulated := false
    pfx := some (.copy pfx)
    name := .ptr ((dict.key index).getD ⟨.line 0, 0⟩)
    type := .ulong }

/-- With its key the data points of an interface are listed. -/
theorem devPoints_eq {dict : Dict} {index : Nat} (h : (dict.key index).isSome) :
    devPoints dict junk index = some (devPointList dict junk index) := by
  obtain ⟨key, hkey⟩ := Option.isSome_iff_exists.mp h
  simp only [devPoints, devPointList, hkey, Option.bind_eq_bind, Option.bind_some, Option.pure_def, Option.getD_some]

/-- A line that was read ends in its buffer. -/
theorem dev_read {n : Nat} {line : List UInt8} (h : Poller.dev.lineOf content rest vars (.line n) = some line) :
    ((devLines content rest vars).map lineLen).getD n 0 = line.length ∧ line.length < vars.lineSize ∧
      ((vars.store .line 0 (devLines content rest vars)).buf (.line n)) line.length = 0 := by
  have hjoin : ((devLines content rest vars)[n]?).join = some line := h
  refine ⟨by rw [NamesAux.lens_getD, hjoin]; rfl, NamesAux.lineOf_length h, ?_⟩
  rw [Vars.store_buf_join line_injective, hjoin, storeLine_inside _ _ _ (Nat.le_refl _), ofBytes_length]

/-- What the search loop relies on for a line behind the headers that was read. -/
theorem dev_line {n len : Nat} {line : List UInt8} (hline : Poller.dev.lineOf content rest vars (.line (n + 2)) = some line)
    (hlen : (((devLines content rest vars).map lineLen).drop 2)[n]? = some len) :
    len = line.length ∧ ((vars.store .line 0 (devLines content rest vars)).buf (.line (n + 2))) len = 0 ∧
      len < (vars.store .line 0 (devLines content rest vars)).lineSize := by
  obtain ⟨hlenline, hsize, hend⟩ := dev_read hline
  have hlenn : len = line.length := by
    rw [List.getElem?_drop, Nat.add_comm] at hlen
    rw [← hlenline, List.getD_eq_getElem?_getD, hlen, Option.getD_some]
  subst hlenn
  exact ⟨rfl, hend, by rwa [Vars.store_lineSize]⟩

/-- What the search of `/proc/net/dev` registers once its lines are parsed: there are as many lines as a dictionary has entries at
most, and the names point into their lines. -/
theorem dev_registers {vars' : Vars} {dict : Dict} (hne : content ≠ [])
    (hloop : devSearchLoop (((devLines content rest vars).map lineLen).drop 2) 0
    (vars.store .line 0 (devLines content rest vars)) .unset =
      some (vars', dict)) :
    vars.lineCount ≤ dictSize + 2 ∧
      (∀ n < vars.lineCount - 2, ∃ i, dict.key n = some ⟨.line (n + 2), i⟩ ∧
        ∀ line, Poller.dev.lineOf content rest vars (.line (n + 2)) = some line → i ≤ line.length) ∧
      ∀ junk, devSearch name content rest vars junk = some (some
        { pfx := name
          file := name
          dataPoints := ((List.range (vars.lineCount - 2)).map (devPointList dict junk)).flatten
          priv := vars' }) := by
  obtain ⟨hcount, hlen, -, hkeys⟩ := devSearchLoop_key hloop
  rw [Vars.store_lineCount] at hcount
  have hdrop : (((devLines content rest vars).map lineLen).drop 2).length = vars.lineCount - 2 := by
    rw [List.length_drop, List.length_map, devLines, cutLines_length]
  have hkey : ∀ n < vars.lineCount - 2, ∃ i, dict.key n = some ⟨.line (n + 2), i⟩ ∧
      ∀ line, Poller.dev.lineOf content rest vars (.line (n + 2)) = some line → i ≤ line.length := by
    intro n hn
    obtain ⟨len, hl⟩ : ∃ len, (((devLines content rest vars).map lineLen).drop 2)[n]? = some len :=
      ⟨_, List.getElem?_eq_getElem (by omega)⟩
    obtain ⟨i, hi, hle⟩ := hkeys n len hl
    rw [Nat.zero_add] at hi hle
    refine ⟨i, hi, ?_⟩
    intro line hline
    obtain ⟨rfl, hend, hsize⟩ := dev_line hline hl
    exact hle hend hsize
  refine ⟨?_, hkey, ?_⟩
  · by_cases hnil : ((devLines content rest vars).map lineLen).drop 2 = []
    · rw [hnil, List.length_nil] at hdrop
      omega
    · have := hlen hnil
      omega
  · intro junk
    have hpoints : (List.range (vars.lineCount - 2)).mapM (devPoints dict junk) =
        some ((List.range (vars.lineCount - 2)).map (devPointList dict junk)) := mapM_some fun n hn => by
      obtain ⟨i, hi, -⟩ := hkey n (List.mem_range.mp hn)
      exact devPoints_eq (by rw [hi]; rfl)
    rw [devLines] at hloop
    simp only [devSearch, if_neg hne, Pixel845.Datatop.readLines, readLinesLoop_run, hloop, hcount, hpoints, Option.bind_eq_bind,
      Option.bind_some, Option.pure_def]

/-- The lines are parsed if the search is defined. -/
theorem dev_parsed {r : Option Gatherer} (hne : content ≠ []) (h : devSearch name content rest vars junk = some r) :
    ∃ vars' dict, devSearchLoop (((devLines content rest vars).map lineLen).drop 2) 0
      (vars.store .line 0 (devLines content rest vars)) .unset = some (vars', dict) := by
  simp only [devSearch, if_neg hne, Pixel845.Datatop.readLines, readLinesLoop_run, Option.bind_eq_bind,
    Option.bind_eq_some_iff] at h
  obtain ⟨⟨vars', dict⟩, hloop, -⟩ := h
  exact ⟨vars', dict, hloop⟩

/-- What the search of `/proc/net/dev` registers, if its lines are read. -/
theorem dev_search (hne : content ≠ []) (hfill : Fills .dev content rest vars) :
    ∃ vars' dict, (∀ n < vars.lineCount - 2, ∃ i, dict.key n = some ⟨.line (n + 2), i⟩ ∧
        ∀ line, Poller.dev.lineOf content rest vars (.line (n + 2)) = some line → i ≤ line.length) ∧
      ∀ junk, devSearch name content rest vars junk = some (some
        { pfx := name
          file := name
          dataPoints := ((List.range (vars.lineCount - 2)).map (devPointList dict junk)).flatten
          priv := vars' }) := by
  have hdrop : (((devLines content rest vars).map lineLen).drop 2).length = vars.lineCount - 2 := by
    rw [List.length_drop, List.length_map, devLines, cutLines_length]
  have hle := hfill.1
  have hread : ∀ (j len : Nat), (((devLines content rest vars).map lineLen).drop 2)[j]? = some len →
      ((vars.store .line 0 (devLines content rest vars)).buf (.line (0 + j + 2))) len = 0 ∧
        len < (vars.store .line 0 (devLines content rest vars)).lineSize := by
    intro j len hl
    have hj := (List.getElem?_eq_some_iff.mp hl).1
    obtain ⟨line, hline⟩ := Option.isSome_iff_exists.mp (hfill.2 (j + 2) (by omega) (by omega))
    rw [Nat.zero_add]
    exact (dev_line hline hl).2
  obtain ⟨⟨vars', dict⟩, hloop⟩ := Option.isSome_iff_exists.mp (devSearchLoop_isSome .unset (by omega) hread)
  obtain ⟨-, hkey, hsearch⟩ := dev_registers hne hloop
  exact ⟨vars', dict, hkey, hsearch⟩

/-- With lines as they must be all names are given. -/
theorem dev_named (hne : content ≠ []) (hfill : Fills .dev content rest vars) : Named .dev name content rest vars := by
  have hle := hfill.1
  obtain ⟨vars', dict, hkey, hsearch⟩ := dev_search hne hfill
  refine named_of (fun junk => ⟨_, hsearch junk, fun dpg hdpg dp hdp => ?_⟩) fun junk junk' dpg dpg' h h' => ?_
  · obtain rfl := Option.some.inj hdpg
    obtain ⟨l, hl, hdp⟩ := List.mem_flatten.mp hdp
    obtain ⟨n, hn, rfl⟩ := List.mem_map.mp hl
    obtain ⟨x, -, rfl⟩ := List.mem_map.mp hdp
    have hn := List.mem_range.mp hn
    obtain ⟨i, hi, hle⟩ := hkey n hn
    obtain ⟨line, hline⟩ := Option.isSome_iff_exists.mp (hfill.2 (n + 2) (by omega) (by omega))
    refine ⟨rfl, ?_⟩
    intro ptr hptr
    obtain rfl : ptr = ⟨.line (n + 2), i⟩ := by simpa [DataPoint.pointers, Str.pointer, hi] using hptr
    exact ⟨.dev, line, rfl, hline, hle line hline⟩
  · obtain rfl := Option.some.inj (Option.some.inj ((hsearch junk).symm.trans h))
    obtain rfl := Option.some.inj (Option.some.inj ((hsearch junk').symm.trans h'))
    simp only [List.map_flatten, List.map_map]
    rfl

/-- If all names are given, the lines are as they must be. -/
theorem dev_fills (hne : content ≠ []) (h : Named .dev name content rest vars) : Fills .dev content rest vars := by
  obtain ⟨r, hr, hpoints⟩ := h fun _ => .blank
  obtain ⟨vars', dict, hloop⟩ := dev_parsed hne hr
  obtain ⟨hle, hkey, hsearch⟩ := dev_registers hne hloop
  obtain rfl := Option.some.inj (hr.symm.trans (hsearch _))
  refine ⟨hle, ?_⟩
  intro n hn hn'
  obtain ⟨i, hi, -⟩ := hkey (n - 2) (by omega)
  rw [show n - 2 + 2 = n by omega] at hi
  -- The first data point of the interface points into its line.
  have hmem : ∃ dp ∈ ((List.range (vars.lineCount - 2)).map (devPointList dict fun _ => .blank)).flatten,
      dp.pointers = [⟨.line n, i⟩] := by
    refine ⟨_, List.mem_flatten.mpr ⟨_, List.mem_map.mpr ⟨n - 2, List.mem_range.mpr (by omega), rfl⟩, List.mem_map.mpr
      ⟨(devPrefixes.head (by decide), 0), by decide, rfl⟩⟩, ?_⟩
    simp [DataPoint.pointers, Str.pointer, hi]
  obtain ⟨dp, hdp, hptr⟩ := hmem
  obtain ⟨k, hk⟩ := List.mem_iff_getElem?.mp hdp
  obtain ⟨p, line, hp, hline, -⟩ := (hpoints _ rfl k dp hk).2.1 ⟨.line n, i⟩ (by rw [hptr]; exact List.mem_singleton_self _)
  obtain rfl := Option.some.inj hp
  rw [hline]
  rfl

/-! ### All constructors -/

/-- Without a content nothing is registered. -/
theorem search_nil (c : Constructor) (junk : Nat → DataPoint) : c.search name [] rest vars junk = some none := by
  cases c <;> rfl

/-- A content that can be read is not refused by a search of lines. -/
theorem search_ne_none {c : Constructor} (hc : c = .singleLine ∨ c = .meminfo) (hne : content ≠ []) :
    c.search name content rest vars junk ≠ some none := by
  intro h
  rcases hc with rfl | rfl
  · simp only [search, singleLineSearch, if_neg hne, Option.bind_eq_bind, Option.bind_eq_some_iff, Option.pure_def,
      Option.some.injEq] at h
    obtain ⟨_, _, _, _, hnone⟩ := h
    cases hnone
  · simp only [search, meminfoSearch, if_neg hne, Option.bind_eq_bind, Option.bind_eq_some_iff, Option.pure_def,
      Option.some.injEq] at h
    obtain ⟨_, _, hnone⟩ := h
    cases hnone

/-- All names of a generic file are given. -/
theorem gen_named (dir : List UInt8) : Named (.gen dir) name content rest vars := by
  have hpoints : ∀ junk dpg, dpgConstruction dir name content rest (vars.buf (.line 0)) vars junk = some dpg →
      (∀ dp ∈ dpg.dataPoints, dp.initialDataPopulated = false ∧ dp.pointers = []) ∧
        dpg.dataPoints.map given = (List.range (getNumberOfValues content rest (vars.buf (.line 0)))).map fun i =>
          (.copy (genName name (getNumberOfValues content rest (vars.buf (.line 0))) i), none, .ulong) := by
    intro junk dpg h
    rw [dpgConstruction] at h
    split at h
    · obtain rfl := Option.some.inj h
      refine ⟨?_, by rw [List.map_map]; rfl⟩
      intro dp hdp
      obtain ⟨i, -, rfl⟩ := List.mem_map.mp hdp
      exact ⟨rfl, rfl⟩
    · cases h
  refine named_of (fun junk => ⟨_, rfl, fun dpg hdpg dp hdp => ?_⟩) fun junk junk' dpg dpg' h h' => ?_
  · obtain ⟨hpopulated, hpointers⟩ := (hpoints junk dpg hdpg).1 dp hdp
    exact ⟨hpopulated, by simp [hpointers]⟩
  · rw [(hpoints junk' dpg' (Option.some.inj h')).2, (hpoints junk dpg (Option.some.inj h)).2]

/-- Neither value of a data point is given by any constructor. -/
theorem left_over {c : Constructor} (h : c.search name content rest vars junk = some (some dpg)) :
    ∀ dp ∈ dpg.dataPoints, LeftOver junk dp := by
  intro dp hdp
  have hne : content ≠ [] := by
    rintro rfl
    rw [search_nil] at h
    cases h
  obtain ⟨k, hk⟩ := List.mem_iff_getElem?.mp hdp
  cases c with
  | dualLine =>
    by_cases hfill : Fills .dualLine content rest vars
    · obtain rfl := Option.some.inj (Option.some.inj ((dualLineSearch_eq hne hfill junk).symm.trans h))
      obtain ⟨j, -, i, -, n, rfl⟩ := mem_dualPointList hdp
      exact ⟨n, rfl, rfl⟩
    · rw [search, dualLineSearch_none hne hfill] at h
      cases h
  | singleLine => exact ⟨k, ((single_search h).2 k dp hk).2⟩
  | meminfo => exact ⟨k, ((meminfo_search h).2 k dp hk).2⟩
  | dev =>
    obtain ⟨vars', dict, hloop⟩ := dev_parsed hne h
    obtain rfl := Option.some.inj (Option.some.inj (((dev_registers hne hloop).2.2 junk).symm.trans h))
    obtain ⟨l, hl, hdp⟩ := List.mem_flatten.mp hdp
    obtain ⟨n, -, rfl⟩ := List.mem_map.mp hl
    obtain ⟨x, -, rfl⟩ := List.mem_map.mp hdp
    exact ⟨_, rfl, rfl⟩
  | stat =>
    by_cases hfill : Fills .stat content rest vars
    · obtain ⟨vars', dict', hsearch⟩ := stat_search hne hfill
      obtain ⟨points, hpoints, -, heq⟩ := hsearch junk
      obtain rfl := Option.some.inj (Option.some.inj (heq.symm.trans h))
      exact (mem_statPoints hpoints dp hdp).2.2
    · rw [stat_search_none hne hfill] at h
      cases h
  | gen dir =>
    have h := Option.some.inj h
    rw [dpgConstruction] at h
    split at h
    · obtain rfl := Option.some.inj h
      obtain ⟨i, -, rfl⟩ := List.mem_map.mp hdp
      exact ⟨i, rfl, rfl⟩
    · cases h

/-- All but the data is given exactly if the lines are as the constructor needs them. -/
theorem named_iff (c : Constructor) (name content : List UInt8) (rest : Image) (vars : Vars) :
    c.Named name content rest vars ↔ content = [] ∨ c.Fills content rest vars := by
  by_cases hnil : content = []
  · subst hnil
    exact ⟨fun _ => .inl rfl, fun _ junk => ⟨none, search_nil c junk, fun dpg hdpg => by cases hdpg⟩⟩
  rw [or_iff_right hnil]
  cases c with
  | dualLine =>
    refine ⟨?_, dual_named hnil⟩
    intro h
    by_contra hfill
    obtain ⟨r, hr, -⟩ := h fun _ => .blank
    rw [Constructor.search, dualLineSearch_none hnil hfill] at hr
    cases hr
  | singleLine =>
    refine iff_of_false (not_named (search_ne_none (.inl rfl) hnil) fun junk dpg h => ?_) id
    obtain ⟨hpos, hleft⟩ := single_search h
    exact ⟨hpos, fun k dp hdp => (hleft k dp hdp).1⟩
  | meminfo =>
    refine iff_of_false (not_named (search_ne_none (.inr rfl) hnil) fun junk dpg h => ?_) id
    obtain ⟨hpos, hleft⟩ := meminfo_search h
    exact ⟨hpos, fun k dp hdp => (hleft k dp hdp).1⟩
  | dev => exact ⟨dev_fills hnil, dev_named hnil⟩
  | stat =>
    refine ⟨?_, stat_named hnil⟩
    intro h
    by_contra hfill
    obtain ⟨r, hr, -⟩ := h fun _ => .blank
    rw [stat_search_none hnil hfill] at hr
    cases hr
  | gen dir => exact iff_of_true (gen_named dir) trivial

/-! ### The data -/

/-- What is complete is named. -/
theorem named_of_complete {c : Constructor} (h : c.Complete name content rest vars) : c.Named name content rest vars := by
  intro junk
  obtain ⟨r, hr, hpoints⟩ := h junk
  refine ⟨r, hr, ?_⟩
  intro dpg hdpg k dp hdp
  obtain ⟨hpopulated, hin, -, hsame⟩ := hpoints dpg hdpg k dp hdp
  exact ⟨hpopulated, hin, fun junk' dpg' dp' h' hdp' => (hsame junk' dpg' dp' h' hdp').1⟩

/-- As the data are left over, a complete gatherer has no data point: other memory would have given other data. -/
theorem length_zero_of_complete {c : Constructor} {n : Nat} (h : c.Complete name content rest vars)
    (hsearch : ∀ junk, ∃ dpg, c.search name content rest vars junk = some (some dpg) ∧ dpg.dataPoints.length = n) : n = 0 := by
  by_contra hn
  obtain ⟨dpg, hdpg, hlen⟩ := hsearch fun _ => .blank
  obtain ⟨dpg', hdpg', hlen'⟩ := hsearch fun _ => { DataPoint.blank with data := Image.zero.write 0 [1] }
  have hdp : dpg.dataPoints[0]? = some _ := List.getElem?_eq_getElem (by omega)
  have hdp' : dpg'.dataPoints[0]? = some _ := List.getElem?_eq_getElem (by omega)
  obtain ⟨r, hr, hpoints⟩ := h fun _ => .blank
  obtain rfl := Option.some.inj (hr.symm.trans hdpg)
  obtain ⟨-, hdata, -⟩ := (hpoints dpg rfl 0 _ hdp).2.2.2 _ dpg' _ hdpg' hdp'
  obtain ⟨i, hzero, -⟩ := left_over hdpg _ (List.mem_of_getElem? hdp)
  obtain ⟨i', hone, -⟩ := left_over hdpg' _ (List.mem_of_getElem? hdp')
  rw [hzero, hone] at hdata
  have hbyte : Image.zero.write 0 [1] 0 = Image.zero 0 := congrFun hdata 0
  exact absurd hbyte (by decide)

/-- A search that registers no data point is complete. -/
theorem complete_of_none {c : Constructor} (h : ∀ junk, ∃ r, c.search name content rest vars junk = some r ∧
    ∀ dpg, r = some dpg → dpg.dataPoints = []) : c.Complete name content rest vars := by
  intro junk
  obtain ⟨r, hr, hnone⟩ := h junk
  refine ⟨r, hr, ?_⟩
  intro dpg hdpg k dp hdp
  rw [hnone dpg hdpg] at hdp
  cases hdp

/-- A line has a column exactly if it has a space. -/
theorem cols_eq_nil (line : List UInt8) : (cols line).length = 0 ↔ 32 ∉ line := by
  have hcolumns : ∀ (i : Nat), columnsAt i line = [] ↔ 32 ∉ line := by
    induction line with
    | nil => simp [columnsAt]
    | cons c line ih =>
      intro i
      rw [columnsAt, List.mem_cons]
      by_cases hc : c = 32
      · simp [hc]
      · rw [if_neg hc, ih]
        simp [Ne.symm hc]
  have hdict : dictSize ≠ 0 := by decide
  rw [cols, List.length_eq_zero_iff, List.take_eq_nil_iff, hcolumns, or_iff_right hdict]

/-- A section has no pairs exactly if one of its lines has no space. -/
theorem sectionCount_eq_zero (lines : List (List UInt8)) (j : Nat) :
    sectionCount lines j = 0 ↔ 32 ∉ lines.getD (2 * j) [] ∨ 32 ∉ lines.getD (2 * j + 1) [] := by
  rw [← cols_eq_nil, ← cols_eq_nil, sectionCount]
  omega

/-- A dual-line file leaves nothing exactly if its sections have no pairs. -/
theorem dual_bare (hne : content ≠ []) : Complete .dualLine name content rest vars ↔ Bare .dualLine content rest vars := by
  have hlen : ∀ junk, Fills .dualLine content rest vars → ∃ dpg, Constructor.dualLine.search name content rest vars junk =
      some (some dpg) ∧ dpg.dataPoints.length =
        ((List.range (vars.lineCount / 2)).map (sectionCount (dualLines content rest vars))).sum :=
    fun junk hfill => ⟨_, dualLineSearch_eq hne hfill junk, dualPointList_length ..⟩
  constructor
  · intro h
    have hfill := ((named_iff _ _ _ _ _).mp (named_of_complete h)).resolve_left hne
    have hzero := length_zero_of_complete h fun junk => hlen junk hfill
    rw [List.sum_eq_zero_iff_forall_eq_nat] at hzero
    intro j hj
    exact ⟨hfill j hj, (sectionCount_eq_zero _ _).mp (hzero _ (List.mem_map.mpr ⟨j, List.mem_range.mpr hj, rfl⟩))⟩
  · intro h
    refine complete_of_none fun junk => ?_
    obtain ⟨dpg, hdpg, hcount⟩ := hlen junk fun j hj => (h j hj).1
    refine ⟨_, hdpg, ?_⟩
    rintro dpg' hdpg'
    obtain rfl := Option.some.inj hdpg'
    refine List.length_eq_zero_iff.mp (hcount.trans (List.sum_eq_zero_iff_forall_eq_nat.mpr fun n hn => ?_))
    obtain ⟨j, hj, rfl⟩ := List.mem_map.mp hn
    exact (sectionCount_eq_zero _ _).mpr (h j (List.mem_range.mp hj)).2

/-- `/proc/net/dev` leaves nothing exactly if it has no interfaces. -/
theorem dev_bare (hne : content ≠ []) : Complete .dev name content rest vars ↔ Bare .dev content rest vars := by
  have hlen : ∀ junk, Fills .dev content rest vars → ∃ dpg, Constructor.dev.search name content rest vars junk = some (some dpg) ∧
      dpg.dataPoints.length = 16 * (vars.lineCount - 2) := by
    intro junk hfill
    obtain ⟨vars', dict, -, hsearch⟩ := dev_search hne hfill
    refine ⟨_, hsearch junk, ?_⟩
    have hrow : ∀ n, (devPointList dict junk n).length = 16 := by
      intro n
      rw [devPointList, List.length_map, List.length_zipIdx]
      rfl
    simp only [List.length_flatten, List.map_map, Function.comp_def, hrow, List.map_const', List.length_range,
      List.sum_replicate_nat]
    exact Nat.mul_comm ..
  constructor
  · intro h
    have hfill := ((named_iff _ _ _ _ _).mp (named_of_complete h)).resolve_left hne
    have hzero := length_zero_of_complete h fun junk => hlen junk hfill
    show vars.lineCount ≤ 2
    omega
  · intro h
    have h : vars.lineCount ≤ 2 := h
    refine complete_of_none fun junk => ?_
    obtain ⟨dpg, hdpg, hcount⟩ := hlen junk ⟨by omega, fun n hn hn' => by omega⟩
    refine ⟨_, hdpg, ?_⟩
    rintro dpg' hdpg'
    obtain rfl := Option.some.inj hdpg'
    exact List.length_eq_zero_iff.mp (by omega)

/-- Lines without an empty one are never counted down. -/
theorem le_foldl_statCount {lines : List (List UInt8)} (h : [] ∉ lines) (c : Nat) : c ≤ lines.foldl statCount c := by
  induction lines generalizing c with
  | nil => exact Nat.le_refl c
  | cons line lines ih =>
    rw [List.mem_cons, not_or] at h
    refine Nat.le_trans ?_ (ih h.2 _)
    rw [statCount, if_neg (Ne.symm h.1)]
    exact Nat.le_add_right ..

/-- Nothing is counted exactly if there are no values. -/
theorem foldl_statCount_eq_zero {lines : List (List UInt8)} (h : NoEmptyBehind lines) :
    lines.foldl statCount 0 = 0 ↔ ∀ line ∈ lines, statValues line = [] := by
  induction lines with
  | nil => simp
  | cons line lines ih =>
    obtain ⟨hfirst, hrest⟩ := List.pairwise_cons.mp h
    rw [List.foldl_cons, List.forall_mem_cons]
    by_cases hval : statValues line = []
    · have hzero : statCount 0 line = 0 := by
        rw [statCount, hval]
        split <;> rfl
      rw [hzero, ih hrest, and_iff_right hval]
    · refine iff_of_false (fun hzero => ?_) fun hall => hval hall.1
      have hempty : [] ∉ lines := fun hmem => hfirst [] hmem hval rfl
      have hline : line ≠ [] := by
        rintro rfl
        exact hval rfl
      have hle := le_foldl_statCount hempty (statCount 0 line)
      have hpos := List.length_pos_iff.mpr hval
      have hdict : 0 < dictSize := by decide
      rw [hzero, statCount, if_neg hline] at hle
      omega

/-- `/proc/stat` leaves nothing exactly if it has no values. -/
theorem stat_bare (hne : content ≠ []) : Complete .stat name content rest vars ↔ Bare .stat content rest vars := by
  have hlen : ∀ junk, Fills .stat content rest vars → ∃ dpg, Constructor.stat.search name content rest vars junk =
      some (some dpg) ∧ dpg.dataPoints.length = (statLines content rest vars).foldl statCount 0 := by
    intro junk hfill
    obtain ⟨vars', dict', hsearch⟩ := stat_search hne hfill
    obtain ⟨points, -, hlen, heq⟩ := hsearch junk
    exact ⟨_, heq, hlen⟩
  constructor
  · intro h
    have hfill := ((named_iff _ _ _ _ _).mp (named_of_complete h)).resolve_left hne
    exact ⟨hfill.1, (foldl_statCount_eq_zero hfill.2).mp (length_zero_of_complete h fun junk => hlen junk hfill)⟩
  · intro h
    have hempty : NoEmptyBehind (statLines content rest vars) :=
      List.pairwise_iff_getElem.mpr fun i j hi hj _ hval => absurd (h.2 _ (List.getElem_mem hi)) hval
    refine complete_of_none fun junk => ?_
    obtain ⟨dpg, hdpg, hcount⟩ := hlen junk ⟨h.1, hempty⟩
    refine ⟨_, hdpg, ?_⟩
    rintro dpg' hdpg'
    obtain rfl := Option.some.inj hdpg'
    exact List.length_eq_zero_iff.mp (hcount.trans ((foldl_statCount_eq_zero hempty).mpr h.2))

/-- A file of a directory has no values exactly if its first line is empty. -/
theorem getNumberOfValues_eq_zero (hne : content ≠ []) (line : Image) :
    getNumberOfValues content rest line = 0 ↔ content.head? = some 10 := by
  obtain ⟨c, s, rfl⟩ := List.exists_cons_of_ne_nil hne
  have hread : (readFile (c :: s) genSize rest).read 0 genSize = c :: (readFile (c :: s) genSize rest).read 1 (genSize - 1) := by
    have hhead : readFile (c :: s) genSize rest 0 = c := by
      have h := (Image.has_write rest 0 ((c :: s).take genSize)).getElem (i := 0) (by simp [genSize])
      simpa [readFile] using h
    rw [show genSize = genSize - 1 + 1 by decide, read_succ, ← show genSize = genSize - 1 + 1 by decide, hhead]
  rw [getNumberOfValues, if_neg (List.cons_ne_nil c s), readLine_run, cutLine, if_neg (by decide), Nat.sub_zero, hread]
  have htake : ∀ t : List UInt8, (((c :: t).take (genLine - 1)).takeWhile (· != 10)).length < 1 ↔ c = 10 := by
    intro t
    rw [show genLine - 1 = genLine - 2 + 1 by decide, List.take_succ_cons, List.takeWhile_cons]
    by_cases hc : c = 10
    · simp [hc]
    · simp [hc]
  simp only [lineLen, Option.getD_some, htake, List.head?_cons, Option.some.injEq]
  split
  case isTrue h => simp [h]
  case isFalse h => simp [h]

/-- A generic file leaves nothing exactly if its first line is empty. -/
theorem gen_bare (dir : List UInt8) (hne : content ≠ []) :
    Complete (.gen dir) name content rest vars ↔ Bare (.gen dir) content rest vars := by
  have hzero : getNumberOfValues content rest (vars.buf (.line 0)) = 0 ↔ content.head? = some 10 :=
    getNumberOfValues_eq_zero hne (vars.buf (.line 0))
  rw [Bare, ← hzero]
  constructor
  · intro h
    by_contra hnum
    refine hnum (length_zero_of_complete h fun junk => ?_)
    simp only [search, dpgConstruction, if_pos hnum]
    exact ⟨_, rfl, by rw [List.length_map, List.length_range]⟩
  · intro h
    refine complete_of_none fun junk => ⟨none, ?_, fun dpg hdpg => by cases hdpg⟩
    simp only [search, dpgConstruction, h, ne_eq, not_true_eq_false, if_false]

end CompleteAux

open CompleteAux in
/-- For every constructor and every content, whatever the line buffers and the read buffer hold before: all that is read later is
given exactly if no data point is registered, as the data are always what `malloc` returned; name, prefix, type and
`initial_data_populated` are given exactly if the lines are as the constructor needs them. -/
theorem registered_complete_iff (c : Constructor) (name content : List UInt8) (rest : Image) (vars : Vars) :
    (c.Complete name content rest vars ↔ content = [] ∨ c.Bare content rest vars) ∧
      (c.Named name content rest vars ↔ content = [] ∨ c.Fills content rest vars) ∧
      ∀ junk dpg, c.search name content rest vars junk = some (some dpg) → ∀ dp ∈ dpg.dataPoints, LeftOver junk dp := by
  refine ⟨?_, named_iff c name content rest vars, fun junk dpg h => left_over h⟩
  by_cases hnil : content = []
  · subst hnil
    exact ⟨fun _ => .inl rfl, fun _ junk => ⟨none, search_nil c junk, fun dpg hdpg => by cases hdpg⟩⟩
  rw [or_iff_right hnil]
  cases c with
  | dualLine => exact dual_bare hnil
  | singleLine =>
    exact iff_of_false (fun h => ((named_iff _ _ _ _ _).mp (named_of_complete h)).resolve_left hnil) id
  | meminfo =>
    exact iff_of_false (fun h => ((named_iff _ _ _ _ _).mp (named_of_complete h)).resolve_left hnil) id
  | dev => exact dev_bare hnil
  | stat => exact stat_bare hnil
  | gen dir => exact gen_bare dir hnil

/-- What is registered for the line `a 12`, whose values are left as they were. -/
theorem registered_complete_line :
    ∃ dpg, Constructor.singleLine.search [102] [97, 32, 49, 50, 10] Image.zero (.cleared 2048 1) (fun _ => .blank) =
      some (some dpg) ∧ ∀ dp ∈ dpg.dataPoints, LeftOver (fun _ => .blank) dp := by
  have hker : ((Constructor.singleLine.search [102] [97, 32, 49, 50, 10] Image.zero (.cleared 2048 1) fun _ => .blank).bind
      fun r => r.map fun dpg => dpg.dataPoints.length) = some 1 := by decide +kernel
  rw [Option.bind_eq_some_iff] at hker
  obtain ⟨r, hr, hker⟩ := hker
  rw [Option.map_eq_some_iff] at hker
  obtain ⟨dpg, rfl, -⟩ := hker
  exact ⟨dpg, hr, (registered_complete_iff .singleLine [102] [97, 32, 49, 50, 10] Image.zero (.cleared 2048 1)).2.2 _ dpg hr⟩

/-- The line `a 12` is registered with `initial_data_populated` as `malloc` returned it. -/
theorem populated_left :
    ¬Constructor.singleLine.Complete [102] [97, 32, 49, 50, 10] Image.zero (.cleared 2048 1) := by
  have hker : ((Constructor.singleLine.search [102] [97, 32, 49, 50, 10] Image.zero (.cleared 2048 1) fun _ => .blank).bind
      fun r => r.bind fun dpg => (dpg.dataPoints[0]?).map DataPoint.initialDataPopulated) = some true := by decide +kernel
  intro hcomplete
  obtain ⟨r, hr, hpoints⟩ := hcomplete fun _ => .blank
  rw [hr, Option.bind_some, Option.bind_eq_some_iff] at hker
  obtain ⟨dpg, hdpg, hker⟩ := hker
  rw [Option.map_eq_some_iff] at hker
  obtain ⟨dp, hdp, hpopulated⟩ := hker
  rw [(hpoints dpg hdpg 0 dp hdp).1] at hpopulated
  cases hpopulated

end Pixel845.Datatop
