import Pixel845.Lemmas.DatatopDual
import Pixel845.Theorems.DatatopNames
import Mathlib.Data.List.Nodup

/-!
# Polling dual-line files

A value reaches its data point through its column and its section: the name is looked up among the headers of every section, and
the prefix of the section that was found is compared. As long as no pair of prefix and name occurs twice, the data point of a
column is given the text of this column in the value line of its section, once, and nothing if there is no such column
(`dual_line_paired`).
-/

namespace Pixel845.Datatop

/-- A section of a dual-line file: a header and a line of values. -/
structure DualSection where
  header : List UInt8
  values : List UInt8
  header_ne : header ≠ []
  values_ne : values ≠ []
  header_plain : 10 ∉ header
  values_plain : 10 ∉ values

/-- The lines of sections. -/
def dualTexts (sections : List DualSection) : List (List UInt8) := sections.flatMap fun s => [s.header, s.values]

/-- The content of a file with these sections. -/
def dualContent (sections : List DualSection) : List UInt8 := (dualTexts sections).flatMap (· ++ [10])

/-- The content fits the read buffer and its lines the line buffers. -/
structure DualFits (lineSize : Nat) (sections : List DualSection) : Prop where
  lines : ∀ line ∈ dualTexts sections, line.length < lineSize
  content : (dualContent sections).length ≤ dualSize

/-- The columns of a line: what stands behind each space, up to the next one. -/
def columnTexts (line : List UInt8) : List (List UInt8) := (columnsAt 0 line).map Prod.snd

/-- The data points that are registered for a section. -/
def DualSection.count (s : DualSection) : Nat := min (columnTexts s.header).length (columnTexts s.values).length

/-- The number of the data point for a column of a section. -/
def pointIndex (sections : List DualSection) (k i : Nat) : Nat := ((sections.take k).map DualSection.count).sum + i

/-- The pairs of section prefix and column name. -/
def dualPairs (sections : List DualSection) : List (List UInt8 × List UInt8) :=
  sections.flatMap fun s => (columnTexts s.header).map (headerPrefix s.header, ·)

/-- The data points of a gatherer are those of the sections, each with its name and prefix. -/
def DualNamed (sections : List DualSection) (dpg : Gatherer) : Prop :=
  dpg.dataPoints.length = (sections.map DualSection.count).sum ∧
    ∀ (k : Nat) s i, sections[k]? = some s → i < s.count → ∃ dp, dpg.dataPoints[pointIndex sections k i]? = some dp ∧
      (columnTexts s.header)[i]? = some (dpg.priv.text dp.name) ∧ dp.pfx.map dpg.priv.text = some (headerPrefix s.header)

/-- The poll is defined and stores what it is called with, and it calls `dtop_store_dp` for the data point of a column once, with
the text of this column in the new line of values, if there is such a column, and not at all otherwise. -/
def DualPaired (old new : List DualSection) (rest : Image) (dpg : Gatherer) : Prop :=
  ∃ vars sections calls points, dualParse (dualContent new) rest dpg.priv = (vars, sections) ∧
    dualCalls vars sections dpg.dataPoints = some calls ∧
    dualLinePoll (dualContent new) rest dpg = some (some { dpg with dataPoints := points, priv := vars }) ∧
    storeAll vars calls dpg.dataPoints = some points ∧
    ∀ (k : Nat) s s' i, old[k]? = some s → new[k]? = some s' → i < s.count →
      (∀ text, (columnTexts s'.values)[i]? = some text → ∃ p, callsAt calls (pointIndex old k i) = [p] ∧ vars.cstr p = text) ∧
      ((columnTexts s'.values)[i]? = none → callsAt calls (pointIndex old k i) = [])

namespace DualAux

variable {sections : List DualSection}

/-- No line has a newline in it. -/
theorem plain_dualTexts (sections : List DualSection) : ∀ line ∈ dualTexts sections, 10 ∉ line := by
  intro line hmem
  obtain ⟨s, -, hmem⟩ := List.mem_flatMap.mp hmem
  simp only [List.mem_cons, List.not_mem_nil, or_false] at hmem
  rcases hmem with rfl | rfl
  · exact s.header_plain
  · exact s.values_plain

theorem dualTexts_length (sections : List DualSection) : (dualTexts sections).length = 2 * sections.length := by
  induction sections with
  | nil => rfl
  | cons s sections ih =>
    rw [dualTexts] at ih ⊢
    rw [List.flatMap_cons, List.length_append, ih, List.length_cons]
    simp only [List.length_cons, List.length_nil]
    omega

/-- The two lines of a section. -/
theorem dualTexts_getD {k : Nat} {s : DualSection} (h : sections[k]? = some s) :
    (dualTexts sections).getD (2 * k) [] = s.header ∧ (dualTexts sections).getD (2 * k + 1) [] = s.values := by
  induction sections generalizing k with
  | nil => cases h
  | cons s' sections ih =>
    have hcons : dualTexts (s' :: sections) = s'.header :: s'.values :: dualTexts sections := rfl
    rw [hcons]
    cases k with
    | zero =>
      obtain rfl := Option.some.inj h
      exact ⟨rfl, rfl⟩
    | succ k => exact ih h

/-- What is read of a content that fits. -/
theorem dualLines_content (rest : Image) {vars : Vars} (h : DualFits vars.lineSize sections)
    (hcount : vars.lineCount = 2 * sections.length) : dualLines (dualContent sections) rest vars = dualTexts sections := by
  have hcut := cutLines_ended (plain_dualTexts sections) h.lines h.content (hcount.trans (dualTexts_length sections).symm) rest
  rw [dualLines, dualContent, hcut, List.map_map]
  exact List.map_id _

theorem content_ne (hne : sections ≠ []) : dualContent sections ≠ [] := by
  obtain ⟨s, tail, rfl⟩ := List.exists_cons_of_ne_nil hne
  intro h
  have hcons : dualContent (s :: tail) = (s.header ++ [10]) ++ ((s.values ++ [10]) ++ dualContent tail) := rfl
  rw [hcons] at h
  simp at h

/-- The columns of a line that is no longer than a dictionary. -/
theorem cols_eq {line : List UInt8} (h : line.length ≤ dictSize) : cols line = columnsAt 0 line :=
  List.take_of_length_le (Nat.le_trans (columnsAt_length_le 0 line) h)

/-- The lines of a section are no longer than a dictionary. -/
theorem line_length_le {lineSize k : Nat} {s : DualSection} (h : DualFits lineSize sections) (hsize : lineSize ≤ dictSize)
    (hs : sections[k]? = some s) : s.header.length ≤ dictSize ∧ s.values.length ≤ dictSize := by
  have hmem := List.mem_of_getElem? hs
  have h1 := h.lines s.header (List.mem_flatMap.mpr ⟨s, hmem, by simp⟩)
  have h2 := h.lines s.values (List.mem_flatMap.mpr ⟨s, hmem, by simp⟩)
  omega

/-- The data points of a section are as many as both lines have columns. -/
theorem sectionCount_eq {lineSize k : Nat} {s : DualSection} (h : DualFits lineSize sections) (hsize : lineSize ≤ dictSize)
    (hs : sections[k]? = some s) : sectionCount (dualTexts sections) k = s.count := by
  obtain ⟨h1, h2⟩ := line_length_le h hsize hs
  obtain ⟨hheader, hvalues⟩ := dualTexts_getD hs
  rw [sectionCount, hheader, hvalues, cols_eq h1, cols_eq h2, DualSection.count, columnTexts, columnTexts, List.length_map,
    List.length_map]

/-- The pairs of the sections before are counted. -/
theorem sum_counts {lineSize : Nat} (h : DualFits lineSize sections) (hsize : lineSize ≤ dictSize) {k : Nat}
    (hk : k ≤ sections.length) : ((List.range k).map (sectionCount (dualTexts sections))).sum =
      ((sections.take k).map DualSection.count).sum := by
  congr 1
  refine List.ext_getElem (by simp [hk]) ?_
  intro j hj hj'
  rw [List.length_map, List.length_range] at hj
  rw [List.getElem_map, List.getElem_map, List.getElem_range, List.getElem_take]
  exact sectionCount_eq h hsize (List.getElem?_eq_getElem (by omega))

/-- Both lines of a section are there. -/
theorem sectionFull {k : Nat} {s : DualSection} (hs : sections[k]? = some s) : SectionFull (dualTexts sections) k := by
  obtain ⟨hheader, hvalues⟩ := dualTexts_getD hs
  exact ⟨by rw [hheader]; exact s.header_ne, by rw [hvalues]; exact s.values_ne⟩

/-- A pair that occurs once belongs to one column of one section. -/
theorem pair_unique (hpairs : (dualPairs sections).Nodup) {j k q i : Nat} {s t : DualSection} {c : List UInt8}
    (hs : sections[j]? = some s) (ht : sections[k]? = some t) (hq : (columnTexts s.header)[q]? = some c)
    (hi : (columnTexts t.header)[i]? = some c)
    (hpretext : headerPrefix s.header = headerPrefix t.header) : j = k ∧ q = i := by
  obtain ⟨hnodup, hdisjoint⟩ := List.nodup_flatMap.mp hpairs
  obtain ⟨hj, rfl⟩ := List.getElem?_eq_some_iff.mp hs
  obtain ⟨hk, rfl⟩ := List.getElem?_eq_some_iff.mp ht
  have hmem : ∀ (s : DualSection) (q : Nat), (columnTexts s.header)[q]? = some c →
      (headerPrefix s.header, c) ∈ (columnTexts s.header).map (headerPrefix s.header, ·) := fun s q h =>
    List.mem_map.mpr ⟨c, List.mem_of_getElem? h, rfl⟩
  have hjk : j = k := by
    by_contra hne
    rcases Nat.lt_or_gt_of_ne hne with hlt | hgt
    · have hdis := List.pairwise_iff_getElem.mp hdisjoint j k hj hk hlt
      exact hdis (hmem _ q hq) (hpretext ▸ hmem _ i hi)
    · have hdis := List.pairwise_iff_getElem.mp hdisjoint k j hk hj hgt
      exact hdis (hmem _ i hi) (hpretext ▸ hmem _ q hq)
  subst hjk
  refine ⟨rfl, ?_⟩
  have hcolumns := (hnodup _ (List.getElem_mem hj)).of_map
  obtain ⟨hq', hqc⟩ := List.getElem?_eq_some_iff.mp hq
  obtain ⟨hi', hic⟩ := List.getElem?_eq_some_iff.mp hi
  exact hcolumns.getElem_inj_iff.mp (hqc.trans hic.symm)

variable {rest : Image} {vars : Vars}

/-- The texts behind the pointers of a column of a section that was parsed. -/
theorem parsed_texts (rest : Image) (h : DualFits vars.lineSize sections) (hcount : vars.lineCount = 2 * sections.length)
    (hsize : vars.lineSize ≤ dictSize) {k : Nat} {s : DualSection} (hs : sections[k]? = some s) :
    (∀ c ∈ columnsAt 0 s.header, (dualParsed (dualContent sections) rest vars).cstr ⟨.line (2 * k), c.1⟩ = c.2) ∧
      (∀ c ∈ columnsAt 0 s.values, (dualParsed (dualContent sections) rest vars).cstr ⟨.line (2 * k + 1), c.1⟩ = c.2) ∧
      (dualParsed (dualContent sections) rest vars).cstr ⟨.line2 (2 * k), 0⟩ = headerPrefix s.header := by
  have hk := (List.getElem?_eq_some_iff.mp hs).1
  have hlines := dualLines_content rest h hcount
  obtain ⟨hheader, hvalues⟩ := dualTexts_getD hs
  obtain ⟨hfullh, hfullv⟩ := sectionFull hs
  obtain ⟨hlh, hlv⟩ := line_length_le h hsize hs
  have htext : ∀ n, n = 2 * k ∨ n = 2 * k + 1 → ∀ c ∈ cols ((dualLines (dualContent sections) rest vars).getD n []),
      (dualParsed (dualContent sections) rest vars).cstr ⟨.line n, c.1⟩ = c.2 := fun n hn =>
    dualParsed_line_cstr hsize (by omega) (by rw [hlines, show 2 * (n / 2) = 2 * k by omega]; exact hfullh)
      (by rw [hlines, show 2 * (n / 2) + 1 = 2 * k + 1 by omega]; exact hfullv)
  refine ⟨?_, ?_, ?_⟩
  · have hcols := htext (2 * k) (.inl rfl)
    rwa [hlines, hheader, cols_eq hlh] at hcols
  · have hcols := htext (2 * k + 1) (.inr rfl)
    rwa [hlines, hvalues, cols_eq hlv] at hcols
  · have hpretext : (dualParsed (dualContent sections) rest vars).cstr ⟨.line2 (2 * k), 0⟩ = _ :=
      dualParsed_prefix_cstr hsize (by omega) (by rw [hlines]; exact hfullh)
    rwa [hlines, hheader] at hpretext

/-- What a search registers: the data points of all sections. -/
theorem search_eq (name : List UInt8) (junk : Nat → DataPoint) (h : DualFits vars.lineSize sections) (hne : sections ≠ [])
    (hcount : vars.lineCount = 2 * sections.length) :
    dualLineSearch name (dualContent sections) rest vars junk = some (some
      { pfx := name
        file := name
        dataPoints :=
          dualPointList (dualParsed (dualContent sections) rest vars) (dualTexts sections) junk 0 (List.range sections.length)
        priv := dualParsed (dualContent sections) rest vars }) := by
  have hhalf : vars.lineCount / 2 = sections.length := by omega
  have hfull : ∀ j ∈ List.range sections.length, SectionFull (dualTexts sections) j := fun j hj =>
    sectionFull (List.getElem?_eq_getElem (List.mem_range.mp hj))
  rw [dualLineSearch, if_neg (content_ne hne), dualParse_eq, hhalf, dualLines_content rest h hcount]
  simp only [dualPoints_eq _ hfull, Option.bind_eq_bind, Option.bind_some, Option.pure_def]

/-- The data point for a column. -/
theorem point_eq (points : Vars) (junk : Nat → DataPoint) {lineSize : Nat} (h : DualFits lineSize sections)
    (hsize : lineSize ≤ dictSize) {k i : Nat} {s : DualSection} (hs : sections[k]? = some s) (hi : i < s.count) :
    (dualPointList points (dualTexts sections) junk 0 (List.range sections.length))[pointIndex sections k i]? =
      some (dualPoint points (dualTexts sections) k i (junk (pointIndex sections k i))) := by
  have hk := (List.getElem?_eq_some_iff.mp hs).1
  have hget := dualPointList_getElem? junk points 0 (List.getElem?_range hk) ((sectionCount_eq h hsize hs).symm ▸ hi)
  rwa [List.take_range, Nat.min_eq_left (by omega), sum_counts h hsize (by omega), Nat.zero_add] at hget

/-- The name of the data point for a column, and where it points. -/
theorem column_getD {lineSize : Nat} (h : DualFits lineSize sections) (hsize : lineSize ≤ dictSize) {k i : Nat} {s : DualSection}
    (hs : sections[k]? = some s) (hi : i < s.count) :
    (cols ((dualTexts sections).getD (2 * k) [])).getD i (0, []) ∈ columnsAt 0 s.header ∧
      (columnTexts s.header)[i]? = some ((cols ((dualTexts sections).getD (2 * k) [])).getD i (0, [])).2 := by
  obtain ⟨hheader, -⟩ := dualTexts_getD hs
  have hlt : i < (columnsAt 0 s.header).length := by
    rw [DualSection.count, columnTexts, List.length_map] at hi
    omega
  rw [hheader, cols_eq (line_length_le h hsize hs).1, List.getD_eq_getElem _ _ hlt, columnTexts, List.getElem?_map,
    List.getElem?_eq_getElem hlt]
  exact ⟨List.getElem_mem hlt, rfl⟩

/-- What a search registers bears the names and prefixes of the sections. -/
theorem search_named (name : List UInt8) (rest : Image) (junk : Nat → DataPoint) (h : DualFits vars.lineSize sections)
    (hne : sections ≠ []) (hcount : vars.lineCount = 2 * sections.length) (hsize : vars.lineSize ≤ dictSize) :
    ∃ dpg, dualLineSearch name (dualContent sections) rest vars junk = some (some dpg) ∧ DualNamed sections dpg ∧
      dpg.dataPoints = dualPointList (dualParsed (dualContent sections) rest vars) (dualTexts sections) junk 0
        (List.range sections.length) ∧ dpg.priv.lineSize = vars.lineSize ∧ dpg.priv.lineCount = vars.lineCount := by
  refine ⟨_, search_eq name junk h hne hcount, ⟨?_, fun k s i hs hi => ?_⟩, rfl, dualParsed_lineSize .., dualParsed_lineCount ..⟩
  · rw [dualPointList_length, sum_counts h hsize (Nat.le_refl _), List.take_length]
  · obtain ⟨hnames, -, hpretext⟩ := parsed_texts rest h hcount hsize hs
    obtain ⟨hmem, hname⟩ := column_getD h hsize hs hi
    refine ⟨_, point_eq _ junk h hsize hs hi, ?_, ?_⟩
    · rw [hname, dualPoint, Vars.text, hnames _ hmem]
    · rw [dualPoint, Option.map_some, Vars.text, hpretext]

/-- The data points of a later state still point to the columns they were registered for. -/
theorem fixed_point {points : Vars} {junk : Nat → DataPoint} {dps : List DataPoint}
    (hfixed : dps.map DataPoint.fixed =
      (dualPointList points (dualTexts sections) junk 0 (List.range sections.length)).map DataPoint.fixed) {d : Nat}
      {dp : DataPoint}
    (hdp : dps[d]? = some dp) :
    ∃ dp', (dualPointList points (dualTexts sections) junk 0 (List.range sections.length))[d]? = some dp' ∧ dp.name = dp'.name ∧
      dp.pfx = dp'.pfx := by
  have hget := congrArg (fun l => l[d]?) hfixed
  simp only [List.getElem?_map, hdp, Option.map_some] at hget
  obtain ⟨dp', hdp', heq⟩ := Option.map_eq_some_iff.mp hget.symm
  simp only [DataPoint.fixed, Prod.mk.injEq] at heq
  exact ⟨dp', hdp', heq.1.symm, heq.2.1.symm⟩

/-- Every data point of a later state has a prefix. -/
theorem fixed_pfx {points : Vars} {junk : Nat → DataPoint} {dps : List DataPoint}
    (hfixed : dps.map DataPoint.fixed =
      (dualPointList points (dualTexts sections) junk 0 (List.range sections.length)).map DataPoint.fixed) :
    ∀ dp ∈ dps, ∃ str, dp.pfx = some str := by
  intro dp hdp
  obtain ⟨d, hd⟩ := List.mem_iff_getElem?.mp hdp
  obtain ⟨dp', hdp', -, hpfx⟩ := fixed_point hfixed hd
  obtain ⟨j, -, i, -, n, rfl⟩ := mem_dualPointList (List.mem_of_getElem? hdp')
  exact ⟨_, hpfx⟩

/-- The data point of a later state for a column. -/
theorem fixed_column {points : Vars} {junk : Nat → DataPoint} {dps : List DataPoint}
    (hfixed : dps.map DataPoint.fixed =
      (dualPointList points (dualTexts sections) junk 0 (List.range sections.length)).map DataPoint.fixed) {lineSize : Nat}
    (h : DualFits lineSize sections) (hsize : lineSize ≤ dictSize) {k i : Nat} {s : DualSection} (hs : sections[k]? = some s)
    (hi : i < s.count) :
    ∃ dp, dps[pointIndex sections k i]? = some dp ∧
      dp.name = .ptr ⟨.line (2 * k), ((cols ((dualTexts sections).getD (2 * k) [])).getD i (0, [])).1⟩ ∧
      dp.pfx = some (.ptr ⟨.line2 (2 * k), 0⟩) := by
  have hpoint := point_eq points junk h hsize hs hi
  have hget := congrArg (fun l => l[pointIndex sections k i]?) hfixed
  simp only [List.getElem?_map, hpoint, Option.map_some] at hget
  obtain ⟨dp, hdp, -⟩ := Option.map_eq_some_iff.mp hget
  obtain ⟨dp', hdp', hname, hpfx⟩ := fixed_point hfixed hdp
  obtain rfl := Option.some.inj (hpoint.symm.trans hdp')
  exact ⟨dp, hdp, hname, hpfx⟩

/-- The call for a data point and a section, in terms of its columns. -/
theorem call_cases (rest : Image) (h : DualFits vars.lineSize sections) (hcount : vars.lineCount = 2 * sections.length)
    (hsize : vars.lineSize ≤ dictSize) {j : Nat} {s : DualSection} (hs : sections[j]? = some s) {dp : DataPoint} {str : Str}
    (hpfx : dp.pfx = some str) (d : Nat) :
    (dualCall (dualParsed (dualContent sections) rest vars) (sectionDict (dualTexts sections) j)
        (sectionPrefixDict (dualTexts sections) j) d dp = some [] ∧ ∀ q < s.count, (columnTexts s.header)[q]? =
          some ((dualParsed (dualContent sections) rest vars).text dp.name) →
          headerPrefix s.header ≠ (dualParsed (dualContent sections) rest vars).text str) ∨
      ∃ q < s.count, ∃ p, dualCall (dualParsed (dualContent sections) rest vars) (sectionDict (dualTexts sections) j)
          (sectionPrefixDict (dualTexts sections) j) d dp = some [(d, p)] ∧
        (columnTexts s.header)[q]? = some ((dualParsed (dualContent sections) rest vars).text dp.name) ∧
        headerPrefix s.header = (dualParsed (dualContent sections) rest vars).text str ∧
        (columnTexts s.values)[q]? = some ((dualParsed (dualContent sections) rest vars).cstr p) := by
  obtain ⟨hnames, hvalues, hpretext⟩ := parsed_texts rest h hcount hsize hs
  obtain ⟨hh, hv⟩ := dualTexts_getD hs
  obtain ⟨hlh, hlv⟩ := line_length_le h hsize hs
  rcases dualCall_cases (sectionFull hs) hpfx (by rw [hh, cols_eq hlh]; exact hnames) (by rw [hh]; exact hpretext) d with
    ⟨hcall, hno⟩ | ⟨q, hq, hcall, hname, hpre, -⟩
  · refine .inl ⟨hcall, fun q hq hname => ?_⟩
    rw [← hh]
    refine hno q (by rwa [sectionCount_eq h hsize hs]) ?_
    rw [(column_getD h hsize hs hq).2] at hname
    exact Option.some.inj hname
  · rw [sectionCount_eq h hsize hs] at hq
    have hlt : q < (columnsAt 0 s.values).length := by
      rw [DualSection.count, columnTexts, columnTexts, List.length_map, List.length_map] at hq
      omega
    refine .inr ⟨q, hq, _, hcall, ?_, ?_, ?_⟩
    · rw [(column_getD h hsize hs hq).2, hname]
    · rw [← hpre, hh]
    · rw [hv, cols_eq hlv, List.getD_eq_getElem _ _ hlt, hvalues _ (List.getElem_mem hlt), columnTexts, List.getElem?_map,
        List.getElem?_eq_getElem hlt]
      rfl

/-- All calls of a poll are defined. -/
theorem calls_eq (rest : Image) (h : DualFits vars.lineSize sections) (hcount : vars.lineCount = 2 * sections.length)
    (hsize : vars.lineSize ≤ dictSize) {points : List DataPoint} (hpfx : ∀ dp ∈ points, ∃ str, dp.pfx = some str) :
    dualCalls (dualParsed (dualContent sections) rest vars) ((List.range sections.length).map fun j =>
        (sectionDict (dualTexts sections) j, sectionPrefixDict (dualTexts sections) j)) points =
      some (((List.range sections.length).map
        (callsOf (dualParsed (dualContent sections) rest vars) (dualTexts sections) points)).flatten) := by
  refine dualCalls_eq fun j hj x hx => ?_
  obtain ⟨str, hstr⟩ := hpfx x.1 (List.fst_mem_of_mem_zipIdx hx)
  rcases call_cases rest h hcount hsize (List.getElem?_eq_getElem hj) hstr x.2 with ⟨hcall, -⟩ | ⟨q, -, p, hcall, -⟩
  · exact ⟨_, hcall⟩
  · exact ⟨_, hcall⟩

/-- A poll of sections with the headers that were registered. -/
theorem poll_paired {old new : List DualSection} {rest : Image} {lineSize : Nat} {points : Vars} {junk : Nat → DataPoint}
    {current : Gatherer} (hold : DualFits lineSize old) (hsize : lineSize ≤ dictSize) (hnew : DualFits current.priv.lineSize new)
    (hne : new ≠ [])
    (hcount : current.priv.lineCount = 2 * new.length) (hcsize : current.priv.lineSize ≤ dictSize)
    (hheaders : new.map DualSection.header = old.map DualSection.header) (hpairs : (dualPairs old).Nodup)
    (hfixed : current.dataPoints.map DataPoint.fixed =
      (dualPointList points (dualTexts old) junk 0 (List.range old.length)).map DataPoint.fixed) :
    DualPaired old new rest current := by
  have hlen : new.length = old.length := by simpa using congrArg List.length hheaders
  have hheader : ∀ (k : Nat) (s s' : DualSection), old[k]? = some s → new[k]? = some s' → s'.header = s.header := by
    intro k s s' hs hs'
    have hget := congrArg (fun l => l[k]?) hheaders
    simpa [hs, hs'] using hget
  have hpfx := fixed_pfx hfixed
  have hcalls := calls_eq rest hnew hcount hcsize hpfx
  have hparse : dualParse (dualContent new) rest current.priv = (dualParsed (dualContent new) rest current.priv,
      (List.range new.length).map fun j => (sectionDict (dualTexts new) j, sectionPrefixDict (dualTexts new) j)) := by
    rw [dualParse_eq, dualLines_content rest hnew hcount, show current.priv.lineCount / 2 = new.length by omega]
  obtain ⟨points', hstore⟩ := storeAll_isSome (dualParsed (dualContent new) rest current.priv)
    (callsOf_within (dualParsed (dualContent new) rest current.priv) (dualTexts new) current.dataPoints new.length)
  refine ⟨_, _, _, points', hparse, hcalls, ?_, hstore, fun k s s' i hs hs' hi => ?_⟩
  · simp only [dualLinePoll, if_neg (content_ne hne), hparse, hcalls, hstore, Option.bind_eq_bind, Option.bind_some,
      Option.pure_def]
  have hk := (List.getElem?_eq_some_iff.mp hs').1
  -- The data point for the column: its name and prefix stand where they stood.
  obtain ⟨dp, hdp, hname, hdppfx⟩ := fixed_column hfixed hold hsize hs hi
  obtain ⟨hnames, -, hpretext⟩ := parsed_texts rest hnew hcount hcsize hs'
  obtain ⟨hmem, hcolumn⟩ := column_getD hold hsize hs hi
  rw [hheader k s s' hs hs'] at hnames hpretext
  have hdpname : (columnTexts s.header)[i]? = some ((dualParsed (dualContent new) rest current.priv).text dp.name) := by
    rw [hcolumn, hname, Vars.text, hnames _ hmem]
  have hcallsAt : ∀ j < new.length, callsAt
      (callsOf (dualParsed (dualContent new) rest current.priv) (dualTexts new) current.dataPoints j) (pointIndex old k i) =
        ((dualCall (dualParsed (dualContent new) rest current.priv) (sectionDict (dualTexts new) j)
        (sectionPrefixDict (dualTexts new) j) (pointIndex old k i) dp).getD []).map Prod.snd := by
    intro j hj
    exact callsAt_callsOf hdp
  -- A column with this name in a section with this prefix is the one of the data point.
  have hunique : ∀ (j q : Nat) (t : DualSection), new[j]? = some t →
      (columnTexts t.header)[q]? = some ((dualParsed (dualContent new) rest current.priv).text dp.name) →
      headerPrefix t.header = (dualParsed (dualContent new) rest current.priv).text (.ptr ⟨.line2 (2 * k), 0⟩) →
      j = k ∧ q = i := by
    intro j q t ht hq hpre
    obtain ⟨t', ht'⟩ : ∃ t', old[j]? = some t' := by
      have hj := (List.getElem?_eq_some_iff.mp ht).1
      exact ⟨_, List.getElem?_eq_getElem (by omega)⟩
    rw [hheader j t' t ht' ht] at hq hpre
    exact pair_unique hpairs ht' hs hq hdpname (hpre.trans hpretext)
  rw [callsAt_range_single hk fun j hj hne' => ?_, hcallsAt k hk]
  · rcases call_cases rest hnew hcount hcsize hs' hdppfx
      (pointIndex old k i) with ⟨hcall, hno⟩ | ⟨q, hq, p, hcall, hqname, hpre, htext⟩
    · rw [hcall]
      refine ⟨?_, fun _ => rfl⟩
      intro text htext
      have hi' : i < s'.count := by
        rw [DualSection.count, hheader k s s' hs hs']
        have h1 := (List.getElem?_eq_some_iff.mp hcolumn).1
        have h2 := (List.getElem?_eq_some_iff.mp htext).1
        omega
      refine absurd ?_ (hno i hi' ?_)
      · rw [hheader k s s' hs hs']
        exact hpretext.symm
      · rw [hheader k s s' hs hs']
        exact hdpname
    · obtain ⟨-, rfl⟩ := hunique k q s' hs' hqname hpre
      rw [hcall]
      refine ⟨fun text htext' => ⟨p, rfl, ?_⟩, fun hnone => ?_⟩
      · exact Option.some.inj (htext.symm.trans htext')
      · rw [hnone] at htext
        cases htext
  · have hj' : new[j]? = some new[j] := List.getElem?_eq_getElem hj
    rw [hcallsAt j hj]
    rcases call_cases rest hnew hcount hcsize hj' hdppfx (pointIndex old k i) with ⟨hcall, -⟩ | ⟨q, -, p, -, hqname, hpre, -⟩
    · rw [hcall]
      rfl
    · exact absurd (hunique j q _ hj' hqname hpre).1 hne'

end DualAux

open DualAux in
/-- For all sections that a search and a later poll read, with the same headers and any values, and every run of polls between the
two: the search registers the columns of the sections, and the poll gives each the value of its column, if there is one. -/
theorem dual_line_paired (name : List UInt8) (old new : List DualSection) (rest rest' : Image) (vars : Vars)
    (junk : Nat → DataPoint) (hne : old ≠ []) (hold : DualFits vars.lineSize old) (hnew : DualFits vars.lineSize new)
    (hheaders : new.map DualSection.header = old.map DualSection.header) (hcount : vars.lineCount = 2 * old.length)
    (hsize : vars.lineSize ≤ dictSize) (hpairs : (dualPairs old).Nodup) :
    ∃ dpg, dualLineSearch name (dualContent old) rest vars junk = some (some dpg) ∧ DualNamed old dpg ∧
      ∀ polls dpgs, Poller.dualLine.run polls dpg = some dpgs → ∀ current ∈ dpg :: dpgs, DualPaired old new rest' current := by
  obtain ⟨dpg, hsearch, hnamed, hpoints, hdsize, hdcount⟩ := search_named name rest junk hold hne hcount hsize
  refine ⟨dpg, hsearch, hnamed, ?_⟩
  intro polls dpgs hrun current hmem
  obtain ⟨hfixed, hcsize, hccount⟩ : current.dataPoints.map DataPoint.fixed = dpg.dataPoints.map DataPoint.fixed ∧
      current.priv.lineSize = dpg.priv.lineSize ∧ current.priv.lineCount = dpg.priv.lineCount := by
    rcases List.mem_cons.mp hmem with rfl | hmem
    · exact ⟨rfl, rfl, rfl⟩
    · exact NamesAux.run_fixed hrun current hmem
  rw [hpoints] at hfixed
  have hlen : new.length = old.length := by simpa using congrArg List.length hheaders
  have hnew' : DualFits current.priv.lineSize new := by rwa [hcsize, hdsize]
  have hcount' : current.priv.lineCount = 2 * new.length := by rw [hccount, hdcount, hcount, hlen]
  have hsize' : current.priv.lineSize ≤ dictSize := by rwa [hcsize, hdsize]
  have hne' : new ≠ [] := by
    rintro rfl
    exact hne (List.length_eq_zero_iff.mp hlen.symm)
  exact poll_paired hold hsize hnew' hne' hcount' hsize' hheaders hpairs hfixed

/-- The sections `T: a b` with `T: 1 2`, and `U: a` with `U: 3`. -/
def twoSections : List DualSection :=
  [⟨[84, 58, 32, 97, 32, 98], [84, 58, 32, 49, 32, 50], by decide, by decide, by decide, by decide⟩,
    ⟨[85, 58, 32, 97], [85, 58, 32, 51], by decide, by decide, by decide, by decide⟩]

/-- The same headers; the first section has lost its second value, and the second has another one. -/
def twoSectionsLater : List DualSection :=
  [⟨[84, 58, 32, 97, 32, 98], [84, 58, 32, 52], by decide, by decide, by decide, by decide⟩,
    ⟨[85, 58, 32, 97], [85, 58, 32, 53], by decide, by decide, by decide, by decide⟩]

/-- The rule for two sections that share a column name. -/
theorem dual_line_paired_two :
    ∃ dpg, dualLineSearch [110] (dualContent twoSections) Image.zero (.cleared 2048 4) (fun _ => .blank) = some (some dpg) ∧
      DualNamed twoSections dpg ∧ ∀ polls dpgs, Poller.dualLine.run polls dpg = some dpgs → ∀ current ∈ dpg :: dpgs,
        DualPaired twoSections twoSectionsLater Image.zero current :=
  dual_line_paired [110] twoSections twoSectionsLater Image.zero Image.zero (.cleared 2048 4) (fun _ => .blank) (by decide)
    ⟨by decide, by decide⟩ ⟨by decide, by decide⟩ rfl rfl (by decide) (by decide)

end Pixel845.Datatop
