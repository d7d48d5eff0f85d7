import Pixel845.Lemmas.DatatopDev
import Pixel845.Lemmas.DatatopNames

/-!
# Polling /proc/net/dev

Search and poll number the counters by the lines: the counters of the line with some number go to the data points that were
registered for the line with that number. A poll keeps them with their interfaces exactly if each line that it reads is one of the
content and has, column by column, counters as good as those of the interface that was registered for its number
(`dev_poll_kept_iff`). That is so while each interface has kept its line number (`inPlace_of_names`).
-/

namespace Pixel845.Datatop

/-- The content of the file: two lines of header and the lines of interfaces. -/
def devContent (header1 header2 : List UInt8) (lines : List DevLine) : List UInt8 :=
  header1 ++ 10 :: (header2 ++ 10 :: lines.flatMap fun line => line.text ++ [10])

/-- The content fits the read buffer and its lines the line buffers. -/
structure DevFits (lineSize : Nat) (header1 header2 : List UInt8) (lines : List DevLine) : Prop where
  first : 10 ∉ header1 ∧ header1.length < lineSize
  second : 10 ∉ header2 ∧ header2.length < lineSize
  texts : ∀ line ∈ lines, line.text.length < lineSize
  content : (devContent header1 header2 lines).length ≤ devSize

/-- The data points after a poll. -/
def devAfter (content : List UInt8) (rest : Image) (dpg : Gatherer) : Option (List DataPoint) :=
  (devPoll content rest dpg).map fun r => (r.getD dpg).dataPoints

/-- The data points of the interfaces: each bears the name, with its colon, and the prefix of its column. -/
def DevNamed (lines : List DevLine) (dpg : Gatherer) : Prop :=
  dpg.dataPoints.length = 16 * lines.length ∧ ∀ (k : Nat) line j, lines[k]? = some line → j < 16 → ∃ dp pfx,
    dpg.dataPoints[16 * k + j]? = some dp ∧ dpg.priv.text dp.name = line.name ++ [58] ∧ devPrefixes[j]? = some pfx ∧
    dp.pfx = some (.copy pfx)

/-- The names under which the data points of a gatherer are registered. -/
def registeredNames (dpg : Gatherer) : List (List UInt8) := dpg.dataPoints.map fun dp => dpg.priv.text dp.name

/-- Each data point has the prefix of its column: there are sixteen for each interface. -/
def DevColumns (dpg : Gatherer) : Prop :=
  ∀ (d : Nat) dp, dpg.dataPoints[d]? = some dp → ∃ pfx, devPrefixes[d % 16]? = some pfx ∧ dp.pfx = some (.copy pfx)

/-- What the lines of a file have for a column of an interface, by its name with the colon: the counter, or nothing. -/
def InterfaceHas (lines : List DevLine) (name : List UInt8) (j : Nat) : Option (List UInt8) → Prop
  | some v => ∃ line ∈ lines, line.name ++ [58] = name ∧ (line.counters[j]?).map Prod.snd = some v
  | none => ∀ line ∈ lines, line.name ++ [58] ≠ name

/-- The lines that are read, those of the header included. -/
def devPieces (content : List UInt8) (rest : Image) (vars : Vars) : List (Option (List UInt8)) :=
  cutLines (readFile content devSize rest) vars.lineSize devSize vars.lineCount 0

/-- A line is read from the content, and not from what stands behind it. -/
def ReadInside (content : List UInt8) (pieces : List (Option (List UInt8))) (b : Nat) : Prop :=
  lineStart pieces b + lineLen (pieces.getD b none) ≤ content.length

/-- The poll is defined, what it stores stands in lines that are read from the content, and each data point was given what the
file has for its interface and column. -/
def DevKept (names : List (List UInt8)) (lines : List DevLine) (content : List UInt8) (rest : Image) (dpg : Gatherer) : Prop :=
  ∃ vars calls points, devPollCalls content rest dpg.priv = some (vars, calls) ∧ devAfter content rest dpg = some points ∧
    (∀ call ∈ calls, ∃ b, call.2.buf = .line b ∧ ReadInside content (devPieces content rest dpg.priv) b) ∧
    ∀ (d : Nat) name dp, names[d]? = some name → dpg.dataPoints[d]? = some dp →
      ∃ v, InterfaceHas lines name (d % 16) v ∧ points[d]? = some (dp.given v)

/-- Of each data point the line with the number of its interface is read from the content and has a counter in its column, which
is as good as what the file has for the interface: both leave the data point alike. -/
def DevInPlace (names : List (List UInt8)) (lines : List DevLine) (content : List UInt8) (pieces : List (Option (List UInt8)))
    (points : List DataPoint) : Prop :=
  ∀ (d : Nat) name dp, names[d]? = some name → points[d]? = some dp →
    ∃ t c v, pieces[d / 16 + 2]? = some (some t) ∧ ReadInside content pieces (d / 16 + 2) ∧ (devTexts t)[d % 16]? = some c ∧
      InterfaceHas lines name (d % 16) v ∧ dp.given (some c) = dp.given v

namespace DevAux

variable {header1 header2 : List UInt8} {lines : List DevLine}

theorem text_plain (line : DevLine) : 10 ∉ line.text := by
  have hcounters : ∀ counters : List (List UInt8 × List UInt8), (∀ x ∈ counters, x.1 ≠ [] ∧ ∀ c ∈ x.1, isBlank c) →
      (∀ x ∈ counters, x.2 ≠ [] ∧ ∀ c ∈ x.2, endsCounter c = false ∧ c ≠ 10) → 10 ∉ counterText counters := by
    intro counters hgap hplain hmem
    obtain ⟨x, hx, hmem⟩ := List.mem_flatMap.mp hmem
    rcases List.mem_append.mp hmem with hmem | hmem
    · exact absurd ((hgap x hx).2 10 hmem) (by decide)
    · exact ((hplain x hx).2 10 hmem).2 rfl
  rw [DevLine.text]
  simp only [List.mem_append, List.mem_cons, not_or]
  exact ⟨fun h => absurd (line.pad_blank 10 h) (by decide), fun h => (line.name_plain 10 h).2.2.2 rfl, by decide,
    hcounters _ line.gap_blank line.counter_plain⟩

theorem texts_plain (lines : List DevLine) : ∀ l ∈ lines.map DevLine.text, 10 ∉ l :=
  List.forall_mem_map.mpr fun line _ => text_plain line

/-- The lines of interfaces, each with its newline. -/
theorem texts_ended (lines : List DevLine) :
    (lines.flatMap fun line => line.text ++ [10]) = (lines.map DevLine.text).flatMap (· ++ [10]) := by
  rw [List.flatMap_map]

/-- The lines of the content. -/
theorem splitOn_content (h1 : 10 ∉ header1) (h2 : 10 ∉ header2) (lines : List DevLine) :
    (devContent header1 header2 lines).splitOn 10 = header1 :: header2 :: (lines.map DevLine.text ++ [[]]) := by
  rw [devContent, List.splitOn_append_cons_self_of_not_mem h1, List.splitOn_append_cons_self_of_not_mem h2, texts_ended,
    splitOn_ended (texts_plain lines)]

/-- There are two newlines more than interfaces. -/
theorem count_content (h1 : 10 ∉ header1) (h2 : 10 ∉ header2) (lines : List DevLine) :
    (devContent header1 header2 lines).count 10 = lines.length + 2 := by
  rw [devContent, List.count_append, List.count_cons_self, List.count_append, List.count_cons_self, texts_ended,
    count_ended_of_not_mem (texts_plain lines), List.length_map, List.count_eq_zero.mpr h1, List.count_eq_zero.mpr h2]
  omega

/-- A content that fits has fewer lines than a dictionary entries. -/
theorem length_le_dict {lineSize : Nat} (h : DevFits lineSize header1 header2 lines) : lines.length ≤ dictSize := by
  have hlines : 17 * (lines.map DevLine.text).length ≤ (lines.flatMap fun line => line.text ++ [10]).length := by
    rw [texts_ended]
    exact length_ended_le (List.forall_mem_map.mpr fun line _ => line.text_length)
  rw [List.length_map] at hlines
  have hcontent := h.content
  have hdict : dictSize = 2048 := rfl
  have hsize : devSize = 8192 := rfl
  simp only [devContent, List.length_append, List.length_cons] at hcontent
  omega

/-- What is read of memory with a content that fits, if that has as many lines: the lines of interfaces. -/
theorem pieces_content {m : Image} {lineSize lineCount : Nat} (hm : m.Has 0 (devContent header1 header2 lines))
    (h : DevFits lineSize header1 header2 lines) (hcount : lineCount ≤ lines.length + 2) :
    cutLines m lineSize devSize lineCount 0 = ((header1 :: header2 :: lines.map DevLine.text).take lineCount).map some := by
  have hsplit := splitOn_content h.first.1 h.second.1 lines
  have hpos : 1 ≤ lineSize := by
    have := h.first.2
    omega
  have htake : ((devContent header1 header2 lines).splitOn 10).take lineCount =
      (header1 :: header2 :: lines.map DevLine.text).take lineCount := by
    rw [hsplit, ← List.cons_append, ← List.cons_append, List.take_append_of_le_length (by simp; omega)]
  rw [← htake]
  refine cutLines_eq hm (by have := h.content; omega) hpos (by rw [count_content h.first.1 h.second.1]; omega) ?_
  intro l hl
  rw [htake] at hl
  have hmem := List.mem_of_mem_take hl
  simp only [List.mem_cons, List.mem_map] at hmem
  rcases hmem with rfl | rfl | ⟨line, hline, rfl⟩
  · have := h.first.2
    omega
  · have := h.second.2
    omega
  · have := h.texts line hline
    omega

/-- The line of an interface is read as it is. -/
theorem pieces_line {m : Image} {lineSize lineCount : Nat} (hm : m.Has 0 (devContent header1 header2 lines))
    (h : DevFits lineSize header1 header2 lines) (hcount : lineCount ≤ lines.length + 2) {k : Nat} {line : DevLine}
    (hl : lines[k]? = some line) (hk : k < lineCount - 2) :
    (cutLines m lineSize devSize lineCount 0)[k + 2]? = some (some line.text) := by
  rw [pieces_content hm h hcount, List.getElem?_map, List.getElem?_take_of_lt (by omega), List.getElem?_cons_succ,
    List.getElem?_cons_succ, List.getElem?_map, hl]
  rfl

theorem content_ne (header1 header2 : List UInt8) (lines : List DevLine) : devContent header1 header2 lines ≠ [] := by
  simp [devContent]

/-- The content is its lines, each with its end. -/
theorem content_ended (header1 header2 : List UInt8) (lines : List DevLine) :
    devContent header1 header2 lines = (header1 :: header2 :: lines.map DevLine.text).flatMap (· ++ [10]) := by
  simp [devContent, texts_ended]

/-- Lines that are read as they stand are read from the content. -/
theorem lineStart_le_length (texts : List (List UInt8)) (n b : Nat) :
    lineStart ((texts.take n).map some) b ≤ (texts.flatMap (· ++ [10])).length := by
  induction texts generalizing n b with
  | nil => simp [lineStart]
  | cons t texts ih =>
    cases n with
    | zero => simp [lineStart]
    | succ n =>
      cases b with
      | zero => simp [lineStart]
      | succ b =>
        have hrec := ih n b
        simp only [lineStart, List.map_cons, List.take_succ_cons, List.sum_cons, lineLen, Option.getD_some, List.flatMap_cons,
          List.length_append, List.length_singleton] at hrec ⊢
        omega

/-- The content up to some interface comes first. -/
theorem content_take_front (header1 header2 : List UInt8) (lines : List DevLine) (n : Nat) :
    devContent header1 header2 (lines.take n) <+: devContent header1 header2 lines := by
  rw [content_ended, content_ended]
  conv_rhs => rw [← List.take_append_drop n lines]
  rw [List.map_append, ← List.cons_append, ← List.cons_append, List.flatMap_append]
  exact List.prefix_append ..

/-- What fits of a content is in the read buffer, whatever comes behind it. -/
theorem readFile_has_take {n : Nat} (rest : Image) (h : (devContent header1 header2 (lines.take n)).length ≤ devSize) :
    (readFile (devContent header1 header2 lines) devSize rest).Has 0 (devContent header1 header2 (lines.take n)) := by
  obtain ⟨r, hr⟩ := List.prefix_take_iff.mpr ⟨content_take_front header1 header2 lines n, h⟩
  rw [readFile, ← hr]
  exact (Image.has_append.mp (Image.has_write rest 0 _)).1

/-! ### Searching -/

/-- An element of rows of one length, by its row and its column. -/
theorem flatten_getElem? {α : Type} {rows : List (List α)} {n k j : Nat} (h : ∀ row ∈ rows, row.length = n) (hj : j < n) :
    rows.flatten[n * k + j]? = (rows[k]?).bind fun row => row[j]? := by
  induction rows generalizing k with
  | nil => simp
  | cons row rows ih =>
    have hlen := h row List.mem_cons_self
    have hrec := fun k => ih (k := k) fun r hr => h r (List.mem_cons_of_mem row hr)
    rw [List.flatten_cons]
    cases k with
    | zero =>
      rw [List.getElem?_append_left (by rw [hlen]; omega)]
      simp
    | succ k =>
      have hn : n * (k + 1) = n * k + n := Nat.mul_succ n k
      rw [List.getElem?_append_right (by rw [hlen]; omega), hlen, show n * (k + 1) + j - n = n * k + j by omega, hrec k,
        List.getElem?_cons_succ]

/-- A search keeps the sizes of the line buffers. -/
theorem devSearchLoop_sizes {lens : List Nat} {index : Nat} {vars vars' : Vars} {dict dict' : Dict}
    (h : devSearchLoop lens index vars dict = some (vars', dict')) :
    vars'.lineSize = vars.lineSize ∧ vars'.lineCount = vars.lineCount := by
  induction lens generalizing index vars dict with
  | nil =>
    obtain ⟨rfl, -⟩ := Prod.mk.inj (Option.some.inj h)
    exact ⟨rfl, rfl⟩
  | cons len lens ih =>
    simp only [devSearchLoop, Option.bind_eq_bind, Option.bind_eq_some_iff] at h
    obtain ⟨⟨line, dict1⟩, -, hloop⟩ := h
    have hsizes : vars'.lineSize = (vars.setBuf (.line (index + 2)) line).lineSize ∧
        vars'.lineCount = (vars.setBuf (.line (index + 2)) line).lineCount := ih hloop
    exact hsizes

/-- The rows of data points, each of an interface. -/
theorem devPoints_rows {dict : Dict} {junk : Nat → DataPoint} {n : Nat} {rows : List (List DataPoint)}
    (h : (List.range n).mapM (devPoints dict junk) = some rows) :
    rows.length = n ∧ (∀ row ∈ rows, row.length = 16) ∧ ∀ k < n, ∃ key row, dict.key k = some key ∧ rows[k]? = some row ∧
      ∀ j < 16, ∃ dp pfx, row[j]? = some dp ∧ devPrefixes[j]? = some pfx ∧ dp.pfx = some (.copy pfx) ∧ dp.name = .ptr key := by
  have hforall := mapM_eq_some.mp h
  have hlen : rows.length = n := by
    rw [← hforall.length_eq, List.length_range]
  have hrow : ∀ k < n, ∃ key row, dict.key k = some key ∧ rows[k]? = some row ∧ row.length = 16 ∧
      ∀ j < 16, ∃ dp pfx, row[j]? = some dp ∧ devPrefixes[j]? = some pfx ∧ dp.pfx = some (.copy pfx) ∧ dp.name = .ptr key := by
    intro k hk
    have hget := hforall.get (i := k) (by simpa using hk) (by omega)
    simp only [List.get_eq_getElem, List.getElem_range, devPoints, Option.bind_eq_bind, Option.bind_eq_some_iff, Option.pure_def,
      Option.some.injEq] at hget
    obtain ⟨key, hkey, heq⟩ := hget
    refine ⟨key, rows[k], hkey, List.getElem?_eq_getElem (by omega), by rw [← heq, List.length_map, List.length_zipIdx]; rfl, ?_⟩
    intro j hj
    have hj' : j < devPrefixes.length := hj
    rw [← heq, List.getElem?_map, List.getElem?_zipIdx, List.getElem?_eq_getElem hj']
    exact ⟨_, devPrefixes[j], rfl, rfl, rfl, rfl⟩
  refine ⟨hlen, fun row hmem => ?_, fun k hk => ?_⟩
  · obtain ⟨k, hk⟩ := List.mem_iff_getElem?.mp hmem
    obtain ⟨key, row', -, hrow', hlength, -⟩ := hrow k (hlen ▸ (List.getElem?_eq_some_iff.mp hk).1)
    obtain rfl := Option.some.inj (hk.symm.trans hrow')
    exact hlength
  · obtain ⟨key, row, hkey, hget, -, hcols⟩ := hrow k hk
    exact ⟨key, row, hkey, hget, hcols⟩

/-- The gatherer that a search registers, whatever it reads: sixteen data points for each line behind the header. -/
theorem search_shape {name content : List UInt8} {rest : Image} {vars : Vars} {junk : Nat → DataPoint} {dpg : Gatherer}
    (h : devSearch name content rest vars junk = some (some dpg)) :
    dpg.dataPoints.length = 16 * (vars.lineCount - 2) ∧ DevColumns dpg ∧ dpg.priv.lineSize = vars.lineSize ∧
      dpg.priv.lineCount = vars.lineCount := by
  have hne : content ≠ [] := by
    intro hnil
    rw [devSearch, if_pos hnil] at h
    cases h
  simp only [devSearch, if_neg hne, readLines, readLinesLoop_run, Option.bind_eq_bind, Option.bind_eq_some_iff, Option.pure_def,
    Option.some.injEq] at h
  obtain ⟨⟨vars', dict'⟩, hloop, rows, hrows, rfl⟩ := h
  obtain ⟨hsize, hcount⟩ := devSearchLoop_sizes hloop
  rw [Vars.store_lineSize] at hsize
  rw [Vars.store_lineCount] at hcount
  obtain ⟨hlen, hlength, hget⟩ := devPoints_rows hrows
  refine ⟨?_, ?_, hsize, hcount⟩
  · have hconst : rows.map List.length = List.replicate rows.length 16 :=
      List.eq_replicate_iff.mpr ⟨List.length_map .., fun n hn => by
        obtain ⟨row, hrow, rfl⟩ := List.mem_map.mp hn
        exact hlength row hrow⟩
    rw [List.length_flatten, hconst, List.sum_replicate_nat, hlen, hcount, Nat.mul_comm]
  · intro d dp hdp
    simp only at hdp
    rw [show d = 16 * (d / 16) + d % 16 by omega, flatten_getElem? hlength (by omega)] at hdp
    rw [Option.bind_eq_some_iff] at hdp
    obtain ⟨row, hrow, hdp⟩ := hdp
    obtain ⟨key, row', -, hrow', hcols⟩ := hget (d / 16) (hlen ▸ (List.getElem?_eq_some_iff.mp hrow).1)
    obtain rfl := Option.some.inj (hrow.symm.trans hrow')
    obtain ⟨dp', pfx, hdp', hpfx, hcol, -⟩ := hcols (d % 16) (by omega)
    obtain rfl := Option.some.inj (hdp.symm.trans hdp')
    exact ⟨pfx, hpfx, hcol⟩

/-- The gatherer that is registered for a content that fits: its interfaces have their names. -/
theorem search_named (rest : Image) {vars : Vars} (name : List UInt8) (junk : Nat → DataPoint)
    (h : DevFits vars.lineSize header1 header2 lines) (hcount : vars.lineCount ≤ lines.length + 2) :
    ∃ dpg, devSearch name (devContent header1 header2 lines) rest vars junk = some (some dpg) ∧
      DevNamed (lines.take (vars.lineCount - 2)) dpg := by
  have hhas := readFile_has h.content rest
  have hdict := length_le_dict h
  have hlength : (lines.take (vars.lineCount - 2)).length = vars.lineCount - 2 := by
    rw [List.length_take]
    omega
  have hpieces : ((cutLines (readFile (devContent header1 header2 lines) devSize rest) vars.lineSize devSize vars.lineCount 0).map
      lineLen).drop 2 = (lines.take (vars.lineCount - 2)).map (·.text.length) := by
    rw [pieces_content hhas h hcount, List.map_map, ← List.map_drop, List.drop_take, List.drop_succ_cons, List.drop_succ_cons,
      List.drop_zero, ← List.map_take, List.map_map]
    rfl
  have hholds : (vars.store .line 0 (cutLines (readFile (devContent header1 header2 lines) devSize rest) vars.lineSize devSize
      vars.lineCount 0)).HoldsDev 0 (lines.take (vars.lineCount - 2)) := by
    intro k line hl
    have hk := (List.getElem?_eq_some_iff.mp hl).1
    rw [List.getElem?_take_of_lt (by omega)] at hl
    have hbuf := Vars.store_buf vars (fun _ _ h => BufId.line.inj h) (n := 0) (pieces_line hhas h hcount hl (by omega))
    rw [Nat.zero_add] at hbuf ⊢
    rw [hbuf, Vars.store_lineSize]
    exact ⟨Image.has_write _ 0 _, h.texts line (List.mem_of_getElem? hl)⟩
  obtain ⟨vars', dict', hloop, ⟨-, hcount', -⟩, -, hkeys⟩ := devSearchLoop_lines .unset hholds (by omega)
  simp only [Nat.zero_add] at hkeys
  rw [Vars.store_lineCount] at hcount'
  obtain ⟨rows, hrows⟩ : ∃ rows, (List.range (vars'.lineCount - 2)).mapM (devPoints dict' junk) = some rows := by
    refine mapM_isSome_iff.mpr fun k hk => ?_
    rw [List.mem_range, hcount', ← hlength] at hk
    rw [devPoints, (hkeys k _ (List.getElem?_eq_getElem hk)).1]
    exact ⟨_, rfl⟩
  have hsearch : devSearch name (devContent header1 header2 lines) rest vars junk =
      some (some ⟨name, name, rows.flatten, vars'⟩) := by
    simp only [devSearch, if_neg (content_ne header1 header2 lines), readLines, readLinesLoop_run, hpieces, hloop,
      Option.bind_eq_bind, Option.bind_some, hrows, Option.pure_def]
  refine ⟨_, hsearch, ?_, fun k line j hl hj => ?_⟩
  · rw [(search_shape hsearch).1, hlength]
  · obtain ⟨hkey, hcstr⟩ := hkeys k line hl
    obtain ⟨-, hlengths, hget⟩ := devPoints_rows hrows
    obtain ⟨key, row, hkey', hrow, hcols⟩ := hget k (by
      have := (List.getElem?_eq_some_iff.mp hl).1
      omega)
    obtain rfl := Option.some.inj (hkey.symm.trans hkey')
    obtain ⟨dp, pfx, hdp, hpfx, hcol, hname⟩ := hcols j hj
    refine ⟨dp, pfx, ?_, ?_, hpfx, hcol⟩
    · simp only [flatten_getElem? hlengths hj, hrow, Option.bind_some, hdp]
    · simp only [hname, Vars.text, hcstr]

/-! ### Polling -/

section Poll

variable {content : List UInt8} {rest : Image} {vars vars' : Vars} {calls : List (Nat × Ptr)}

/-- The line buffers after the lines were read. -/
theorem store_pieces (j : Nat) (l : Option (List UInt8)) (hl : ((devPieces content rest vars).drop 2)[j]? = some l) :
    ∃ old, (vars.store .line 0 (devPieces content rest vars)).buf (.line (0 + j + 2)) = storeLine old l := by
  rw [List.getElem?_drop, Nat.add_comm] at hl
  have hbuf := Vars.store_buf vars (fun _ _ h => BufId.line.inj h) (n := 0) hl
  rw [Nat.zero_add] at hbuf ⊢
  exact ⟨_, hbuf⟩

/-- A line that was read fits its buffer. -/
theorem fit_pieces (t : List UInt8) (ht : some t ∈ (devPieces content rest vars).drop 2) :
    t.length < (vars.store .line 0 (devPieces content rest vars)).lineSize := by
  rw [Vars.store_lineSize]
  exact length_lt_of_mem (List.mem_of_mem_drop ht)

theorem length_pieces : ((devPieces content rest vars).drop 2).length = vars.lineCount - 2 := by
  rw [List.length_drop, devPieces, cutLines_length]

/-- A poll that is defined gives each data point the counter of its column in the line with the number of its interface. -/
theorem poll_reads (h : devPollCalls content rest vars = some (vars', calls)) :
    (∀ call ∈ calls, call.1 < 16 * (vars.lineCount - 2)) ∧
      ∀ d < 16 * (vars.lineCount - 2), ∃ t c off, (devPieces content rest vars)[d / 16 + 2]? = some (some t) ∧
        (devTexts t)[d % 16]? = some c ∧ callsAt calls d = [⟨.line (d / 16 + 2), off⟩] ∧
        vars'.cstr ⟨.line (d / 16 + 2), off⟩ = c := by
  simp only [devPollCalls, readLines, readLinesLoop_run, ← List.map_drop, Option.bind_eq_bind, Option.bind_eq_some_iff,
    Option.pure_def, Option.some.injEq] at h
  obtain ⟨⟨vars1, dicts⟩, hloop, calls1, hcalls, heq⟩ := h
  obtain ⟨rfl, rfl⟩ := Prod.mk.inj heq
  obtain ⟨hlen, -, hread⟩ := devPollLoop_reads store_pieces fit_pieces hloop
  rw [length_pieces] at hlen
  simp only [devCalls, Option.bind_eq_bind, Option.bind_eq_some_iff, Option.pure_def, Option.some.injEq] at hcalls
  obtain ⟨calls2, hmap, rfl⟩ := hcalls
  obtain ⟨hin, hat⟩ := devCalls_from hmap
  rw [Nat.zero_add, hlen] at hin
  refine ⟨fun call hmem => (hin call hmem).2, fun d hd => ?_⟩
  obtain ⟨l, hl⟩ : ∃ l, ((devPieces content rest vars).drop 2)[d / 16]? = some l :=
    ⟨_, List.getElem?_eq_getElem (by rw [length_pieces]; omega)⟩
  obtain ⟨-, dict, hdict, hset, hunset⟩ := hread (d / 16) l hl
  obtain ⟨p, hp, hcall⟩ := hat (d / 16) dict (d % 16) hdict (by omega)
  rw [Nat.zero_add, show 16 * (d / 16) + d % 16 = d by omega] at hcall
  rw [List.getElem?_drop, Nat.add_comm] at hl
  -- A counter that is not there would not be set.
  have hlt : d % 16 < (pieceTexts l).length := by
    by_contra hge
    rw [hunset (d % 16) (by omega)] at hp
    cases hp
  obtain ⟨off, hval, hcstr⟩ := hset (d % 16) _ (List.getElem?_eq_getElem hlt)
  obtain rfl := Option.some.inj (hp.symm.trans hval)
  simp only [Nat.zero_add] at hcall hcstr
  cases l with
  | none => simp [pieceTexts] at hlt
  | some t => exact ⟨t, _, off, hl, List.getElem?_eq_getElem hlt, hcall, hcstr⟩

/-- Each line that is read for an interface has the counter of a column. -/
def HasCounters (content : List UInt8) (rest : Image) (vars : Vars) : Prop :=
  ∀ d < 16 * (vars.lineCount - 2), ∃ t c, (devPieces content rest vars)[d / 16 + 2]? = some (some t) ∧
    (devTexts t)[d % 16]? = some c

/-- Lines with so many counters leave no room for more of them than there are dictionary entries. -/
theorem lineCount_le (h : HasCounters content rest vars) : vars.lineCount - 2 ≤ dictSize := by
  have hpiece : ∀ k < vars.lineCount - 2, ∃ t, (devPieces content rest vars)[k + 2]? = some (some t) ∧ 16 ≤ t.length := by
    intro k hk
    obtain ⟨t, c, ht, hc⟩ := h (16 * k + 15) (by omega)
    rw [show (16 * k + 15) / 16 = k by omega] at ht
    rw [show (16 * k + 15) % 16 = 15 by omega] at hc
    have hlen := length_devTexts t
    have := (List.getElem?_eq_some_iff.mp hc).1
    exact ⟨t, ht, by omega⟩
  have hstart : ∀ k < vars.lineCount - 2, 17 * k ≤ lineStart (devPieces content rest vars) (k + 2) := by
    intro k
    induction k with
    | zero => exact fun _ => by omega
    | succ k ih =>
      intro hk
      obtain ⟨t, ht, hlen⟩ := hpiece k (by omega)
      rw [show k + 1 + 2 = k + 2 + 1 by omega, lineStart_succ ht, lineLen, Option.getD_some]
      have := ih (by omega)
      omega
  by_contra hgt
  have hdict : dictSize = 2048 := rfl
  have hsize : devSize = 8192 := rfl
  obtain ⟨t, ht, -⟩ := hpiece dictSize (by omega)
  have hle := lineStart_le ht
  have hge := hstart dictSize (by omega)
  rw [Nat.zero_add] at hle
  simp only [devPieces] at hge
  omega

/-- A poll that finds every counter is defined. -/
theorem poll_defined (h : HasCounters content rest vars) :
    ∃ vars' calls, devPollCalls content rest vars = some (vars', calls) := by
  have hbuf : ∀ j l, ((devPieces content rest vars).drop 2)[j]? = some l → ∃ old t, l = some t ∧
      t.length < (vars.store .line 0 (devPieces content rest vars)).lineSize ∧
      (vars.store .line 0 (devPieces content rest vars)).buf (.line (0 + j + 2)) = storeLine old l := by
    intro j l hl
    have hj := (List.getElem?_eq_some_iff.mp hl).1
    rw [length_pieces] at hj
    obtain ⟨old, hold⟩ := store_pieces j l hl
    obtain ⟨t, c, ht, -⟩ := h (16 * j) (by omega)
    rw [show 16 * j / 16 = j by omega] at ht
    have hl' := hl
    rw [List.getElem?_drop, Nat.add_comm, ht] at hl'
    obtain rfl := Option.some.inj hl'
    exact ⟨old, t, rfl, fit_pieces t (List.mem_of_getElem? hl), hold⟩
  obtain ⟨vars', dicts, hloop⟩ := devPollLoop_defined hbuf (by
    rw [length_pieces, Nat.zero_add]
    exact lineCount_le h)
  obtain ⟨hlen, -, hread⟩ := devPollLoop_reads store_pieces fit_pieces hloop
  have hvals : ∀ dict ∈ dicts, ∀ j < 16, (dict.val j).isSome := by
    intro dict hmem j hj
    obtain ⟨k, hk⟩ := List.mem_iff_getElem?.mp hmem
    have hklt := (List.getElem?_eq_some_iff.mp hk).1
    rw [hlen, length_pieces] at hklt
    obtain ⟨t, c, ht, hc⟩ := h (16 * k + j) (by omega)
    rw [show (16 * k + j) / 16 = k by omega] at ht
    rw [show (16 * k + j) % 16 = j by omega] at hc
    obtain ⟨-, dict', hdict', hset, -⟩ := hread k (some t) (by rw [List.getElem?_drop, Nat.add_comm]; exact ht)
    obtain rfl := Option.some.inj (hk.symm.trans hdict')
    obtain ⟨off, hval, -⟩ := hset j c hc
    rw [hval]
    rfl
  obtain ⟨calls, hcalls⟩ := devCalls_isSome hvals
  refine ⟨vars', calls, ?_⟩
  simp only [devPollCalls, readLines, readLinesLoop_run, ← List.map_drop, Option.bind_eq_bind, Option.pure_def]
  rw [show cutLines (readFile content devSize rest) vars.lineSize devSize vars.lineCount 0 =
    devPieces content rest vars from rfl, hloop]
  simp only [Option.bind_some, hcalls]

end Poll

/-- A string from memory ends at its terminator. -/
theorem given_cstr (dp : DataPoint) (vars : Vars) (p : Ptr) : dp.given (some (vars.cstr p)) = storeDp dp (vars.cstr p) := by
  have hself : cText (vars.cstr p) = vars.cstr p := by
    rw [Vars.cstr, Image.cstr]
    exact List.takeWhile_eq_self_iff.mpr fun x hx => List.mem_takeWhile_imp (p := (· != 0)) hx
  rw [DataPoint.given, Option.elim_some, hself]

section Places

variable {names : List (List UInt8)} {content : List UInt8} {rest : Image} {dpg : Gatherer}

/-- The data points after a poll. -/
theorem after_eq {vars' : Vars} {calls : List (Nat × Ptr)} (hne : content ≠ [])
    (hcalls : devPollCalls content rest dpg.priv = some (vars', calls)) :
    devAfter content rest dpg = storeAll vars' calls dpg.dataPoints := by
  simp only [devAfter, devPoll, if_neg hne, hcalls, Option.bind_eq_bind, Option.bind_some, Option.pure_def]
  cases storeAll vars' calls dpg.dataPoints <;> rfl

/-- A poll that is defined, of as many data points as belong to its lines. -/
theorem poll_gives {vars' : Vars} {calls : List (Nat × Ptr)} (hne : content ≠ [])
    (hcalls : devPollCalls content rest dpg.priv = some (vars', calls))
    (hpoints : dpg.dataPoints.length = 16 * (dpg.priv.lineCount - 2)) :
    ∃ points, devAfter content rest dpg = some points ∧ (∀ call ∈ calls, call.2.buf = .line (call.1 / 16 + 2)) ∧
      ∀ (d : Nat) dp, dpg.dataPoints[d]? = some dp → ∃ t c off, (devPieces content rest dpg.priv)[d / 16 + 2]? = some (some t) ∧
        (devTexts t)[d % 16]? = some c ∧ (d, (⟨.line (d / 16 + 2), off⟩ : Ptr)) ∈ calls ∧
        points[d]? = some (dp.given (some c)) := by
  obtain ⟨hin, hat⟩ := poll_reads hcalls
  have hpoint : ∀ call ∈ calls, call.1 < dpg.dataPoints.length := by
    intro call hmem
    rw [hpoints]
    exact hin call hmem
  obtain ⟨points, hstore⟩ := storeAll_isSome vars' hpoint
  refine ⟨points, (after_eq hne hcalls).trans hstore, ?_, ?_⟩
  · intro call hmem
    obtain ⟨t, c, off, -, -, hcall, -⟩ := hat call.1 (hin call hmem)
    have hself : call.2 ∈ callsAt calls call.1 := mem_callsAt.mpr hmem
    rw [hcall, List.mem_singleton] at hself
    rw [hself]
  · intro d dp hdp
    obtain ⟨t, c, off, ht, hc, hcall, hcstr⟩ := hat d (hpoints ▸ (List.getElem?_eq_some_iff.mp hdp).1)
    refine ⟨t, c, off, ht, hc, mem_callsAt.mp (by rw [hcall]; exact List.mem_singleton.mpr rfl), ?_⟩
    rw [storeAll_single hstore hcall, hdp, ← hcstr, given_cstr, Option.map_some]

/-- A poll keeps the counters with their interfaces exactly if those in the lines that it reads are in their places. -/
theorem kept_iff_inPlace (lines : List DevLine) (hne : content ≠ []) (hnames : names.length = dpg.dataPoints.length)
    (hpoints : dpg.dataPoints.length = 16 * (dpg.priv.lineCount - 2)) :
    DevKept names lines content rest dpg ↔ DevInPlace names lines content (devPieces content rest dpg.priv) dpg.dataPoints := by
  constructor
  · intro h
    obtain ⟨vars', calls, points, hcalls, hafter, hinside, hkept⟩ := h
    obtain ⟨points', hafter', -, hgives⟩ := poll_gives hne hcalls hpoints
    obtain rfl := Option.some.inj (hafter.symm.trans hafter')
    intro d name dp hname hdp
    obtain ⟨t, c, off, ht, hc, hmem, hpoint⟩ := hgives d dp hdp
    obtain ⟨v, hhas, hpoint'⟩ := hkept d name dp hname hdp
    obtain ⟨b, hb, hread⟩ := hinside _ hmem
    obtain rfl := BufId.line.inj hb
    exact ⟨t, c, v, ht, hread, hc, hhas, Option.some.inj (hpoint.symm.trans hpoint')⟩
  · intro h
    have hplace : ∀ d < 16 * (dpg.priv.lineCount - 2), ∃ t c, (devPieces content rest dpg.priv)[d / 16 + 2]? = some (some t) ∧
        ReadInside content (devPieces content rest dpg.priv) (d / 16 + 2) ∧ (devTexts t)[d % 16]? = some c := by
      intro d hd
      obtain ⟨t, c, v, ht, hread, hc, -⟩ := h d _ _ (List.getElem?_eq_getElem (by omega)) (List.getElem?_eq_getElem (by omega))
      exact ⟨t, c, ht, hread, hc⟩
    have hcounters : HasCounters content rest dpg.priv := by
      intro d hd
      obtain ⟨t, c, ht, -, hc⟩ := hplace d hd
      exact ⟨t, c, ht, hc⟩
    obtain ⟨vars', calls, hcalls⟩ := poll_defined hcounters
    obtain ⟨points, hafter, hbuf, hgives⟩ := poll_gives hne hcalls hpoints
    refine ⟨vars', calls, points, hcalls, hafter, fun call hmem => ?_, fun d name dp hname hdp => ?_⟩
    · obtain ⟨t, c, -, hread, -⟩ := hplace call.1 ((poll_reads hcalls).1 call hmem)
      exact ⟨_, hbuf call hmem, hread⟩
    · obtain ⟨t, c, v, ht, -, hc, hhas, halike⟩ := h d name dp hname hdp
      obtain ⟨t', c', off, ht', hc', -, hpoint⟩ := hgives d dp hdp
      obtain rfl := Option.some.inj (Option.some.inj (ht.symm.trans ht'))
      obtain rfl := Option.some.inj (hc.symm.trans hc')
      exact ⟨v, hhas, halike ▸ hpoint⟩

/-- A poll keeps how many data points and lines there are. -/
theorem poll_sizes {dpg' : Gatherer} (h : devPoll content rest dpg = some (some dpg')) :
    dpg'.dataPoints.length = dpg.dataPoints.length ∧ dpg'.priv.lineSize = dpg.priv.lineSize ∧
      dpg'.priv.lineCount = dpg.priv.lineCount := by
  have hne : content ≠ [] := by
    intro hnil
    rw [devPoll, if_pos hnil] at h
    cases h
  simp only [devPoll, if_neg hne, devPollCalls, readLines, readLinesLoop_run, Option.bind_eq_bind, Option.bind_eq_some_iff,
    Option.pure_def, Option.some.injEq] at h
  obtain ⟨⟨vars', calls⟩, ⟨⟨vars1, dicts⟩, hloop, calls1, -, heq⟩, points, hstore, rfl⟩ := h
  obtain ⟨rfl, rfl⟩ := Prod.mk.inj heq
  have hvars := devPollLoop_vars _ (i := 0) List.drop_zero hloop
  refine ⟨(storeAll_eq hstore).2.1, ?_, ?_⟩
  · simp only [hvars, Vars.rewrite_lineSize, Vars.store_lineSize]
  · simp only [hvars, Vars.rewrite_lineCount, Vars.store_lineCount]

/-- Polls leave the number of data points and the sizes. -/
theorem after_sizes {registered : Gatherer} (h : AfterPolls devPoll registered dpg) :
    dpg.dataPoints.length = registered.dataPoints.length ∧ dpg.priv.lineSize = registered.priv.lineSize ∧
      dpg.priv.lineCount = registered.priv.lineCount := by
  refine h.keeps (P := fun dpg => dpg.dataPoints.length = registered.dataPoints.length ∧
    dpg.priv.lineSize = registered.priv.lineSize ∧ dpg.priv.lineCount = registered.priv.lineCount) ⟨rfl, rfl, rfl⟩ ?_
  rintro content rest dpg dpg' ⟨hlen, hsize, hcount⟩ hpoll
  obtain ⟨hlen', hsize', hcount'⟩ := poll_sizes hpoll
  exact ⟨hlen'.trans hlen, hsize'.trans hsize, hcount'.trans hcount⟩

end Places

end DevAux

open DevAux in
/-- For every content at the start, any polls that are defined, and every content of a later poll, whatever the buffers hold
behind them: the data points are registered for the interfaces, if the content fits, and for their columns; and the poll keeps the
counters with their interfaces exactly when those in the lines that it reads are in their places. -/
theorem dev_poll_kept_iff (name header1 header2 header1' header2' : List UInt8) (lines lines' : List DevLine) (rest rest' : Image)
    (vars : Vars) (junk : Nat → DataPoint) (hcount : vars.lineCount = getFileLineAmount (devContent header1 header2 lines)) :
    (DevFits vars.lineSize header1 header2 lines → ∃ registered,
      devSearch name (devContent header1 header2 lines) rest vars junk = some (some registered) ∧
      DevNamed (lines.take (vars.lineCount - 2)) registered) ∧
    ∀ registered, devSearch name (devContent header1 header2 lines) rest vars junk = some (some registered) →
      DevColumns registered ∧ ∀ dpg, AfterPolls devPoll registered dpg →
        (DevKept (registeredNames registered) lines' (devContent header1' header2' lines') rest' dpg ↔
          DevInPlace (registeredNames registered) lines' (devContent header1' header2' lines')
            (devPieces (devContent header1' header2' lines') rest' vars) dpg.dataPoints) := by
  refine ⟨fun hfit => search_named rest name junk hfit ?_, fun registered hsearch => ?_⟩
  · rw [hcount, ← count_content hfit.first.1 hfit.second.1]
    exact getFileLineAmount_le _
  · obtain ⟨hpoints, hcolumns, hsize, hlines⟩ := search_shape hsearch
    refine ⟨hcolumns, fun dpg hpolls => ?_⟩
    obtain ⟨hlen, hsize', hlines'⟩ := after_sizes hpolls
    have hpieces : devPieces (devContent header1' header2' lines') rest' vars =
        devPieces (devContent header1' header2' lines') rest' dpg.priv := by
      rw [devPieces, devPieces, hsize', hlines', hsize, hlines]
    rw [hpieces]
    refine kept_iff_inPlace lines' (content_ne header1' header2' lines') ?_ ?_
    · rw [registeredNames, List.length_map, hlen]
    · rw [hlen, hpoints, hlines', hlines]

open DevAux in
/-- The counters are in their places while each interface has its line at the number at which it was registered, among lines that
fit; what comes behind these lines does not matter. -/
theorem inPlace_of_names {names : List (List UInt8)} {header1 header2 : List UInt8} {lines : List DevLine}
    (rest : Image) {vars : Vars} (points : List DataPoint)
    (hfit : DevFits vars.lineSize header1 header2 (lines.take (vars.lineCount - 2)))
    (hnames : ∀ (d : Nat) name, names[d]? = some name →
      d / 16 < vars.lineCount - 2 ∧ ∃ line, lines[d / 16]? = some line ∧ line.name ++ [58] = name)
    (hcount : vars.lineCount ≤ lines.length + 2) :
    DevInPlace names lines (devContent header1 header2 lines)
      (devPieces (devContent header1 header2 lines) rest vars) points := by
  have hhas := readFile_has_take rest hfit.content
  have hcount' : vars.lineCount ≤ (lines.take (vars.lineCount - 2)).length + 2 := by
    rw [List.length_take]
    omega
  intro d name dp hname _
  obtain ⟨hd, line, hl, hline⟩ := hnames d name hname
  have hpiece := pieces_line hhas hfit hcount' (by rw [List.getElem?_take_of_lt hd]; exact hl) hd
  obtain ⟨x, hx⟩ : ∃ x, line.counters[d % 16]? = some x := ⟨_, List.getElem?_eq_getElem (by rw [line.counters_length]; omega)⟩
  refine ⟨line.text, x.2, some x.2, hpiece, ?_, by rw [line.devTexts_text, List.getElem?_map, hx, Option.map_some],
    ⟨line, List.mem_of_getElem? hl, hline, by rw [hx, Option.map_some]⟩, rfl⟩
  have hstart : lineStart (devPieces (devContent header1 header2 lines) rest vars) (d / 16 + 2 + 1) ≤
      (devContent header1 header2 lines).length := by
    refine Nat.le_trans ?_ (content_take_front header1 header2 lines (vars.lineCount - 2)).length_le
    rw [devPieces, pieces_content hhas hfit hcount', content_ended]
    exact lineStart_le_length _ _ _
  rw [devPieces, lineStart_succ hpiece] at hstart
  rw [ReadInside, List.getD_eq_getElem?_getD, devPieces, hpiece, Option.getD_some]
  omega

/-- A line `l: 2 .. 2`. -/
def loLine : DevLine :=
  ⟨[], [108], List.replicate 16 ([32], [50]), by decide +kernel, by decide +kernel, by decide +kernel, by decide +kernel,
    by decide +kernel, by decide +kernel⟩

/-- A line `e: 1 .. 1`. -/
def ethLine : DevLine :=
  ⟨[], [101], List.replicate 16 ([32], [49]), by decide +kernel, by decide +kernel, by decide +kernel, by decide +kernel,
    by decide +kernel, by decide +kernel⟩

/-- A line `l: 7 .. 7`. -/
def busyLine : DevLine :=
  ⟨[], [108], List.replicate 16 ([32], [55]), by decide +kernel, by decide +kernel, by decide +kernel, by decide +kernel,
    by decide +kernel, by decide +kernel⟩

/-- The gatherer that is registered for two interfaces. -/
def twoInterfaces : Option Gatherer :=
  (devSearch [100] (devContent [104] [104] [loLine, ethLine]) Image.zero (.cleared 2048 4) fun _ => .blank).bind id

/-- The rule for two interfaces that stay where they are, after a poll at which one of them had other counters. -/
theorem dev_poll_kept_two :
    ∃ registered dpg, devSearch [100] (devContent [104] [104] [loLine, ethLine]) Image.zero (.cleared 2048 4) (fun _ => .blank) =
        some (some registered) ∧ AfterPolls devPoll registered dpg ∧
      (dpg.dataPoints.map fun dp => DataUnion.dUlong dp.data) = List.replicate 16 7 ++ List.replicate 16 1 ∧
      DevColumns registered ∧
      (DevKept (registeredNames registered) [loLine, ethLine] (devContent [104] [104] [loLine, ethLine]) Image.zero dpg ↔
        DevInPlace (registeredNames registered) [loLine, ethLine] (devContent [104] [104] [loLine, ethLine])
          (devPieces (devContent [104] [104] [loLine, ethLine]) Image.zero (.cleared 2048 4)) dpg.dataPoints) := by
  have hker : (twoInterfaces.bind fun registered =>
      ((devPoll (devContent [104] [104] [busyLine, ethLine]) Image.zero registered).bind id).map fun dpg =>
        dpg.dataPoints.map fun dp => DataUnion.dUlong dp.data) =
          some (List.replicate 16 7 ++ List.replicate 16 1) := by decide +kernel
  rw [Option.bind_eq_some_iff] at hker
  obtain ⟨registered, hregistered, hker⟩ := hker
  rw [Option.map_eq_some_iff] at hker
  obtain ⟨dpg, hdpg, hdata⟩ := hker
  rw [Option.bind_eq_some_iff] at hdpg
  obtain ⟨r, hr, rfl⟩ := hdpg
  rw [twoInterfaces, Option.bind_eq_some_iff] at hregistered
  obtain ⟨r', hsearch, rfl⟩ := hregistered
  have hpolls : AfterPolls devPoll registered dpg := .poll _ Image.zero .registered hr
  obtain ⟨hcolumns, hkept⟩ :=
    (dev_poll_kept_iff [100] [104] [104] [104] [104] [loLine, ethLine] [loLine, ethLine] Image.zero Image.zero (.cleared 2048 4)
      (fun _ => .blank) (by decide +kernel)).2 registered hsearch
  exact ⟨registered, dpg, hsearch, hpolls, hdata, hcolumns, hkept dpg hpolls⟩

/-- The two interfaces have changed places: the counters of `e` are stored for `l`. -/
theorem dev_poll_swapped :
    ∃ dpg, devSearch [100] (devContent [104] [104] [loLine, ethLine]) Image.zero (.cleared 2048 4) (fun _ => .blank) =
      some (some dpg) ∧ (registeredNames dpg)[0]? = some [108, 58] ∧
      ¬DevKept (registeredNames dpg) [ethLine, loLine] (devContent [104] [104] [ethLine, loLine]) Image.zero dpg := by
  have hker : (twoInterfaces.bind fun dpg => (dpg.dataPoints[0]?).bind fun dp =>
      (devAfter (devContent [104] [104] [ethLine, loLine]) Image.zero dpg).map fun points => ((registeredNames dpg)[0]?,
        DataUnion.dUlong (dp.given (some [50])).data, (points[0]?).map fun dp => DataUnion.dUlong dp.data)) =
      some (some [108, 58], 2, some 1) := by decide +kernel
  simp only [Option.bind_eq_some_iff, Option.map_eq_some_iff, Prod.mk.injEq] at hker
  obtain ⟨dpg, hdpg, dp, hdp, points, hafter, hname, htwo, dp', hdp', hone⟩ := hker
  rw [twoInterfaces, Option.bind_eq_some_iff] at hdpg
  obtain ⟨r, hr, rfl⟩ := hdpg
  refine ⟨dpg, hr, hname, ?_⟩
  intro hkept
  obtain ⟨vars', calls, points', -, hafter', -, hkept⟩ := hkept
  obtain rfl := Option.some.inj (hafter.symm.trans hafter')
  obtain ⟨v, hhas, hpoint⟩ := hkept 0 [108, 58] dp hname hdp
  -- The file has one line for the name.
  cases v with
  | none => exact hhas loLine (by simp) rfl
  | some v =>
    obtain ⟨line, hline, hname, hv⟩ := hhas
    have hcounter : (line.counters[0]?).map Prod.snd = some [50] := by
      rcases List.mem_cons.mp hline with rfl | hline
      · exact absurd hname (by decide)
      · rw [List.mem_singleton.mp hline]
        rfl
    obtain rfl := Option.some.inj (hv.symm.trans hcounter)
    rw [hdp', Option.some.injEq] at hpoint
    rw [hpoint, htwo] at hone
    exact absurd hone (by decide)

end Pixel845.Datatop
