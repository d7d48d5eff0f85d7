import Pixel845.Lemmas.DatatopNames
import Mathlib.Data.List.GetD

/-!
# Helpers: sections of dual-line files

What `dtop_dual_line_search` and its poll make of the lines they read: the dictionary of a section points to the columns of its
two lines, that of its prefixes to the start of the second copy of the header (`dualParse_eq`), and behind each pointer stands the
column (`dualParse_cstr`).
-/

namespace Pixel845.Datatop

/-! ## Columns -/

/-- What stands behind each space of a line, up to the next one: its offset and its text. -/
def columnsAt : Nat → List UInt8 → List (Nat × List UInt8)
  | _, [] => []
  | i, c :: cs => if c = 32 then (i + 1, cText (cs.takeWhile (· != 32))) :: columnsAt (i + 1) cs else columnsAt (i + 1) cs

/-- The columns that a dictionary has entries for. -/
def cols (line : List UInt8) : List (Nat × List UInt8) := (columnsAt 0 line).take dictSize

/-- The prefix of a header: what stands before its first space or colon. -/
def headerPrefix (line : List UInt8) : List UInt8 := cText (line.takeWhile fun c => !(c == 32 || c == 58))

/-- A line has no more columns than bytes. -/
theorem columnsAt_length_le (i : Nat) (line : List UInt8) : (columnsAt i line).length ≤ line.length := by
  induction line generalizing i with
  | nil => exact Nat.le_refl 0
  | cons c cs ih =>
    rw [columnsAt]
    have := ih (i + 1)
    split
    · simp only [List.length_cons]
      omega
    · simp only [List.length_cons]
      omega

/-- The spaces of a line that stands in memory. -/
theorem positions_columnsAt {m : Image} {i : Nat} {line : List UInt8} (hm : m.Has i line) :
    (positions (· == 32) m line.length i).map (· + 1) = (columnsAt i line).map Prod.fst := by
  induction line generalizing i with
  | nil => rfl
  | cons c cs ih =>
    obtain ⟨hc, hcs⟩ := Image.has_cons.mp hm
    rw [List.length_cons, positions, columnsAt, hc]
    by_cases h : c = 32
    · simp [h, ih hcs]
    · simp [h, ih hcs]

/-- The spaces that are cut, each by what stands behind it. -/
theorem spaces_cols {m : Image} {line : List UInt8} (hm : m.Has 0 line) :
    (spaces m line.length).map (· + 1) = (cols line).map Prod.fst := by
  rw [spaces, cols, List.map_take, List.map_take, positions_columnsAt hm]

/-- The positions of separators in a stretch. -/
theorem mem_positions_iff {sep : UInt8 → Bool} {m : Image} {n i e : Nat} :
    e ∈ positions sep m n i ↔ i ≤ e ∧ e < i + n ∧ sep (m e) := by
  induction n generalizing i with
  | zero =>
    simp only [positions, List.not_mem_nil, false_iff]
    omega
  | succ n ih =>
    rw [positions]
    by_cases hsep : sep (m i)
    · rw [if_pos hsep, List.mem_cons, ih]
      constructor
      · rintro (rfl | h)
        · exact ⟨Nat.le_refl _, by omega, hsep⟩
        · exact ⟨by omega, by omega, h.2.2⟩
      · rintro ⟨hle, hlt, he⟩
        by_cases heq : e = i
        · exact .inl heq
        · exact .inr ⟨by omega, by omega, he⟩
    · rw [if_neg hsep, ih]
      constructor
      · rintro ⟨hle, hlt, he⟩
        exact ⟨by omega, by omega, he⟩
      · rintro ⟨hle, hlt, he⟩
        have hne : e ≠ i := fun heq => hsep (heq ▸ he)
        exact ⟨by omega, by omega, he⟩

/-! ## Texts of a line that was cut -/

/-- The string up to the first separator, if all separators from there on are cut. -/
theorem terminate_cstr (sep : UInt8 → Bool) {m : Image} {ps : List Nat} {i : Nat} (size : Nat) {s : List UInt8}
    (hm : m.Has i (s ++ [0])) (hps : ∀ p, i ≤ p → p < i + s.length → (p ∈ ps ↔ sep (m p))) (hsize : i + s.length < size) :
    (terminate m ps).cstr size i = cText (s.takeWhile (!sep ·)) := by
  obtain ⟨hs, hzero⟩ := Image.has_append.mp hm
  have hzero := (Image.has_cons.mp hzero).1
  have hlen := (List.takeWhile_prefix (p := (!sep ·)) (l := s)).length_le
  have hw : m.Has i (s.takeWhile (!sep ·)) := by
    have happend := List.takeWhile_append_dropWhile (p := (!sep ·)) (l := s)
    rw [← happend] at hs
    exact (Image.has_append.mp hs).1
  have hno : ∀ q ∈ ps, q < i ∨ i + (s.takeWhile (!sep ·)).length ≤ q := by
    intro q hq
    by_contra hin
    have hlt : q - i < (s.takeWhile (!sep ·)).length := by omega
    have hget := hw.getElem hlt
    rw [show i + (q - i) = q by omega] at hget
    have hsep := (hps q (by omega) (by omega)).mp hq
    have hmem := List.mem_takeWhile_imp (List.getElem_mem hlt)
    rw [← hget, hsep] at hmem
    cases hmem
  have hend : i + (s.takeWhile (!sep ·)).length ∈ ps ∨ m (i + (s.takeWhile (!sep ·)).length) = 0 := by
    have happend := List.takeWhile_append_dropWhile (p := (!sep ·)) (l := s)
    cases hdrop : s.dropWhile (!sep ·) with
    | nil =>
      rw [hdrop, List.append_nil] at happend
      exact .inr (by rw [happend]; exact hzero)
    | cons x r =>
      have hx := List.head_dropWhile_not (!sep ·) (by rw [hdrop]; exact List.cons_ne_nil x r)
      simp only [hdrop, List.head_cons, Bool.not_eq_false'] at hx
      rw [hdrop] at happend
      have hlt : (s.takeWhile (!sep ·)).length < s.length := by
        have := congrArg List.length happend
        simp only [List.length_append, List.length_cons] at this
        omega
      refine .inl ((hps _ (by omega) (by omega)).mpr ?_)
      rw [← happend, Image.has_append, Image.has_cons] at hs
      rwa [hs.2.1]
  rw [(terminate_has hw hno hend).cstr_eq (by omega)]
  rfl

/-- The columns of a line whose spaces are all cut. -/
theorem columnsAt_cstr {m : Image} {ps : List Nat} {i size : Nat} {s : List UInt8} (hm : m.Has i (s ++ [0]))
    (hps : ∀ p, i ≤ p → p < i + s.length → (p ∈ ps ↔ m p = 32)) (hsize : i + s.length < size) :
    ∀ c ∈ columnsAt i s, (terminate m ps).cstr size c.1 = c.2 := by
  induction s generalizing i with
  | nil => simp [columnsAt]
  | cons x s ih =>
    rw [List.cons_append, Image.has_cons] at hm
    simp only [List.length_cons] at hps hsize
    have htail := ih hm.2 (fun p hp hp' => hps p (by omega) (by omega)) (by omega)
    intro c hc
    rw [columnsAt] at hc
    split at hc
    · rcases List.mem_cons.mp hc with rfl | hc
      · have hcstr := terminate_cstr (· == 32) size hm.2 (fun p hp hp' => by
          rw [hps p (by omega) (by omega), beq_iff_eq]) (by omega)
        exact hcstr
      · exact htail c hc
    · exact htail c hc

/-! ## Sections -/

/-- The lines that search and poll read, an empty one where none is. -/
def dualLines (content : List UInt8) (rest : Image) (vars : Vars) : List (List UInt8) :=
  (cutLines (readFile content dualSize rest) vars.lineSize dualSize vars.lineCount 0).map (·.getD [])

/-- The dictionary of a section. -/
def sectionDict (lines : List (List UInt8)) (j : Nat) : Dict :=
  let header := lines.getD (2 * j) []
  let values := lines.getD (2 * j + 1) []
  if header = [] ∨ values = [] then .unset
  else
    { max := some (min (cols header).length (cols values).length)
      key := fun i => ((cols header)[i]?).map fun c => ⟨.line (2 * j), c.1⟩
      val := fun i => ((cols values)[i]?).map fun c => ⟨.line (2 * j + 1), c.1⟩ }

/-- The dictionary of the prefixes of a section. -/
def sectionPrefixDict (lines : List (List UInt8)) (j : Nat) : Dict :=
  let header := lines.getD (2 * j) []
  if header = [] then .unset
  else
    { max := none
      key := fun i => ((cols header)[i]?).map fun c => ⟨.line2 (2 * j), c.1⟩
      val := fun i => ((cols header)[i]?).map fun _ => ⟨.line2 (2 * j), 0⟩ }

/-- The buffers of an array hold the lines that have content. -/
def Vars.HoldsLines (vars : Vars) (arr : Nat → BufId) (lines : List (List UInt8)) : Prop :=
  ∀ (n : Nat) line, lines[n]? = some line → line ≠ [] → (vars.buf (arr n)).Has 0 (line ++ [0])

/-- The buffer of a line with content holds it. -/
theorem Vars.HoldsLines.getD {vars : Vars} {arr : Nat → BufId} {lines : List (List UInt8)}
    (h : vars.HoldsLines arr lines) {n : Nat} (hne : lines.getD n [] ≠ []) :
    (vars.buf (arr n)).Has 0 (lines.getD n [] ++ [0]) := by
  rw [List.getD_eq_getElem?_getD] at hne ⊢
  cases hl : lines[n]? with
  | none => exact absurd (by rw [hl]; rfl) hne
  | some line =>
    rw [hl, Option.getD_some] at hne
    exact h n line hl hne

/-- Entries that are set in an empty dictionary. -/
theorem setFrom_none_map {β : Type} (g : β → Ptr) (xs : List β) :
    setFrom (fun _ => none) 0 (xs.map g) = fun i => (xs[i]?).map g := by
  funext i
  rw [setFrom, if_pos (Nat.zero_le i), Option.or_none, Nat.sub_zero, List.getElem?_map]

/-- Pointers behind the spaces of a line point to its columns. -/
theorem behind_cols {m : Image} {line : List UInt8} (hm : m.Has 0 (line ++ [0])) (id : BufId) :
    behind id (spaces m line.length) = (cols line).map fun c => ⟨id, c.1⟩ := by
  have hspaces := spaces_cols (Image.has_append.mp hm).1
  have hmap := congrArg (List.map fun off => (⟨id, off⟩ : Ptr)) hspaces
  rw [List.map_map, List.map_map] at hmap
  exact hmap

/-- The length of a line, or zero. -/
theorem map_length_getD (lines : List (List UInt8)) (n : Nat) : (lines.map List.length).getD n 0 = (lines.getD n []).length :=
  List.getD_map lines [] List.length

/-- The dictionary that is parsed from the buffers of a section. -/
theorem parse_section {vars : Vars} {lines : List (List UInt8)} (h : vars.HoldsLines .line lines) (j : Nat) :
    (parseProcDictionary (vars.buf (.line (2 * j))) (.line (2 * j)) ((lines.map List.length).getD (2 * j) 0)
      (vars.buf (.line (2 * j + 1))) (.line (2 * j + 1)) ((lines.map List.length).getD (2 * j + 1) 0) .unset).2.2 =
      sectionDict lines j := by
  rw [map_length_getD, map_length_getD, parseProcDictionary, sectionDict]
  by_cases hempty : lines.getD (2 * j) [] = [] ∨ lines.getD (2 * j + 1) [] = []
  · rw [if_pos hempty, if_pos]
    rcases hempty with h | h
    · exact .inl (by rw [h]; decide)
    · exact .inr (by rw [h]; decide)
  · rw [if_neg hempty, if_neg]
    · obtain ⟨hheader, hvalues⟩ := not_or.mp hempty
      have hk := behind_cols (h.getD hheader) (.line (2 * j))
      have hv := behind_cols (h.getD hvalues) (.line (2 * j + 1))
      have hklen := congrArg List.length hk
      have hvlen := congrArg List.length hv
      simp only [behind, List.length_map] at hklen hvlen
      simp only [hk, hv, hklen, hvlen, Dict.unset, setFrom_none_map]
    · obtain ⟨hheader, hvalues⟩ := not_or.mp hempty
      have h1 := List.length_pos_iff.mpr hheader
      have h2 := List.length_pos_iff.mpr hvalues
      omega

/-- The dictionary of prefixes that is parsed from the second copy of a header. -/
theorem parse_sectionPrefix {vars : Vars} {lines : List (List UInt8)} (h : vars.HoldsLines .line2 lines) (j : Nat) :
    (parseForPrefix (vars.buf (.line2 (2 * j))) (.line2 (2 * j)) ((lines.map List.length).getD (2 * j) 0) .unset).2 =
      sectionPrefixDict lines j := by
  rw [map_length_getD, parseForPrefix, sectionPrefixDict]
  by_cases hempty : lines.getD (2 * j) [] = []
  · rw [if_pos hempty, if_pos (by rw [hempty]; decide)]
  · have hpos := List.length_pos_iff.mpr hempty
    rw [if_neg hempty, if_neg (by omega)]
    have hk := behind_cols (h.getD hempty) (.line2 (2 * j))
    have hlen : (spaces (vars.buf (.line2 (2 * j))) (lines.getD (2 * j) []).length).length =
        (cols (lines.getD (2 * j) [])).length := by
      have := congrArg List.length hk
      simpa [behind] using this
    simp only [hk, Dict.unset, setFrom_none_map]
    congr 1
    · funext i
      by_cases hi : i < (cols (lines.getD (2 * j) [])).length
      · rw [List.getElem?_eq_getElem hi, List.getElem?_eq_getElem (by omega)]
        rfl
      · rw [List.getElem?_eq_none (by omega), List.getElem?_eq_none (by omega)]
        rfl

/-- The dictionaries are those of the pairs of lines. -/
theorem dualDicts_snd (lens : List Nat) (k i : Nat) (vars : Vars) :
    (dualDicts lens k i vars).2 = (List.range k).map fun j =>
      (parseProcDictionary (vars.buf (.line (2 * (i + j)))) (.line (2 * (i + j))) (lens.getD (2 * (i + j)) 0)
        (vars.buf (.line (2 * (i + j) + 1))) (.line (2 * (i + j) + 1)) (lens.getD (2 * (i + j) + 1) 0) .unset).2.2 := by
  induction k generalizing i vars with
  | zero => rfl
  | succ k ih =>
    rw [dualDicts, List.range_succ_eq_map, List.map_cons, List.map_map]
    simp only [ih]
    congr 1
    refine List.map_congr_left ?_
    intro j _
    have h1 : BufId.line (2 * (i + (j + 1))) ≠ .line (2 * i + 1) := fun h => by have := BufId.line.inj h; omega
    have h2 : BufId.line (2 * (i + (j + 1))) ≠ .line (2 * i) := fun h => by have := BufId.line.inj h; omega
    have h3 : BufId.line (2 * (i + (j + 1)) + 1) ≠ .line (2 * i + 1) := fun h => by have := BufId.line.inj h; omega
    have h4 : BufId.line (2 * (i + (j + 1)) + 1) ≠ .line (2 * i) := fun h => by have := BufId.line.inj h; omega
    have hnext : i + 1 + j = i + (j + 1) := by omega
    simp only [Function.comp, Vars.setBuf_buf, hnext, Nat.succ_eq_add_one, Function.update_of_ne h1, Function.update_of_ne h2,
      Function.update_of_ne h3, Function.update_of_ne h4]

/-- The dictionaries of prefixes are those of the header lines. -/
theorem dualPrefixes_snd (lens2 : List Nat) (k i : Nat) (vars : Vars) :
    (dualPrefixes lens2 k i vars).2 = (List.range k).map fun j =>
      (parseForPrefix (vars.buf (.line2 (2 * (i + j)))) (.line2 (2 * (i + j))) (lens2.getD (2 * (i + j)) 0) .unset).2 := by
  induction k generalizing i vars with
  | zero => rfl
  | succ k ih =>
    rw [dualPrefixes, List.range_succ_eq_map, List.map_cons, List.map_map]
    simp only [ih]
    congr 1
    refine List.map_congr_left ?_
    intro j _
    have h1 : BufId.line2 (2 * (i + (j + 1))) ≠ .line2 (2 * i) := fun h => by have := BufId.line2.inj h; omega
    have hnext : i + 1 + j = i + (j + 1) := by omega
    simp only [Function.comp, Vars.setBuf_buf, hnext, Nat.succ_eq_add_one, Function.update_of_ne h1]

/-! ## Search and poll -/

/-- An array that lines were read into holds them. -/
theorem holdsLines_store {arr : Nat → BufId} (harr : Function.Injective arr) (vars : Vars) (ls : List (Option (List UInt8))) :
    (vars.store arr 0 ls).HoldsLines arr (ls.map (·.getD [])) := by
  intro n line hl hne
  rw [List.getElem?_map, Option.map_eq_some_iff] at hl
  obtain ⟨l, hl, rfl⟩ := hl
  rw [Vars.store_buf_join harr, hl]
  cases l with
  | none => exact absurd rfl hne
  | some line => exact Image.has_write ..

/-- The line buffers after both copies were read. -/
def dualStored (content : List UInt8) (rest : Image) (vars : Vars) : Vars :=
  let lines := cutLines (readFile content dualSize rest) vars.lineSize dualSize vars.lineCount 0
  (vars.store .line 0 lines).store .line2 0 lines

/-- The line buffers after the sections were parsed. -/
def dualParsed (content : List UInt8) (rest : Image) (vars : Vars) : Vars :=
  let lens := (dualLines content rest vars).map List.length
  ((dualStored content rest vars).rewrite .line (dualCut lens) (2 * (vars.lineCount / 2)) 0).rewrite (fun k => .line2 (2 * k))
    (prefixCut lens) (vars.lineCount / 2) 0

@[simp] theorem dualParsed_lineSize (content : List UInt8) (rest : Image) (vars : Vars) :
    (dualParsed content rest vars).lineSize = vars.lineSize := by
  rw [dualParsed, Vars.rewrite_lineSize, Vars.rewrite_lineSize, dualStored, Vars.store_lineSize, Vars.store_lineSize]

@[simp] theorem dualParsed_lineCount (content : List UInt8) (rest : Image) (vars : Vars) :
    (dualParsed content rest vars).lineCount = vars.lineCount := by
  rw [dualParsed, Vars.rewrite_lineCount, Vars.rewrite_lineCount, dualStored, Vars.store_lineCount, Vars.store_lineCount]

/-- Both arrays of buffers hold the lines. -/
theorem dualStored_holds (content : List UInt8) (rest : Image) (vars : Vars) :
    (dualStored content rest vars).HoldsLines .line (dualLines content rest vars) ∧
      (dualStored content rest vars).HoldsLines .line2 (dualLines content rest vars) := by
  constructor
  · intro n line hl hne
    have hbuf := holdsLines_store line_injective vars _ n line hl hne
    rwa [dualStored, Vars.store_buf_of_ne fun _ _ _ h => by cases h]
  · exact holdsLines_store line2_injective _ _

/-- What both the search and the poll make of a content. -/
theorem dualParse_eq (content : List UInt8) (rest : Image) (vars : Vars) :
    dualParse content rest vars = (dualParsed content rest vars, (List.range (vars.lineCount / 2)).map fun j =>
      (sectionDict (dualLines content rest vars) j, sectionPrefixDict (dualLines content rest vars) j)) := by
  have hlens : (cutLines (readFile content dualSize rest) vars.lineSize dualSize vars.lineCount 0).map lineLen =
      (dualLines content rest vars).map List.length := by
    rw [dualLines, List.map_map]
    rfl
  have hread : dualRead content rest vars = (dualStored content rest vars, (dualLines content rest vars).map List.length,
      (dualLines content rest vars).map List.length) := by
    simp only [dualRead, readLines, readLinesLoop_run, Vars.store_lineSize, Vars.store_lineCount, hlens]
    rfl
  obtain ⟨hline, hline2⟩ := dualStored_holds content rest vars
  have hcount : (dualStored content rest vars).lineCount = vars.lineCount := by
    rw [dualStored, Vars.store_lineCount, Vars.store_lineCount]
  have hbuf : ∀ (lens : List Nat) k n, ((dualStored content rest vars).rewrite .line (dualCut lens) k 0).buf (.line2 n) =
      (dualStored content rest vars).buf (.line2 n) := fun lens k n => Vars.rewrite_buf_of_ne fun _ _ _ h => by cases h
  simp only [dualParse, hread, dualDicts_vars, dualDicts_snd, dualPrefixes_vars, dualPrefixes_snd, Vars.rewrite_lineCount, hcount,
    Nat.mul_zero, Nat.zero_add, hbuf, parse_section hline, parse_sectionPrefix hline2, Prod.mk.injEq]
  refine ⟨rfl, ?_⟩
  rw [List.zip_map']

/-! ## Texts after a parse -/

/-- The lines read leave room for their terminators. -/
theorem dualLines_length {content : List UInt8} {rest : Image} {vars : Vars} {n : Nat}
    (hne : (dualLines content rest vars).getD n [] ≠ []) : ((dualLines content rest vars).getD n []).length < vars.lineSize := by
  rw [dualLines, List.getD_eq_getElem?_getD, List.getElem?_map] at hne ⊢
  cases hl : (cutLines (readFile content dualSize rest) vars.lineSize dualSize vars.lineCount 0)[n]? with
  | none => exact absurd (by rw [hl]; rfl) hne
  | some l =>
    cases l with
    | none => exact absurd (by rw [hl]; rfl) hne
    | some line => exact length_lt_of_mem (List.mem_of_getElem? hl)

/-- All spaces of a line are cut that has no more bytes than a dictionary has entries. -/
theorem mem_spaces_iff {m : Image} {len p : Nat} (hlen : len ≤ dictSize) : p ∈ spaces m len ↔ p < len ∧ m p = 32 := by
  have hle : (positions (· == 32) m len 0).length ≤ len := by
    have hind : ∀ n i, (positions (· == 32) m n i).length ≤ n := by
      intro n
      induction n with
      | zero => simp [positions]
      | succ n ih =>
        intro i
        have := ih (i + 1)
        rw [positions]
        split
        · simp only [List.length_cons]
          omega
        · omega
    exact hind len 0
  rw [spaces, List.take_of_length_le (by omega), mem_positions_iff]
  simp

/-- The columns that are used are columns of the line. -/
theorem mem_cols {line : List UInt8} {c : Nat × List UInt8} (h : c ∈ cols line) : c ∈ columnsAt 0 line := List.mem_of_mem_take h

variable {content : List UInt8} {rest : Image} {vars : Vars} {j : Nat}

/-- A line of a section whose lines both have content, after it was cut. -/
theorem dualParsed_buf {n : Nat} (hn : n < 2 * (vars.lineCount / 2))
    (hheader : (dualLines content rest vars).getD (2 * (n / 2)) [] ≠ [])
    (hvalues : (dualLines content rest vars).getD (2 * (n / 2) + 1) [] ≠ []) :
    (dualParsed content rest vars).buf (.line n) = terminate ((dualStored content rest vars).buf (.line n))
      (spaces ((dualStored content rest vars).buf (.line n)) ((dualLines content rest vars).getD n []).length) := by
  have h1 := List.length_pos_iff.mpr hheader
  have h2 := List.length_pos_iff.mpr hvalues
  rw [dualParsed, Vars.rewrite_buf_of_ne (fun _ _ _ h => by cases h), Vars.rewrite_buf line_injective (Nat.zero_le n) (by omega),
    dualCut, map_length_getD, map_length_getD, map_length_getD, if_neg (by omega)]

/-- The columns of such a line. -/
theorem dualParsed_line_cstr {n : Nat} (hsize : vars.lineSize ≤ dictSize) (hn : n < 2 * (vars.lineCount / 2))
    (hheader : (dualLines content rest vars).getD (2 * (n / 2)) [] ≠ [])
    (hvalues : (dualLines content rest vars).getD (2 * (n / 2) + 1) [] ≠ []) :
    ∀ c ∈ cols ((dualLines content rest vars).getD n []), (dualParsed content rest vars).cstr ⟨.line n, c.1⟩ = c.2 := by
  have hne : (dualLines content rest vars).getD n [] ≠ [] := by
    rcases Nat.mod_two_eq_zero_or_one n with h | h
    · rwa [show 2 * (n / 2) = n by omega] at hheader
    · rwa [show 2 * (n / 2) + 1 = n by omega] at hvalues
  have hlen := dualLines_length hne
  intro c hc
  rw [Vars.cstr, dualParsed_buf hn hheader hvalues, dualParsed_lineSize]
  refine columnsAt_cstr ((dualStored_holds content rest vars).1.getD hne) (fun p _ hp => ?_) (by omega) c (mem_cols hc)
  rw [mem_spaces_iff (by omega)]
  exact ⟨fun h => h.2, fun h => ⟨by omega, h⟩⟩

/-- The prefix of a section. -/
theorem dualParsed_prefix_cstr (hsize : vars.lineSize ≤ dictSize) (hj : j < vars.lineCount / 2)
    (hheader : (dualLines content rest vars).getD (2 * j) [] ≠ []) :
    (dualParsed content rest vars).cstr ⟨.line2 (2 * j), 0⟩ = headerPrefix ((dualLines content rest vars).getD (2 * j) []) := by
  have hpos := List.length_pos_iff.mpr hheader
  have hlen := dualLines_length hheader
  have hinj : Function.Injective fun k : Nat => BufId.line2 (2 * k) := by
    intro a b h
    have := line2_injective h
    omega
  have hbuf : (dualParsed content rest vars).buf (.line2 (2 * j)) =
      prefixCut ((dualLines content rest vars).map List.length) j ((dualStored content rest vars).buf (.line2 (2 * j))) := by
    rw [dualParsed, Vars.rewrite_buf hinj (Nat.zero_le j) (by omega), Vars.rewrite_buf_of_ne fun _ _ _ h => by cases h]
  rw [Vars.cstr]
  dsimp only
  rw [hbuf, dualParsed_lineSize, prefixCut, map_length_getD, if_neg (by omega), terminate_terminate, headerPrefix]
  refine terminate_cstr (fun c => c == 32 || c == 58) _ ((dualStored_holds content rest vars).2.getD hheader)
    (fun p _ hp => ?_) (by omega)
  rw [List.mem_append, mem_spaces_iff (by omega), mem_positions_iff]
  by_cases hspace : (dualStored content rest vars).buf (.line2 (2 * j)) p = 32
  · simp only [hspace, and_true, beq_self_eq_true, Bool.true_or, iff_true]
    exact .inl (by omega)
  · have hni : p ∉ spaces ((dualStored content rest vars).buf (.line2 (2 * j)))
      ((dualLines content rest vars).getD (2 * j) []).length :=
      fun h => hspace ((mem_spaces_iff (by omega)).mp h).2
    rw [terminate, if_neg hni]
    simp only [hspace, and_false, false_or, beq_iff_eq, Bool.or_eq_true]
    exact ⟨fun h => h.2.2, fun h => ⟨by omega, by omega, h⟩⟩

/-! ## Data points -/

/-- The data points of a section. -/
def sectionCount (lines : List (List UInt8)) (j : Nat) : Nat :=
  min (cols (lines.getD (2 * j) [])).length (cols (lines.getD (2 * j + 1) [])).length

/-- The data point for a column of a section, over what `malloc` returned for it. -/
def dualPoint (vars : Vars) (lines : List (List UInt8)) (j i : Nat) (dp : DataPoint) : DataPoint :=
  { dp with
    name := .ptr ⟨.line (2 * j), ((cols (lines.getD (2 * j) [])).getD i (0, [])).1⟩
    pfx := some (.ptr ⟨.line2 (2 * j), 0⟩)
    type := if vars.buf (.line (2 * j + 1)) ((cols (lines.getD (2 * j + 1) [])).getD i (0, [])).1 = 45 then .long else .ulong
    skip := false
    initialDataPopulated := false }

/-- The data points of several sections, the first of them number `count`. -/
def dualPointList (vars : Vars) (lines : List (List UInt8)) (junk : Nat → DataPoint) : Nat → List Nat → List DataPoint
  | _, [] => []
  | count, j :: js => (List.range (sectionCount lines j)).map (fun i => dualPoint vars lines j i (junk (count + i))) ++
      dualPointList vars lines junk (count + sectionCount lines j) js

/-- Both lines of a section have content. -/
def SectionFull (lines : List (List UInt8)) (j : Nat) : Prop := lines.getD (2 * j) [] ≠ [] ∧ lines.getD (2 * j + 1) [] ≠ []

variable {lines : List (List UInt8)} {junk : Nat → DataPoint}

/-- The data points of a section whose lines both have content. -/
theorem dualSection_eq (vars : Vars) (hfull : SectionFull lines j) (count : Nat) :
    dualSection vars junk count (sectionDict lines j) (sectionPrefixDict lines j) =
      some ((List.range (sectionCount lines j)).map fun i => dualPoint vars lines j i (junk (count + i))) := by
  rw [dualSection, sectionDict, sectionPrefixDict, if_neg (not_or.mpr hfull), if_neg hfull.1]
  refine mapM_some ?_
  intro i hi
  have hi := List.mem_range.mp hi
  have hk : i < (cols (lines.getD (2 * j) [])).length := by omega
  have hv : i < (cols (lines.getD (2 * j + 1) [])).length := by omega
  simp only [List.getElem?_eq_getElem hk, List.getElem?_eq_getElem hv, Option.map_some, Option.bind_eq_bind, Option.bind_some,
    Option.pure_def, dualPoint, List.getD_eq_getElem _ _ hk, List.getD_eq_getElem _ _ hv]

/-- A section with a line without content has no count. -/
theorem dualSection_none (vars : Vars) (hfull : ¬SectionFull lines j) (count : Nat) :
    dualSection vars junk count (sectionDict lines j) (sectionPrefixDict lines j) = none := by
  rw [dualSection, sectionDict, if_pos (not_and_or.mp hfull |>.imp not_not.mp not_not.mp)]
  rfl

/-- If all lines of the sections are there, the data points are listed. -/
theorem dualPoints_eq (vars : Vars) {js : List Nat} (hfull : ∀ j ∈ js, SectionFull lines j) (count : Nat) :
    dualPoints vars junk count (js.map fun j => (sectionDict lines j, sectionPrefixDict lines j)) =
      some (dualPointList vars lines junk count js) := by
  induction js generalizing count with
  | nil => rfl
  | cons j js ih =>
    obtain ⟨hj, hjs⟩ := List.forall_mem_cons.mp hfull
    simp only [List.map_cons, dualPoints, dualSection_eq vars hj, Option.bind_eq_bind, Option.bind_some, List.length_map,
      List.length_range, ih hjs, Option.pure_def, dualPointList]

/-- If a line of a section is missing, an unset dictionary is used. -/
theorem dualPoints_none (vars : Vars) {js : List Nat} (hfull : ¬∀ j ∈ js, SectionFull lines j) (count : Nat) :
    dualPoints vars junk count (js.map fun j => (sectionDict lines j, sectionPrefixDict lines j)) = none := by
  induction js generalizing count with
  | nil => exact absurd (by simp) hfull
  | cons j js ih =>
    by_cases hj : SectionFull lines j
    · have hjs : ¬∀ j ∈ js, SectionFull lines j := fun h => hfull (List.forall_mem_cons.mpr ⟨hj, h⟩)
      simp only [List.map_cons, dualPoints, dualSection_eq vars hj, Option.bind_eq_bind, Option.bind_some, ih hjs,
        Option.bind_none]
    · simp only [List.map_cons, dualPoints, dualSection_none vars hj, Option.bind_eq_bind, Option.bind_none]

/-- Each data point belongs to a column of a section. -/
theorem mem_dualPointList {js : List Nat} {count : Nat} {dp : DataPoint} (h : dp ∈ dualPointList vars lines junk count js) :
    ∃ j ∈ js, ∃ i < sectionCount lines j, ∃ n, dp = dualPoint vars lines j i (junk n) := by
  induction js generalizing count with
  | nil => cases h
  | cons j js ih =>
    rw [dualPointList, List.mem_append] at h
    rcases h with h | h
    · obtain ⟨i, hi, rfl⟩ := List.mem_map.mp h
      exact ⟨j, List.mem_cons_self, i, List.mem_range.mp hi, _, rfl⟩
    · obtain ⟨j', hj', i, hi, n, rfl⟩ := ih h
      exact ⟨j', List.mem_cons_of_mem j hj', i, hi, n, rfl⟩

theorem dualPointList_length (vars : Vars) (count : Nat) (js : List Nat) :
    (dualPointList vars lines junk count js).length = (js.map (sectionCount lines)).sum := by
  induction js generalizing count with
  | nil => rfl
  | cons j js ih => rw [dualPointList, List.length_append, List.length_map, List.length_range, ih, List.map_cons, List.sum_cons]

/-- The data point for a column stands behind those of the sections before. -/
theorem dualPointList_getElem? (junk : Nat → DataPoint) (vars : Vars) (count : Nat) {a i : Nat} {js : List Nat}
    (ha : js[a]? = some j) (hi : i < sectionCount lines j) :
    (dualPointList vars lines junk count js)[((js.take a).map (sectionCount lines)).sum + i]? =
      some (dualPoint vars lines j i (junk (count + (((js.take a).map (sectionCount lines)).sum + i)))) := by
  induction js generalizing a count with
  | nil => cases ha
  | cons j' js ih =>
    cases a with
    | zero =>
      obtain rfl := Option.some.inj ha
      rw [dualPointList, List.take_zero, List.map_nil, List.sum_nil, Nat.zero_add, List.getElem?_append_left (by simpa using hi),
        List.getElem?_map, List.getElem?_range hi]
      rfl
    | succ a =>
      have hlen : ((List.range (sectionCount lines j')).map fun i => dualPoint vars lines j' i (junk (count + i))).length =
          sectionCount lines j' := by rw [List.length_map, List.length_range]
      rw [dualPointList, List.take_succ_cons, List.map_cons, List.sum_cons, Nat.add_assoc,
        List.getElem?_append_right (by omega), hlen, Nat.add_sub_cancel_left, ih _ ha]
      simp only [Nat.add_assoc]

/-- What the search of dual-line files registers. -/
theorem dualLineSearch_eq {name : List UInt8} (hne : content ≠ [])
    (hfull : ∀ j < vars.lineCount / 2, SectionFull (dualLines content rest vars) j) (junk : Nat → DataPoint) :
    dualLineSearch name content rest vars junk = some (some
      { pfx := name
        file := name
        dataPoints :=
          dualPointList (dualParsed content rest vars) (dualLines content rest vars) junk 0 (List.range (vars.lineCount / 2))
        priv := dualParsed content rest vars }) := by
  rw [dualLineSearch, if_neg hne, dualParse_eq]
  simp only [dualPoints_eq _ (fun j hj => hfull j (List.mem_range.mp hj)), Option.bind_eq_bind, Option.bind_some, Option.pure_def]

/-- If a line of a section is missing, the search is not defined. -/
theorem dualLineSearch_none {name : List UInt8} (hne : content ≠ [])
    (hfull : ¬∀ j < vars.lineCount / 2, SectionFull (dualLines content rest vars) j) (junk : Nat → DataPoint) :
    dualLineSearch name content rest vars junk = none := by
  have hno : ¬∀ j ∈ List.range (vars.lineCount / 2), SectionFull (dualLines content rest vars) j := fun h =>
    hfull fun j hj => h j (List.mem_range.mpr hj)
  rw [dualLineSearch, if_neg hne, dualParse_eq]
  simp only [dualPoints_none _ hno, Option.bind_eq_bind, Option.bind_none]

/-! ## Lookups -/

/-- A dictionary whose names are all set is searched to the end, or to the first entry with the name. -/
theorem findDictIdx_some {vars : Vars} {dict : Dict} {names : Nat → List UInt8} {n : Nat} (hmax : dict.max = some n)
    (hkey : ∀ q < n, ∃ p, dict.key q = some p ∧ vars.cstr p = names q) (str : List UInt8) :
    (findDictIdx vars str dict = some none ∧ ∀ q < n, names q ≠ str) ∨
      ∃ q < n, findDictIdx vars str dict = some (some q) ∧ names q = str ∧ ∀ q' < q, names q' ≠ str := by
  -- The induction is on the entries that are left; those before have other names.
  have hind : ∀ k i, i + k = n → (∀ q < i, names q ≠ str) →
      (findDictIdxLoop vars str dict k i = some none ∧ ∀ q < n, names q ≠ str) ∨
        ∃ q < n, findDictIdxLoop vars str dict k i = some (some q) ∧ names q = str ∧ ∀ q' < q, names q' ≠ str := by
    intro k
    induction k with
    | zero => exact fun i hi hbefore => .inl ⟨rfl, fun q hq => hbefore q (by omega)⟩
    | succ k ih =>
      intro i hi hbefore
      obtain ⟨p, hp, hname⟩ := hkey i (by omega)
      simp only [findDictIdxLoop, hp, Option.bind_eq_bind, Option.bind_some, hname]
      by_cases heq : names i = str
      · exact .inr ⟨i, by omega, if_pos heq, heq, hbefore⟩
      · rw [if_neg heq]
        refine ih (i + 1) (by omega) fun q hq => ?_
        by_cases hqi : q = i
        · rwa [hqi]
        · exact hbefore q (by omega)
  rw [findDictIdx, hmax, Option.bind_eq_bind, Option.bind_some]
  exact hind n 0 (Nat.zero_add n) fun q hq => absurd hq (Nat.not_lt_zero q)

/-- The call for a data point and a section: one for the first column that bears its name, if the section has its prefix, and none
otherwise. -/
theorem dualCall_cases {vars : Vars} {dp : DataPoint} {s : Str} (hfull : SectionFull lines j) (hpfx : dp.pfx = some s)
    (hnames : ∀ c ∈ cols (lines.getD (2 * j) []), vars.cstr ⟨.line (2 * j), c.1⟩ = c.2)
    (hpretext : vars.cstr ⟨.line2 (2 * j), 0⟩ = headerPrefix (lines.getD (2 * j) [])) (d : Nat) :
    (dualCall vars (sectionDict lines j) (sectionPrefixDict lines j) d dp = some [] ∧
      ∀ q < sectionCount lines j, ((cols (lines.getD (2 * j) [])).getD q (0, [])).2 = vars.text dp.name →
        headerPrefix (lines.getD (2 * j) []) ≠ vars.text s) ∨
      ∃ q < sectionCount lines j, dualCall vars (sectionDict lines j) (sectionPrefixDict lines j) d dp =
          some [(d, ⟨.line (2 * j + 1), ((cols (lines.getD (2 * j + 1) [])).getD q (0, [])).1⟩)] ∧
        ((cols (lines.getD (2 * j) [])).getD q (0, [])).2 = vars.text dp.name ∧
        headerPrefix (lines.getD (2 * j) []) = vars.text s ∧
        ∀ q' < q, ((cols (lines.getD (2 * j) [])).getD q' (0, [])).2 ≠ vars.text dp.name := by
  have hdict : sectionDict lines j =
      { max := some (sectionCount lines j)
        key := fun i => ((cols (lines.getD (2 * j) []))[i]?).map fun c => ⟨.line (2 * j), c.1⟩
        val := fun i => ((cols (lines.getD (2 * j + 1) []))[i]?).map fun c => ⟨.line (2 * j + 1), c.1⟩ } := by
    rw [sectionDict, if_neg (not_or.mpr hfull)]
    rfl
  have hpd : sectionPrefixDict lines j =
      { max := none
        key := fun i => ((cols (lines.getD (2 * j) []))[i]?).map fun c => ⟨.line2 (2 * j), c.1⟩
        val := fun i => ((cols (lines.getD (2 * j) []))[i]?).map fun _ => ⟨.line2 (2 * j), 0⟩ } := by
    rw [sectionPrefixDict, if_neg hfull.1]
  have hlt : ∀ q < sectionCount lines j, q < (cols (lines.getD (2 * j) [])).length ∧
      q < (cols (lines.getD (2 * j + 1) [])).length := by
    intro q hq
    rw [sectionCount] at hq
    omega
  have hkey : ∀ q < sectionCount lines j, ∃ p, (sectionDict lines j).key q = some p ∧
      vars.cstr p = ((cols (lines.getD (2 * j) [])).getD q (0, [])).2 := by
    intro q hq
    obtain ⟨hk, -⟩ := hlt q hq
    refine ⟨⟨.line (2 * j), (cols (lines.getD (2 * j) []))[q].1⟩, by
      rw [hdict]
      simp only [List.getElem?_eq_getElem hk, Option.map_some], ?_⟩
    rw [hnames _ (List.getElem_mem hk), List.getD_eq_getElem _ _ hk]
  rcases findDictIdx_some (by rw [hdict]) hkey (vars.text dp.name) with ⟨hnone, hno⟩ | ⟨q, hq, hfind, hname, hfirst⟩
  · refine .inl ⟨?_, fun q hq hname => absurd hname (hno q hq)⟩
    simp only [dualCall, hnone, Option.bind_eq_bind, Option.bind_some, Option.pure_def]
  · obtain ⟨hk, hv⟩ := hlt q hq
    have hcall : dualCall vars (sectionDict lines j) (sectionPrefixDict lines j) d dp =
        if vars.text s = headerPrefix (lines.getD (2 * j) []) then
          some [(d, ⟨.line (2 * j + 1), ((cols (lines.getD (2 * j + 1) [])).getD q (0, [])).1⟩)]
        else some [] := by
      have hval : (sectionDict lines j).val q =
          some ⟨.line (2 * j + 1), ((cols (lines.getD (2 * j + 1) [])).getD q (0, [])).1⟩ := by
        rw [hdict, List.getD_eq_getElem _ _ hv]
        simp only [List.getElem?_eq_getElem hv, Option.map_some]
      have hpval : (sectionPrefixDict lines j).val q = some ⟨.line2 (2 * j), 0⟩ := by
        rw [hpd]
        simp only [List.getElem?_eq_getElem hk, Option.map_some]
      simp only [dualCall, hfind, hpfx, hval, hpval, Option.bind_eq_bind, Option.bind_some, hpretext, Option.pure_def]
    by_cases heq : vars.text s = headerPrefix (lines.getD (2 * j) [])
    · exact .inr ⟨q, hq, by rw [hcall, if_pos heq], hname, heq.symm, hfirst⟩
    · exact .inl ⟨by rw [hcall, if_neg heq], fun _ _ _ h => heq h.symm⟩

/-! ## Calls -/

/-- The calls for a data point are for its number. -/
theorem dualCall_fst {vars : Vars} {dp : DataPoint} {dict prefixDict : Dict} {calls : List (Nat × Ptr)} {d : Nat}
    (h : dualCall vars dict prefixDict d dp = some calls) : ∀ call ∈ calls, call.1 = d := by
  simp only [dualCall, Option.bind_eq_bind, Option.bind_eq_some_iff] at h
  obtain ⟨r, -, h⟩ := h
  cases r with
  | none =>
    obtain rfl := Option.some.inj h
    simp
  | some i =>
    simp only [Option.bind_eq_some_iff] at h
    obtain ⟨pfx, -, pfx', -, h⟩ := h
    split at h
    · simp only [Option.bind_eq_some_iff, Option.pure_def, Option.some.injEq] at h
      obtain ⟨val, -, rfl⟩ := h
      simp
    · obtain rfl := Option.some.inj h
      simp

/-- The calls of a section, data point by data point. -/
def callsOf (vars : Vars) (lines : List (List UInt8)) (points : List DataPoint) (j : Nat) : List (Nat × Ptr) :=
  (points.zipIdx.map fun x => (dualCall vars (sectionDict lines j) (sectionPrefixDict lines j) x.2 x.1).getD []).flatten

/-- The calls for the data points are for their numbers. -/
theorem callsOf_fst {vars : Vars} {dict prefixDict : Dict} {points : List DataPoint} :
    ∀ x ∈ points.zipIdx, ∀ call ∈ (dualCall vars dict prefixDict x.2 x.1).getD [], call.1 = x.2 := by
  intro x _ call hcall
  cases h : dualCall vars dict prefixDict x.2 x.1 with
  | none =>
    rw [h, Option.getD_none] at hcall
    cases hcall
  | some calls =>
    rw [h, Option.getD_some] at hcall
    exact dualCall_fst h call hcall

/-- The calls of a poll, if each of them is defined. -/
theorem dualCalls_eq {vars : Vars} {points : List DataPoint} {n : Nat}
    (h : ∀ j < n, ∀ x ∈ points.zipIdx, ∃ calls,
      dualCall vars (sectionDict lines j) (sectionPrefixDict lines j) x.2 x.1 = some calls) :
    dualCalls vars ((List.range n).map fun j => (sectionDict lines j, sectionPrefixDict lines j)) points =
      some ((List.range n).map (callsOf vars lines points)).flatten := by
  have hcall : ∀ x ∈ (List.range n).map fun j => (sectionDict lines j, sectionPrefixDict lines j), ∀ y ∈ points.zipIdx,
      dualCall vars x.1 x.2 y.2 y.1 = some ((dualCall vars x.1 x.2 y.2 y.1).getD []) := by
    intro x hx y hy
    obtain ⟨j, hj, rfl⟩ := List.mem_map.mp hx
    obtain ⟨calls, hcalls⟩ := h j (List.mem_range.mp hj) y hy
    rw [hcalls, Option.getD_some]
  have hmap := mapM_some fun x hx => mapM_some (hcall x hx)
  rw [dualCalls, hmap, Option.bind_eq_bind, Option.bind_some, List.map_map, List.map_map]
  rfl

/-- They are for data points. -/
theorem callsOf_within (vars : Vars) (lines : List (List UInt8)) (points : List DataPoint) (n : Nat) :
    ∀ call ∈ ((List.range n).map (callsOf vars lines points)).flatten, call.1 < points.length := by
  intro call hmem
  obtain ⟨cs, hcs, hmem⟩ := List.mem_flatten.mp hmem
  obtain ⟨j, -, rfl⟩ := List.mem_map.mp hcs
  obtain ⟨cs, hcs, hmem⟩ := List.mem_flatten.mp hmem
  obtain ⟨x, hx, rfl⟩ := List.mem_map.mp hcs
  rw [callsOf_fst x hx call hmem]
  exact List.snd_lt_of_mem_zipIdx hx

/-- Those for one data point. -/
theorem callsAt_callsOf {vars : Vars} {points : List DataPoint} {d : Nat} {dp : DataPoint} (hdp : points[d]? = some dp) :
    callsAt (callsOf vars lines points j) d =
      ((dualCall vars (sectionDict lines j) (sectionPrefixDict lines j) d dp).getD []).map Prod.snd := by
  rw [callsOf, callsAt_zipIdx callsOf_fst, hdp]
  rfl

/-- The calls for a number, list by list. -/
theorem callsAt_flatten (callss : List (List (Nat × Ptr))) (d : Nat) :
    callsAt callss.flatten d = callss.flatMap (callsAt · d) := by
  induction callss with
  | nil => rfl
  | cons calls callss ih => rw [List.flatten_cons, callsAt_append, ih, List.flatMap_cons]

end Pixel845.Datatop
