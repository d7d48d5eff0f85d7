import Pixel845.Theorems.DatatopValues

/-!
# Values depend on the file alone

The read buffer is not cleared before a file is read into it, and the line reader is given the size of the buffer in place of the
number of bytes that were read. What the buffer held before joins the first line unless the file ends that line itself
(`file_only_iff`).
-/

namespace Pixel845.Datatop

/-- Whatever the read buffer held before, a file of this content has as many values, registers the same data points and stores the
same values into any that are registered. -/
def FileOnly (content : List UInt8) : Prop :=
  ∀ rest rest' line : Image, getNumberOfValues content rest line = getNumberOfValues content rest' line ∧
    ∀ s : ValueSource,
      (∀ name priv junk, s.search name content rest line priv junk = s.search name content rest' line priv junk) ∧
        ∀ dpg, s.poll content rest line dpg = s.poll content rest' line dpg

namespace StaleAux

variable {content : List UInt8} {rest rest' line : Image}

/-- The bytes that the first line is cut from: those of the file and, behind them, those that were in the buffer before. -/
def looked (content : List UInt8) (rest : Image) : List UInt8 :=
  content.take (valueLine - 1) ++ rest.read content.length (valueLine - 1 - content.length)

/-- What is looked at is read. -/
theorem read_eq_looked (content : List UInt8) (rest : Image) :
    (readFile content valueSize rest).read 0 (valueLine - 1) = looked content rest := by
  have hsize : valueLine - 1 ≤ valueSize := by decide
  have hfile : (readFile content valueSize rest).Has 0 (content.take valueSize) := Image.has_write _ _ _
  unfold looked
  by_cases hshort : content.length < valueLine - 1
  · have hall : content.take valueSize = content := List.take_of_length_le (by omega)
    have hline : content.take (valueLine - 1) = content := List.take_of_length_le (by omega)
    have hsplit : valueLine - 1 = content.length + (valueLine - 1 - content.length) := by omega
    have houtside : (readFile content valueSize rest).read content.length (valueLine - 1 - content.length) =
        rest.read content.length (valueLine - 1 - content.length) := by
      unfold readFile
      rw [hall]
      exact Image.read_write_outside (.inr (by omega))
    rw [hall] at hfile
    rw [hline, ← houtside]
    conv_lhs => rw [hsplit, Image.read_add, Nat.zero_add, hfile]
  · have hnone : valueLine - 1 - content.length = 0 := by omega
    have hbegin : content.take valueSize = content.take (valueLine - 1) ++ (content.take valueSize).drop (valueLine - 1) := by
      conv_lhs => rw [← List.take_append_drop (valueLine - 1) (content.take valueSize)]
      rw [List.take_take, Nat.min_eq_left hsize]
    have hlen : (content.take (valueLine - 1)).length = valueLine - 1 := by
      rw [List.length_take]
      omega
    rw [hbegin] at hfile
    have hhas := (Image.has_append.mp hfile).1
    rw [Image.Has, hlen] at hhas
    rw [hnone, hhas]
    simp [Image.read]

/-- The line that is cut out of what is looked at. -/
theorem cutLine_eq_looked (content : List UInt8) (rest : Image) :
    cutLine (readFile content valueSize rest) valueLine valueSize 0 = some ((looked content rest).takeWhile (· != 10)) := by
  have hsplit : valueSize - 0 = (valueLine - 1) + (valueSize - (valueLine - 1)) := by decide
  unfold cutLine
  rw [if_neg (by decide), hsplit, Image.read_add, List.take_append_of_le_length (by simp),
    List.take_of_length_le (by simp), read_eq_looked]

/-- The first line of what is looked at. -/
theorem firstLine_eq_looked (content : List UInt8) (rest : Image) :
    firstLine content rest = (looked content rest).takeWhile (· != 10) := by
  rw [firstLine, cutLine_eq_looked, Option.getD_some]

/-- Two buffers that give the same first line give the same values. -/
theorem same_of_firstLine (h : firstLine content rest = firstLine content rest') :
    getNumberOfValues content rest line = getNumberOfValues content rest' line ∧
      ∀ s : ValueSource,
        (∀ name priv junk, s.search name content rest line priv junk = s.search name content rest' line priv junk) ∧
          ∀ dpg, s.poll content rest line dpg = s.poll content rest' line dpg := by
  have hcut : cutLine (readFile content valueSize rest) valueLine valueSize 0 =
      cutLine (readFile content valueSize rest') valueLine valueSize 0 := by
    rw [firstLine_eq_looked, firstLine_eq_looked] at h
    rw [cutLine_eq_looked, cutLine_eq_looked, h]
  have hparse : parseValues valueLine valueSize content rest line = parseValues valueLine valueSize content rest' line := by
    unfold parseValues
    rw [readLine_run, readLine_run, hcut]
  have hcount : getNumberOfValues content rest line = getNumberOfValues content rest' line := by
    unfold getNumberOfValues
    rw [readLine_run, readLine_run, show genLine = valueLine from rfl, show genSize = valueSize from rfl, hcut]
  refine ⟨hcount, fun s => ⟨fun name priv junk => ?_, fun dpg => ?_⟩⟩
  · cases s with
    | gen dir =>
      change some (dpgConstruction dir name content rest line priv junk) =
        some (dpgConstruction dir name content rest' line priv junk)
      unfold dpgConstruction
      rw [hcount]
    | valueOnly =>
      change valueOnlySearch name content rest line priv junk = valueOnlySearch name content rest' line priv junk
      unfold valueOnlySearch
      rw [hparse]
  · rw [ValuesAux.poll_eq]
    unfold pollValues
    rw [hparse]

/-- An empty file has no values. -/
theorem same_of_empty :
    getNumberOfValues [] rest line = getNumberOfValues [] rest' line ∧
      ∀ s : ValueSource,
        (∀ name priv junk, s.search name [] rest line priv junk = s.search name [] rest' line priv junk) ∧
          ∀ dpg, s.poll [] rest line dpg = s.poll [] rest' line dpg := by
  have hcount : ∀ rest : Image, getNumberOfValues [] rest line = 0 := fun rest => if_pos rfl
  refine ⟨(hcount rest).trans (hcount rest').symm, fun s => ⟨?_, ?_⟩⟩
  · intro name priv junk
    cases s with
    | gen dir =>
      change some (dpgConstruction dir name [] rest line priv junk) = some (dpgConstruction dir name [] rest' line priv junk)
      unfold dpgConstruction
      rw [hcount, hcount]
    | valueOnly =>
      change valueOnlySearch name [] rest line priv junk = valueOnlySearch name [] rest' line priv junk
      unfold valueOnlySearch
      rw [if_pos rfl, if_pos rfl]
  · intro dpg
    rw [ValuesAux.poll_eq]
    unfold pollValues
    rw [if_pos rfl, if_pos rfl]

/-- A file that ends its first line itself, or that fills the line buffer, leaves no room for what was there before. -/
theorem firstLine_fixed (h : 10 ∈ content.take (valueLine - 1) ∨ valueLine - 1 ≤ content.length) (rest rest' : Image) :
    firstLine content rest = firstLine content rest' := by
  rw [firstLine_eq_looked, firstLine_eq_looked]
  unfold looked
  rcases h with hnl | hlong
  · have hcut : ∀ tail : List UInt8,
        (content.take (valueLine - 1) ++ tail).takeWhile (· != 10) = (content.take (valueLine - 1)).takeWhile (· != 10) := by
      intro tail
      rw [List.takeWhile_append, if_neg]
      intro hall
      have hmem := (List.takeWhile_prefix (p := (· != 10)) (l := content.take (valueLine - 1))).eq_of_length hall
      rw [← hmem] at hnl
      exact absurd (List.mem_takeWhile_imp hnl) (by decide)
    rw [hcut, hcut]
  · have hnone : valueLine - 1 - content.length = 0 := by omega
    rw [hnone]
    rfl

/-- A buffer that held newlines, and another one that held a comma where the file ends. -/
def newlines : Image := fun _ => 10

/-- Memory with one comma among newlines. -/
def commaAt (n : Nat) : Image := fun i => if i = n then 44 else 10

/-- The first line of a short file without a newline, over the two buffers. -/
theorem firstLine_open (hnl : 10 ∉ content) (hshort : content.length < valueLine - 1) :
    firstLine content newlines = content ∧ firstLine content (commaAt content.length) = content ++ [44] := by
  have hline : content.take (valueLine - 1) = content := List.take_of_length_le (by omega)
  have hnewlines : ∀ off n, Image.read newlines off n = List.replicate n 10 := by
    intro off n
    refine List.ext_getElem (by simp) ?_
    intro i hi hi'
    simp [Image.read, newlines]
  obtain ⟨n, hn⟩ : ∃ n, valueLine - 1 - content.length = n + 1 := ⟨valueLine - 1 - content.length - 1, by omega⟩
  rw [firstLine_eq_looked, firstLine_eq_looked]
  unfold looked
  rw [hline, hn]
  constructor
  · rw [hnewlines, List.replicate_succ]
    exact takeWhile_ne _ hnl
  · have hbehind : Image.read (commaAt content.length) (content.length + 1) n = List.replicate n 10 := by
      rw [← hnewlines (content.length + 1) n]
      refine Image.read_congr ?_
      intro i hi _
      exact if_neg (by omega)
    have hat : commaAt content.length content.length = 44 := if_pos rfl
    rw [read_succ, hat, hbehind, List.append_cons]
    have hnl' : 10 ∉ content ++ [44] := by simpa using hnl
    cases n with
    | zero =>
      rw [List.replicate_zero, List.append_nil]
      refine List.takeWhile_eq_self_iff.mpr ?_
      intro c hc
      rw [bne_iff_ne]
      rintro rfl
      exact hnl' hc
    | succ n =>
      rw [List.replicate_succ]
      exact takeWhile_ne _ hnl'

/-- A comma adds a field. -/
theorem fields_comma (l : List UInt8) : (fields (l ++ [44])).length = (fields l).length + 1 := by
  have hsep : isValueSep 44 = true := by decide
  induction l with
  | nil => rfl
  | cons c l ih =>
    simp only [fields, List.length_map, List.cons_append] at ih ⊢
    rw [List.splitOnP_cons_eq_if_modifyHead, List.splitOnP_cons_eq_if_modifyHead]
    by_cases hc : isValueSep c = true
    · rw [if_pos hc, if_pos hc, List.length_cons, List.length_cons, ih]
    · rw [if_neg hc, if_neg hc, List.length_modifyHead, List.length_modifyHead, ih]

/-- A file with content is registered, whatever it contains. -/
theorem valueOnlySearch_some (hne : content ≠ []) (name : List UInt8) (rest line : Image) (priv : Vars) (junk : Nat → DataPoint) :
    ∃ dpg, ValueSource.search .valueOnly name content rest line priv junk = some (some dpg) := by
  obtain ⟨vars, dict, hparse, hcut⟩ := ValuesAux.parseValues_cut content rest line
  change ∃ dpg, valueOnlySearch name content rest line priv junk = some (some dpg)
  unfold valueOnlySearch
  rw [if_neg hne, hparse]
  simp only [Option.bind_eq_bind, Option.bind_some, hcut.max]
  have hpoints : ∀ (f : Nat → Option DataPoint) (l : List Nat), (∀ i ∈ l, ∃ dp, f i = some dp) →
      ∃ dpg : Gatherer, (l.mapM f).bind (fun dataPoints => some (some ⟨name, name, dataPoints, priv⟩)) = some (some dpg) := by
    intro f l hf
    obtain ⟨points, h⟩ := mapM_isSome_iff.mpr hf
    exact ⟨_, by rw [h]; rfl⟩
  refine hpoints _ _ ?_
  intro i hi
  obtain ⟨p, hp⟩ : ∃ p, dict.val i = some p := by
    rw [hcut.val]
    exact ⟨_, List.getElem?_eq_getElem (List.mem_range.mp hi)⟩
  rw [hp]
  exact ⟨_, rfl⟩

/-- There is a data point for each field of the first line. -/
theorem registered_fields {name : List UInt8} {priv : Vars} {junk : Nat → DataPoint} {dpg : Gatherer}
    (h : ValueSource.search .valueOnly name content rest line priv junk = some (some dpg)) :
    dpg.dataPoints.length = (fields (firstLine content rest)).length := by
  rw [ValuesAux.registered_length h]
  rfl

end StaleAux

open StaleAux in
/-- The values of a file depend on it alone exactly if it is empty, has a newline in what fits the line buffer, or fills the
line buffer. -/
theorem file_only_iff (content : List UInt8) :
    FileOnly content ↔ content = [] ∨ 10 ∈ content.take 2047 ∨ 2047 ≤ content.length := by
  constructor
  · intro h
    by_contra hopen
    obtain ⟨hne, hnl, hlong⟩ : content ≠ [] ∧ 10 ∉ content.take 2047 ∧ content.length < 2047 := by
      simpa only [not_or, Nat.not_le, ne_eq] using hopen
    rw [List.take_of_length_le (by omega)] at hnl
    obtain ⟨hplain, hcomma⟩ := firstLine_open hnl hlong
    -- the comma gives the file one more value
    have hsearch := (((h (commaAt content.length) newlines .zero).2 .valueOnly).1 [] (.cleared 0 0) fun _ => .blank)
    obtain ⟨dpg, hdpg⟩ := valueOnlySearch_some hne [] newlines .zero (.cleared 0 0) fun _ => .blank
    have hlen := registered_fields hdpg
    have hlen' := registered_fields (hsearch.trans hdpg)
    rw [hplain] at hlen
    rw [hcomma, fields_comma] at hlen'
    omega
  · intro h rest rest' line
    rcases h with rfl | h
    · exact same_of_empty
    · exact same_of_firstLine (firstLine_fixed h rest rest')

/-- The file `1` has one value in a buffer that held newlines, and two in one that held `,2` and a newline behind the
first byte. -/
theorem not_file_only : ¬∀ content : List UInt8, content ≠ [] → FileOnly content := by
  intro h
  have hone : getNumberOfValues [49] (.ofBytes [10, 10]) .zero = 1 := by decide +kernel
  have htwo : getNumberOfValues [49] (.ofBytes [0, 44, 50, 10]) .zero = 2 := by decide +kernel
  have hsame := (h [49] (by simp) (.ofBytes [10, 10]) (.ofBytes [0, 44, 50, 10]) .zero).1
  rw [hone, htwo] at hsame
  cases hsame

end Pixel845.Datatop
