import Pixel845.Lemmas.DatatopTokens
import Pixel845.Theorems.DatatopValues

/-!
# The splitter of values has room for every line

`dt_single_line_parse` has no bound of its own. A line is shorter than the line buffer, whose size is that of the dictionary: a
line that consists of separators alone takes every entry, and no line takes more (`fields_fit`).
-/

namespace Pixel845.Datatop

/-- `dt_single_line_parse`, called on the line of `len` bytes in a buffer, writes entries of the dictionary only, and one for each
field of the line: the text between two separators, with a terminator. -/
structure SplitsLine (b : Image) (len : Nat) (id : BufId) (dict : Dict) : Prop where
  below : (singleTok len).Performs (TokOp.exec id) (TokOp.Below dictSize) ⟨b, dict⟩
  max : ((singleTok len).final (TokOp.exec id) ⟨b, dict⟩).dict.max = some ((b.read 0 len).countP isValueSep + 1)
  val : ∀ i field, ((b.read 0 len).splitOnP isValueSep)[i]? = some field → ∃ off, off + field.length ≤ len ∧
    ((singleTok len).final (TokOp.exec id) ⟨b, dict⟩).dict.val i = some ⟨id, off⟩ ∧
    ((singleTok len).final (TokOp.exec id) ⟨b, dict⟩).line.Has off (field ++ [0])
  parse : singleLineParse b id len dict = some (((singleTok len).final (TokOp.exec id) ⟨b, dict⟩).line,
    ((singleTok len).final (TokOp.exec id) ⟨b, dict⟩).dict)

/-- The line that `dt_read_line` makes of the start of a file: the buffer and the length. -/
def readFirst (lineSize size : Nat) (content : List UInt8) (rest line : Image) : Image × Nat :=
  (readLine line lineSize size 0).run (readFile content size rest).load

namespace FieldsAux

open ValuesAux

variable {l : List UInt8} {o : Nat}

theorem sepsAt_length (o : Nat) (l : List UInt8) : (sepsAt o l).length = l.countP isValueSep := by
  induction l generalizing o with
  | nil => rfl
  | cons c l ih =>
    rw [sepsAt, List.countP_cons]
    split
    · rw [List.length_cons, ih]
    · rw [ih, Nat.add_zero]

/-- What is read of a line has room for its terminator. -/
theorem readLine_first {lineSize size : Nat} (hline : 1 ≤ lineSize) (hsize : 1 ≤ size) (m line : Image) :
    ∃ l, (readLine line lineSize size 0).run m.load = (line.write 0 (l ++ [0]), l.length) ∧ l.length < lineSize := by
  have hguard : ¬(lineSize < 1 ∨ size < 1 ∨ size < 0) := by omega
  have hle := readLineLoop_length_le m size (lineSize - 1) 0
  refine ⟨(readLineLoop size (lineSize - 1) 0).run m.load, ?_, by omega⟩
  rw [readLine, if_neg hguard]
  simp

/-- A line that leaves room in the dictionary is split. -/
theorem splits {b : Image} (id : BufId) (dict : Dict) (hb : b.Has 0 (l ++ [0])) (hdict : l.length < dictSize) :
    SplitsLine b l.length id dict := by
  have htext : b.read 0 l.length = l := (Image.has_append.mp hb).1
  have hseps : positions isValueSep b l.length 0 = sepsAt 0 l := positions_eq (Image.has_append.mp hb).1
  have hcount : (sepsAt 0 l).length < dictSize := Nat.lt_of_le_of_lt (sepsAt_length_le 0 l) hdict
  obtain ⟨-, hfinal⟩ := singleTok_eq b id l.length dict
  rw [hseps] at hfinal
  refine ⟨singleTok_below (by rwa [hseps]), ?_, ?_, ?_⟩
  · rw [hfinal, htext, sepsAt_length]
  · rw [hfinal, htext]
    intro i field hfield
    have hfields := has_fields (terminate_has_blanked hb fun _ _ => Iff.rfl)
    obtain ⟨hi, hget⟩ := List.getElem?_eq_some_iff.mp hfield
    have hlen := hfields.length_eq
    obtain ⟨hle, hhas⟩ := hfields.get (hlen ▸ hi) hi
    refine ⟨(0 :: (sepsAt 0 l).map (· + 1))[i], ?_, ?_, ?_⟩
    · rw [← hget]
      simpa using hle
    · have hval : (⟨id, 0⟩ :: behind id (sepsAt 0 l) : List Ptr)[i]? = some ⟨id, (0 :: (sepsAt 0 l).map (· + 1))[i]⟩ := by
        have hmap : (⟨id, 0⟩ :: behind id (sepsAt 0 l) : List Ptr) = (0 :: (sepsAt 0 l).map (· + 1)).map fun off =>
            ⟨id, off⟩ := by
          simp [behind]
        rw [hmap, List.getElem?_map, List.getElem?_eq_getElem]
        rfl
      simp [setFrom, hval]
    · rw [← hget]
      exact hhas
  · rw [hfinal, singleLineParse, hseps, if_neg (by omega)]

/-- The first line of a file is split. -/
theorem splits_first {lineSize size : Nat} (hline : 1 ≤ lineSize) (hdict : lineSize ≤ dictSize) (hsize : 1 ≤ size)
    (content : List UInt8) (rest line : Image) (id : BufId) (dict : Dict) :
    SplitsLine (readFirst lineSize size content rest line).1 (readFirst lineSize size content rest line).2 id dict := by
  obtain ⟨l, hread, hlt⟩ := readLine_first hline hsize (readFile content size rest) line
  rw [readFirst, hread]
  exact splits id dict (Image.has_write _ _ _) (by omega)

end FieldsAux

/-- Both callers have line buffers of the right size. -/
theorem fields_fit (content : List UInt8) (rest line : Image) (id : BufId) (dict : Dict) :
    SplitsLine (readFirst genLine genSize content rest line).1 (readFirst genLine genSize content rest line).2 id dict ∧
      SplitsLine (readFirst valueLine valueSize content rest line).1
      (readFirst valueLine valueSize content rest line).2 id dict :=
  ⟨FieldsAux.splits_first (by decide) (by decide) (by decide) content rest line id dict,
    FieldsAux.splits_first (by decide) (by decide) (by decide) content rest line id dict⟩

end Pixel845.Datatop
