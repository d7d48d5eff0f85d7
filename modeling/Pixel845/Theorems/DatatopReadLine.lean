import Pixel845.Datatop.Lines

/-!
# One line

`dt_read_line` copies as much of a line as there is and as fits, with a terminator behind it. It does so for an offset in the
source buffer or at its end (`read_line_longest_iff`). For any other offset, and for a source buffer without bytes, it returns 0
and leaves the destination as it was, so that the caller finds an empty line there only by chance.
-/

namespace Pixel845.Datatop

/-- What `dt_read_line` leaves in the destination, and what it returns. -/
def lineRead (buf1 buf2 : Image) (len1 len2 start : Int) : Image × Nat := (dtReadLine buf1 len1 len2 start).run buf2.load

/-- `n` bytes of the source are a part of a line that fits the destination: they lie in the source and none of them is
a newline. -/
structure FitsLine (buf2 : Image) (len1 len2 start : Int) (n : Nat) : Prop where
  dest : (n : Int) ≤ len1 - 1
  source : 0 ≤ start ∧ start + n ≤ len2
  plain : ∀ i < n, buf2 (start.toNat + i) ≠ 10

/-- A line was read: a terminator stands behind `r` bytes, which are those of the source from the offset on, without a newline and
as many as there can be. -/
structure ReadsLine (buf1 buf2 : Image) (len1 len2 start : Int) : Prop where
  dest : ((lineRead buf1 buf2 len1 len2 start).2 : Int) ≤ len1 - 1
  nul : (lineRead buf1 buf2 len1 len2 start).1 (lineRead buf1 buf2 len1 len2 start).2 = 0
  copy : ∀ i < (lineRead buf1 buf2 len1 len2 start).2,
    (lineRead buf1 buf2 len1 len2 start).1 i = buf2 (start.toNat + i) ∧ buf2 (start.toNat + i) ≠ 10
  longest : ∀ n, FitsLine buf2 len1 len2 start n → n ≤ (lineRead buf1 buf2 len1 len2 start).2

namespace ReadLineAux

variable {buf1 buf2 : Image} {len1 len2 start : Int}

/-- What passes a test from the start on is not cut off. -/
theorem le_length_takeWhile {p : UInt8 → Bool} {l : List UInt8} {n : Nat} (hn : n ≤ l.length)
    (h : ∀ i (hi : i < n), p l[i] = true) : n ≤ (l.takeWhile p).length := by
  have hpass : ∀ c ∈ l.take n, p c = true := by
    intro c hc
    obtain ⟨i, hi, rfl⟩ := List.getElem_of_mem hc
    rw [List.length_take] at hi
    rw [List.getElem_take]
    exact h i (by omega)
  rw [← List.take_append_drop n l, List.takeWhile_append_of_pos hpass, List.length_append, List.length_take]
  omega

/-- A byte that is read is one of memory. -/
theorem read_getElem (m : Image) (off : Nat) {n i : Nat} (hi : i < (m.read off n).length) : (m.read off n)[i] = m (off + i) := by
  rw [Image.read_length] at hi
  exact ((Image.has_read m off n).getElem (by rwa [Image.read_length])).symm

/-- The bytes that are copied. -/
def copied (buf2 : Image) (len1 len2 start : Int) : List UInt8 :=
  ((buf2.read start.toNat (len2.toNat - start.toNat)).take (len1 - 1).toNat).takeWhile (· != 10)

/-- Arguments in range give the line and its length. -/
theorem lineRead_inside (buf1 buf2 : Image) (h1 : 1 ≤ len1) (h : 1 ≤ len2 ∧ 0 ≤ start ∧ start ≤ len2) :
    lineRead buf1 buf2 len1 len2 start =
      (buf1.write 0 (copied buf2 len1 len2 start ++ [0]), (copied buf2 len1 len2 start).length) := by
  have hguard : ¬(len1 < 1 ∨ len2 < 1 ∨ start < 0 ∨ len2 < start) := by omega
  rw [lineRead, dtReadLine, if_neg hguard]
  simp only [Prog.run_bind, Prog.pure_eq, Prog.run_ret, readLineLoop_run, copied]

/-- Arguments out of range change nothing. -/
theorem lineRead_outside (buf1 buf2 : Image) (len1 : Int) (h : ¬(1 ≤ len2 ∧ 0 ≤ start ∧ start ≤ len2)) :
    lineRead buf1 buf2 len1 len2 start = (buf1, 0) := by
  have hguard : len1 < 1 ∨ len2 < 1 ∨ start < 0 ∨ len2 < start := by omega
  rw [lineRead, dtReadLine, if_pos hguard]
  rfl

/-- The bytes that are copied are those from the start on, and no newline. -/
theorem copied_getElem {i : Nat} (hi : i < (copied buf2 len1 len2 start).length) :
    (copied buf2 len1 len2 start)[i] = buf2 (start.toNat + i) ∧ buf2 (start.toNat + i) ≠ 10 := by
  have hne : (copied buf2 len1 len2 start)[i] ≠ 10 := by
    have hmem := List.mem_takeWhile_imp (List.getElem_mem hi)
    simpa using hmem
  have hget : (copied buf2 len1 len2 start)[i] = buf2 (start.toNat + i) := by
    unfold copied at hi ⊢
    rw [(List.takeWhile_prefix _).getElem hi, List.getElem_take, read_getElem]
  exact ⟨hget, hget ▸ hne⟩

/-- For an offset in the source or at its end, a line is read. -/
theorem readsLine_inside (h1 : 1 ≤ len1) (h : 1 ≤ len2 ∧ 0 ≤ start ∧ start ≤ len2) : ReadsLine buf1 buf2 len1 len2 start := by
  have hread := lineRead_inside buf1 buf2 h1 h
  have hhas : (buf1.write 0 (copied buf2 len1 len2 start ++ [0])).Has 0 (copied buf2 len1 len2 start ++ [0]) :=
    Image.has_write _ _ _
  obtain ⟨hline, hnul⟩ := Image.has_append.mp hhas
  rw [Nat.zero_add] at hnul
  refine ⟨?_, ?_, ?_, ?_⟩
  · have hle := (List.takeWhile_prefix (p := (· != 10))
      (l := (buf2.read start.toNat (len2.toNat - start.toNat)).take (len1 - 1).toNat)).length_le
    rw [List.length_take] at hle
    rw [hread]
    unfold copied
    omega
  · rw [hread]
    exact (Image.has_cons.mp hnul).1
  · rw [hread]
    intro i hi
    obtain ⟨hget, hne⟩ := copied_getElem hi
    have hbyte := hline.getElem hi
    rw [Nat.zero_add] at hbyte
    exact ⟨hbyte.trans hget, hne⟩
  · rintro n ⟨hdest, hsource, hplain⟩
    rw [hread]
    refine le_length_takeWhile ?_ ?_
    · rw [List.length_take, Image.read_length]
      omega
    · intro i hi
      rw [List.getElem_take, read_getElem, bne_iff_ne]
      exact hplain i hi

/-- Otherwise nothing is: the terminator is there if it was there before. -/
theorem readsLine_outside (h1 : 1 ≤ len1) (h : ¬(1 ≤ len2 ∧ 0 ≤ start ∧ start ≤ len2)) :
    ReadsLine buf1 buf2 len1 len2 start ↔ buf1 0 = 0 := by
  have hread := lineRead_outside buf1 buf2 len1 h
  constructor
  · intro hline
    have hnul := hline.nul
    rwa [hread] at hnul
  · intro hnul
    refine ⟨?_, ?_, ?_, ?_⟩
    · rw [hread]
      simp only [Int.ofNat_zero]
      omega
    · rw [hread]
      exact hnul
    · rw [hread]
      intro i hi
      exact absurd hi (Nat.not_lt_zero i)
    · rintro n ⟨-, hsource, -⟩
      rw [hread]
      simp only
      omega

/-- A line is read for arguments in range, or where the buffer was empty. -/
theorem readsLine_iff (h1 : 1 ≤ len1) :
    ReadsLine buf1 buf2 len1 len2 start ↔ (1 ≤ len2 ∧ 0 ≤ start ∧ start ≤ len2) ∨ buf1 0 = 0 := by
  by_cases h : 1 ≤ len2 ∧ 0 ≤ start ∧ start ≤ len2
  · exact ⟨fun _ => .inl h, fun _ => readsLine_inside h1 h⟩
  · rw [readsLine_outside h1 h, or_iff_right h]

end ReadLineAux

/-- A line is read exactly for an offset in a source buffer that has bytes, or at its end; or else if the destination starts with
a terminator already. -/
theorem read_line_longest_iff (buf1 buf2 : Image) (len1 len2 start : Int) (h1 : 1 ≤ len1) :
    ReadsLine buf1 buf2 len1 len2 start ↔ (1 ≤ len2 ∧ 0 ≤ start ∧ start ≤ len2) ∨ buf1 0 = 0 :=
  ReadLineAux.readsLine_iff h1

/-- A destination that holds `x` everywhere. -/
def staleLine : Image := fun _ => 120

/-- The rule at the end of a buffer. -/
theorem read_line_longest_iff_end :
    (1 : Int) ≤ 4 ∧ (ReadsLine staleLine Image.zero 4 2 2 ↔ ((1 : Int) ≤ 2 ∧ (0 : Int) ≤ 2 ∧ (2 : Int) ≤ 2) ∨ staleLine 0 = 0) :=
  ⟨by decide, read_line_longest_iff staleLine Image.zero 4 2 2 (by decide)⟩

/-- One byte behind the end of the source, what stood in the destination stays there. -/
theorem read_line_stale :
    ¬ ∀ (buf1 buf2 : Image) (len1 len2 start : Int), 1 ≤ len1 → ReadsLine buf1 buf2 len1 len2 start := by
  intro h
  rcases (ReadLineAux.readsLine_iff (by decide)).mp (h staleLine Image.zero 4 2 3 (by decide)) with hstart | hnul
  · omega
  · exact absurd hnul (by decide)

end Pixel845.Datatop
