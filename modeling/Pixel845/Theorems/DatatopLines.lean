import Pixel845.Lemmas.DatatopLines

/-!
# Exact reach of the line splitter

A file that fits the read buffer is cut into its lines exactly when each of them leaves room for a terminator in its line buffer;
a line of the full size of the buffer is cut short, and its last byte is read as a line of its own. As long as the lines fit,
nothing is read behind the content of the file (`lines_exact_iff`).
-/

namespace Pixel845.Datatop

/-- The line buffers hold the first lines of the content, and the lengths are theirs. -/
def LinesExact (arr : Nat → BufId) (content : List UInt8) (lineCount : Nat) (r : Vars × List Nat) : Prop :=
  ∀ n < lineCount, ∃ line, (content.splitOn 10)[n]? = some line ∧ r.2[n]? = some line.length ∧
    (r.1.buf (arr n)).read 0 line.length = line

/-- The first lines of the content leave room for a terminator. -/
def LinesFit (lineSize : Nat) (content : List UInt8) (lineCount : Nat) : Prop :=
  ∀ line ∈ (content.splitOn 10).take lineCount, line.length ≤ lineSize - 1

/-- For every content that fits the read buffer, whatever the buffer holds behind it and the line buffers before: the lines are
read exactly when they fit, and then no byte behind the content is read. -/
theorem lines_exact_iff (arr : Nat → BufId) (harr : Function.Injective arr) (size : Nat) (hsize : 4 ≤ size) (content : List UInt8)
    (hfit : content.length ≤ size) (rest : Image) (vars : Vars) (hline : vars.lineSize = size / 4)
    (hcount : vars.lineCount = getFileLineAmount content) :
    (LinesExact arr content vars.lineCount ((readLines arr size vars).run (readFile content size rest).load) ↔
        LinesFit vars.lineSize content vars.lineCount) ∧
      (LinesFit vars.lineSize content vars.lineCount →
        (readLines arr size vars).InBounds (readFile content size rest) content.length) := by
  have hhas := readFile_has hfit rest
  have hle : vars.lineCount ≤ content.count 10 := hcount ▸ getFileLineAmount_le content
  have hpos : 1 ≤ vars.lineSize := by omega
  rw [readLines, readLinesLoop_run]
  refine ⟨⟨fun hexact line hmem => ?_, fun hfits n hn => ?_⟩, fun hfits => ?_⟩
  · -- The length that is reported is at most what the line buffer holds.
    obtain ⟨n, hn⟩ := List.mem_iff_getElem?.mp hmem
    have hlt : n < vars.lineCount := by
      have := (List.getElem?_eq_some_iff.mp hn).1
      simp only [List.length_take] at this
      omega
    obtain ⟨line', hline', hlen, -⟩ := hexact n hlt
    rw [List.getElem?_take_of_lt hlt, hline', Option.some.injEq] at hn
    subst hn
    rw [List.getElem?_map, Option.map_eq_some_iff] at hlen
    obtain ⟨l, hl, hlen⟩ := hlen
    exact hlen ▸ lineLen_le (List.mem_of_getElem? hl)
  · have hcut : cutLines (readFile content size rest) vars.lineSize size vars.lineCount 0 =
        ((content.splitOn 10).take vars.lineCount).map some := cutLines_eq hhas (by omega) hpos hle hfits
    have hlt : n < (content.splitOn 10).length := by
      rw [splitOn_length]
      omega
    obtain ⟨line, hl⟩ : ∃ line, (content.splitOn 10)[n]? = some line := ⟨_, List.getElem?_eq_getElem hlt⟩
    have hget : (cutLines (readFile content size rest) vars.lineSize size vars.lineCount 0)[n]? = some (some line) := by
      rw [hcut, List.getElem?_map, List.getElem?_take_of_lt hn, hl]
      rfl
    refine ⟨line, hl, ?_, ?_⟩
    · simp [List.getElem?_map, hget, lineLen]
    · have hbuf := Vars.store_buf vars harr (n := 0) hget
      rw [Nat.zero_add] at hbuf
      have hw := Image.has_write (vars.buf (arr n)) 0 (line ++ [0])
      rw [Image.has_append] at hw
      simp only [hbuf, storeLine, Option.elim_some]
      exact hw.1
  · have h : (readLinesLoop arr size vars.lineCount 0 0 vars).InBounds (readFile content size rest) (0 + content.length) :=
      readLinesLoop_inBounds hhas (by omega) hpos hle hfits
    rwa [Nat.zero_add] at h

/-- Line buffers of 2048 bytes, for the lines of a content. -/
def varsFor (content : List UInt8) : Vars := ⟨2048, getFileLineAmount content, fun _ => Image.zero⟩

/-- The rule at a file of two lines. -/
theorem lines_exact_two :
    (LinesExact .line [97, 98, 10, 99, 10] (varsFor [97, 98, 10, 99, 10]).lineCount
          ((readLines .line 8192 (varsFor [97, 98, 10, 99, 10])).run (readFile [97, 98, 10, 99, 10] 8192 Image.zero).load) ↔
        LinesFit 2048 [97, 98, 10, 99, 10] (varsFor [97, 98, 10, 99, 10]).lineCount) ∧
      (LinesFit 2048 [97, 98, 10, 99, 10] (varsFor [97, 98, 10, 99, 10]).lineCount →
        (readLines .line 8192 (varsFor [97, 98, 10, 99, 10])).InBounds (readFile [97, 98, 10, 99, 10] 8192 Image.zero) 5) :=
  lines_exact_iff .line (fun _ _ h => BufId.line.inj h) 8192 (by decide) [97, 98, 10, 99, 10] (by decide) Image.zero
    (varsFor [97, 98, 10, 99, 10]) rfl rfl

end Pixel845.Datatop
