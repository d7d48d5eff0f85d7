import Pixel845.Lemmas.JsonPrintbuf

/-!
# A print buffer holds the text that was put into it

Over every run of calls, as long as no text is longer than 1073741823 bytes: nothing is written outside the block, no `int`
overflows, the bytes up to `bpos` are the text, and a `NUL` stands behind them in the block unless the last call was
`printbuf_memset`, which does not write one and may leave no room for it.
-/

namespace Pixel845.Json

/-- Calls on a new buffer leave the text that they are for in the block. -/
theorem printbuf_holds_text (memory : Image) (calls : List PrintbufCall) (text : List UInt8)
    (hrun : calls.foldlM textStep [] = some text) : ∃ p, calls.foldlM printbufStep (printbufNew memory) = some p ∧
      p.buf.read 0 p.bpos = text ∧ p.bpos ≤ p.size ∧ ∀ call, calls.getLast? = some call → call.terminates = true →
      p.bpos < p.size ∧ p.buf p.bpos = 0 := by
  have hnew : HoldsText (printbufNew memory) [] := ⟨Image.has_nil .., rfl, Nat.zero_le _, by simp [printbufNew]⟩
  obtain ⟨p, hrun', hholds, hterm⟩ := run_spec hnew calls hrun
  exact ⟨p, hrun', by rw [hholds.bpos_eq]; exact hholds.has, hholds.bpos_le, hterm⟩

/-- The rule for a text with an indentation. -/
theorem printbuf_holds_text_indented :
    ∃ p, [PrintbufCall.sprintbuf [123], .memset none 32 4, .memset (some 1) 10 1, .memappendFast [125]].foldlM printbufStep
      (printbufNew Image.zero) =
        some p ∧ p.buf.read 0 p.bpos = [123, 10, 32, 32, 32, 125] ∧ p.bpos ≤ p.size ∧
      ∀ call, [PrintbufCall.sprintbuf [123], .memset none 32 4, .memset (some 1) 10 1, .memappendFast [125]].getLast? =
        some call → call.terminates = true → p.bpos < p.size ∧ p.buf p.bpos = 0 :=
  printbuf_holds_text Image.zero [.sprintbuf [123], .memset none 32 4, .memset (some 1) 10 1, .memappendFast [125]]
    [123, 10, 32, 32, 32, 125] rfl

end Pixel845.Json
