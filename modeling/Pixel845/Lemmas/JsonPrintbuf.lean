import Pixel845.Json.Printbuf

/-!
# The text in a print buffer

`HoldsText` says that a block holds a text, and that nothing it has is outside it. Each operation has a lemma that says which text
it makes, and the run of any calls is put together from these.
-/

namespace Pixel845.Json

variable {p p' : Printbuf} {text bs : List UInt8}

/-- The block holds the text. -/
structure HoldsText (p : Printbuf) (text : List UInt8) : Prop where
  has : p.buf.Has 0 text
  bpos_eq : p.bpos = text.length
  bpos_le : p.bpos ≤ p.size
  size_pos : 0 < p.size

/-- A `NUL` stands behind the text. -/
def Terminated (p : Printbuf) : Prop := p.bpos < p.size ∧ p.buf p.bpos = 0

/-- A store into the block that was allocated. -/
theorem store_eq (off : Nat) (bs : List UInt8) (hroom : off + bs.length ≤ p.size) :
    p.store off bs = some { p with buf := p.buf.write off bs } := if_pos hroom

/-- The block has as many bytes as were asked for, and holds what it held. -/
theorem extend_spec (p : Printbuf) (minSize : Nat) (hmin : minSize ≤ maxText + 1) :
    ∃ size, printbufExtend p minSize = some { p with size := size } ∧ minSize ≤ size ∧ p.size ≤ size := by
  unfold maxText at hmin
  by_cases hsize : minSize ≤ p.size
  · exact ⟨p.size, if_pos hsize, hsize, Nat.le_refl _⟩
  · have hdouble : p.size * 2 ≤ intMax := by
      unfold intMax
      omega
    have hadd : minSize + 8 ≤ intMax := by
      unfold intMax
      omega
    refine ⟨if p.size * 2 < minSize + 8 then minSize + 8 else p.size * 2, ?_, ?_, ?_⟩
    · simp [printbufExtend, hsize, hdouble, hadd]
    · split <;> omega
    · split <;> omega

/-- Bytes and a `NUL` behind the text. -/
theorem push_spec (h : HoldsText p text) (bs : List UInt8) (hroom : text.length + bs.length + 1 ≤ p.size) :
    ∃ p', p.push bs = some p' ∧ HoldsText p' (text ++ bs) ∧ Terminated p' := by
  have hfirst := store_eq (p := p) p.bpos bs (by rw [h.bpos_eq]; omega)
  have hsecond := store_eq (p := { p with buf := p.buf.write p.bpos bs, bpos := p.bpos + bs.length }) (p.bpos + bs.length) [0]
    (by simp only [List.length_singleton, h.bpos_eq]; omega)
  refine ⟨{ p with buf := (p.buf.write p.bpos bs).write (p.bpos + bs.length) [0], bpos := p.bpos + bs.length }, ?_, ?_, ?_, ?_⟩
  · rw [Printbuf.push, hfirst]
    exact hsecond
  · have hbs : (p.buf.write p.bpos bs).Has 0 (text ++ bs) := by
      rw [Image.has_append, Nat.zero_add, ← h.bpos_eq]
      exact ⟨h.has.write (.inl (by rw [Nat.zero_add, h.bpos_eq])), Image.has_write ..⟩
    exact ⟨hbs.write (.inl (by simp [h.bpos_eq])), by simp [h.bpos_eq], by simp only [h.bpos_eq]; omega, h.size_pos⟩
  · simp only [h.bpos_eq]
    omega
  · exact Image.write_inside (i := 0) (by simp)

/-- Bytes are appended and the text is terminated. -/
theorem memappend_spec (h : HoldsText p text) (hfit : (text ++ bs).length ≤ maxText) :
    ∃ p', printbufMemappend p bs = some p' ∧ HoldsText p' (text ++ bs) ∧ Terminated p' := by
  rw [List.length_append] at hfit
  have hint : p.bpos + bs.length + 1 ≤ intMax := by
    rw [h.bpos_eq]
    unfold maxText at hfit
    unfold intMax
    omega
  by_cases hfull : p.size ≤ p.bpos + bs.length + 1
  · obtain ⟨size, hextend, hmin, hsize⟩ := extend_spec p (p.bpos + bs.length + 1) (by rw [h.bpos_eq]; omega)
    have hgrown : HoldsText { p with size := size } text := ⟨h.has, h.bpos_eq, h.bpos_le.trans hsize, h.size_pos.trans_le hsize⟩
    obtain ⟨p', happend, hp'⟩ := push_spec hgrown bs (by rw [h.bpos_eq] at hmin; exact hmin)
    refine ⟨p', ?_, hp'⟩
    simp [printbufMemappend, hint, hfull, hextend, happend]
  · obtain ⟨p', happend, hp'⟩ := push_spec h bs (by rw [h.bpos_eq] at hfull; omega)
    refine ⟨p', ?_, hp'⟩
    simp [printbufMemappend, hint, hfull, happend]

/-- The fast way appends as the other one does. -/
theorem memappendFast_spec (h : HoldsText p text) (hfit : (text ++ bs).length ≤ maxText) :
    ∃ p', printbufMemappendFast p bs = some p' ∧ HoldsText p' (text ++ bs) ∧ Terminated p' := by
  by_cases hroom : (bs.length : Int) < (p.size : Int) - p.bpos
  · obtain ⟨p', happend, hp'⟩ := push_spec h bs (by rw [h.bpos_eq] at hroom; omega)
    exact ⟨p', by rw [printbufMemappendFast, if_pos hroom, happend], hp'⟩
  · rw [printbufMemappendFast, if_neg hroom]
    exact memappend_spec h hfit

/-- A part of what stands in memory. -/
theorem has_take {m : Image} (h : m.Has 0 text) (n : Nat) : m.Has 0 (text.take n) := by
  rw [← List.take_append_drop n text, Image.has_append] at h
  exact h.1

/-- Memory that has a text has the rest of it. -/
theorem has_drop {m : Image} (h : m.Has 0 text) {n : Nat} (hn : n ≤ text.length) : m.Has n (text.drop n) := by
  rw [← List.take_append_drop n text, Image.has_append, List.length_take_of_le hn, Nat.zero_add] at h
  exact h.2

/-- A range of the text, or behind it, is set. -/
theorem memset_spec {offset : Nat} (h : HoldsText p text) (hoff : offset ≤ text.length) (charvalue : UInt8) (len : Nat)
    (hfit : (text.take offset ++ List.replicate len charvalue ++ text.drop (offset + len)).length ≤ maxText) (start : Option Nat)
    (hstart : start.getD p.bpos = offset) :
    ∃ p', printbufMemset p start charvalue len = some p' ∧
      HoldsText p' (text.take offset ++ List.replicate len charvalue ++ text.drop (offset + len)) := by
  have hlen : (text.take offset ++ List.replicate len charvalue ++ text.drop (offset + len)).length =
      max text.length (offset + len) := by
    simp only [List.length_append, List.length_take, List.length_replicate, List.length_drop]
    omega
  rw [hlen] at hfit
  have hint : offset + len ≤ intMax := by
    unfold maxText at hfit
    unfold intMax
    omega
  -- the block is large enough, or made so
  obtain ⟨size, hset, hneed, hsize⟩ : ∃ size,
      printbufMemset p start charvalue len =
      (({ p with size := size } : Printbuf).store offset (List.replicate len charvalue)).bind (fun p =>
        some (if p.bpos < offset + len then { p with bpos := offset + len } else p)) ∧ offset + len ≤ size ∧ p.size ≤ size := by
    by_cases hsmall : p.size < offset + len
    · obtain ⟨size, hextend, hmin, hsize⟩ := extend_spec p (offset + len) (by omega)
      exact ⟨size, by simp [printbufMemset, hstart, hint, hsmall, hextend], hmin, hsize⟩
    · exact ⟨p.size, by simp [printbufMemset, hstart, hint, hsmall], by omega, Nat.le_refl _⟩
  have hstore := store_eq (p := { p with size := size }) offset (List.replicate len charvalue) (by simpa using hneed)
  have hbpos : (if p.bpos < offset + len then offset + len else p.bpos) = max text.length (offset + len) := by
    rw [h.bpos_eq]
    split <;> omega
  refine ⟨{ buf := p.buf.write offset (List.replicate len charvalue), bpos := max text.length (offset + len), size := size },
    ?_, ?_⟩
  · rw [hset, hstore, ← hbpos, Option.bind_some]
    split <;> rfl
  · refine ⟨?_, hlen.symm, ?_, h.size_pos.trans_le hsize⟩
    · rw [Image.has_append, Image.has_append]
      simp only [List.length_append, List.length_take_of_le hoff, List.length_replicate, Nat.zero_add]
      refine ⟨⟨(has_take h.has offset).write (.inl (by simp [List.length_take_of_le hoff])), Image.has_write ..⟩, ?_⟩
      by_cases hend : offset + len ≤ text.length
      · exact (has_drop h.has hend).write (.inr (by simp))
      · rw [List.drop_eq_nil_of_le (by omega)]
        exact Image.has_nil ..
    · have hle := h.bpos_le
      rw [h.bpos_eq] at hle
      simp only
      omega

/-- A reset leaves the empty text. -/
theorem reset_spec (h : HoldsText p text) : ∃ p', printbufReset p = some p' ∧ HoldsText p' [] ∧ Terminated p' := by
  have hstore := store_eq (p := p) 0 [0] (Nat.succ_le_of_lt h.size_pos)
  refine ⟨{ p with buf := p.buf.write 0 [0], bpos := 0 }, ?_, ?_, h.size_pos, ?_⟩
  · simp [printbufReset, hstore]
  · exact ⟨Image.has_nil .., rfl, Nat.zero_le _, h.size_pos⟩
  · have hnul : p.buf.write 0 [0] (0 + 0) = 0 := Image.write_inside Nat.one_pos
    exact hnul

/-- A text that fits is left as it is. -/
theorem fitText_eq_some {text text' : List UInt8} (h : fitText text = some text') : text.length ≤ maxText ∧ text' = text := by
  unfold fitText at h
  split at h
  · exact ⟨‹_›, (Option.some.inj h).symm⟩
  · cases h

/-- One call makes of the text what it is for. -/
theorem step_spec (h : HoldsText p text) {call : PrintbufCall} {text' : List UInt8} (hstep : textStep text call = some text') :
    ∃ p', printbufStep p call = some p' ∧ HoldsText p' text' ∧ (call.terminates = true → Terminated p') := by
  cases call with
  | memappend bs =>
    obtain ⟨hfit, rfl⟩ := fitText_eq_some hstep
    obtain ⟨p', happend, hholds, hterm⟩ := memappend_spec h hfit
    exact ⟨p', happend, hholds, fun _ => hterm⟩
  | memappendFast bs =>
    obtain ⟨hfit, rfl⟩ := fitText_eq_some hstep
    obtain ⟨p', happend, hholds, hterm⟩ := memappendFast_spec h hfit
    exact ⟨p', happend, hholds, fun _ => hterm⟩
  | memset offset charvalue len =>
    rw [textStep] at hstep
    split at hstep
    · obtain ⟨hfit, rfl⟩ := fitText_eq_some hstep
      obtain ⟨p', hset, hholds⟩ := memset_spec h ‹_› charvalue len hfit offset (by rw [h.bpos_eq])
      exact ⟨p', hset, hholds, (by rintro ⟨⟩)⟩
    · cases hstep
  | sprintbuf bs =>
    obtain ⟨hfit, rfl⟩ := fitText_eq_some hstep
    obtain ⟨p', happend, hholds, hterm⟩ := memappend_spec h hfit
    exact ⟨p', happend, hholds, fun _ => hterm⟩
  | reset =>
    obtain rfl := Option.some.inj hstep
    obtain ⟨p', hreset, hholds, hterm⟩ := reset_spec h
    exact ⟨p', hreset, hholds, fun _ => hterm⟩

/-- A run of calls holds the text that the calls make, terminated if the last call terminates it. -/
theorem run_spec (h : HoldsText p text) (calls : List PrintbufCall) {text' : List UInt8}
    (hrun : calls.foldlM textStep text = some text') : ∃ p', calls.foldlM printbufStep p = some p' ∧ HoldsText p' text' ∧
      ∀ call, calls.getLast? = some call → call.terminates = true → Terminated p' := by
  induction calls generalizing p text with
  | nil =>
    obtain rfl := Option.some.inj hrun
    exact ⟨p, rfl, h, (by simp)⟩
  | cons call calls ih =>
    obtain ⟨text1, hstep, hrest⟩ := Option.bind_eq_some_iff.mp hrun
    obtain ⟨p1, hstep1, h1, hterm1⟩ := step_spec h hstep
    obtain ⟨p', hrun', h', hterm'⟩ := ih h1 hrest
    refine ⟨p', by rw [List.foldlM_cons, hstep1]; exact hrun', h', fun last hlast hends => ?_⟩
    cases calls with
    | nil =>
      cases hlast
      obtain rfl := Option.some.inj hrun'
      exact hterm1 hends
    | cons call' calls => exact hterm' last (by rwa [List.getLast?_cons_cons] at hlast) hends

end Pixel845.Json
