import Pixel845.Datatop.Lines
import Pixel845.Lib.Split

/-!
# Helpers: the lines that are read

The loop of the pollers as a function of the read buffer: `cutLines` are the lines it cuts out, one behind the other, and
`Vars.store` puts them into the line buffers (`readLinesLoop_run`). Of a file whose lines fit, the lines cut out are its lines
(`cutLines_eq`).
-/

namespace Pixel845.Datatop

/-! ## The loop -/

/-- The line at an offset of the read buffer, or none if the offset lies behind the buffer. -/
def cutLine (m : Image) (lineSize size start : Nat) : Option (List UInt8) :=
  if lineSize < 1 ∨ size < 1 ∨ size < start then none
  else some (((m.read start (size - start)).take (lineSize - 1)).takeWhile (· != 10))

/-- The length of a line: a line that was not read has none. -/
def lineLen (l : Option (List UInt8)) : Nat := (l.getD []).length

/-- The lines cut out of the read buffer from an offset on. -/
def cutLines (m : Image) (lineSize size : Nat) : Nat → Nat → List (Option (List UInt8))
  | 0, _ => []
  | k + 1, start =>
    let l := cutLine m lineSize size start
    l :: cutLines m lineSize size k (start + (lineLen l + 1))

/-- A line buffer after a line was read into it. -/
def storeLine (b : Image) (l : Option (List UInt8)) : Image := l.elim b fun l => b.write 0 (l ++ [0])

/-- The line buffers after lines were read into them. -/
def Vars.store (vars : Vars) (arr : Nat → BufId) (n : Nat) : List (Option (List UInt8)) → Vars
  | [] => vars
  | l :: ls => (vars.setBuf (arr n) (storeLine (vars.buf (arr n)) l)).store arr (n + 1) ls

variable {m : Image} {arr : Nat → BufId} {vars : Vars} {lineSize size : Nat}

/-- Reading a line stores the one that is cut out. -/
theorem readLine_run (b : Image) (m : Image) (lineSize size start : Nat) :
    (readLine b lineSize size start).run m.load =
      (storeLine b (cutLine m lineSize size start), lineLen (cutLine m lineSize size start)) := by
  rw [readLine, cutLine]
  split
  · rfl
  · simp only [Prog.run_bind, Prog.pure_eq, Prog.run_ret, readLineLoop_run]
    rfl

/-- The loop stores the lines that are cut out and answers with their lengths. -/
theorem readLinesLoop_run (k n start : Nat) (vars : Vars) :
    (readLinesLoop arr size k n start vars).run m.load =
      (vars.store arr n (cutLines m vars.lineSize size k start), (cutLines m vars.lineSize size k start).map lineLen) := by
  induction k generalizing n start vars with
  | zero => rfl
  | succ k ih =>
    rw [readLinesLoop]
    simp only [Prog.run_bind, readLine_run, Prog.pure_eq, Prog.run_ret, ih, Vars.setBuf_lineSize]
    rfl

@[simp] theorem cutLines_length (m : Image) (lineSize size k start : Nat) :
    (cutLines m lineSize size k start).length = k := by
  induction k generalizing start with
  | zero => rfl
  | succ k ih => simp [cutLines, ih]

@[simp] theorem Vars.store_lineSize (vars : Vars) (arr : Nat → BufId) (n : Nat) (ls : List (Option (List UInt8))) :
    (vars.store arr n ls).lineSize = vars.lineSize := by
  induction ls generalizing vars n with
  | nil => rfl
  | cons l ls ih => rw [Vars.store, ih, Vars.setBuf_lineSize]

@[simp] theorem Vars.store_lineCount (vars : Vars) (arr : Nat → BufId) (n : Nat) (ls : List (Option (List UInt8))) :
    (vars.store arr n ls).lineCount = vars.lineCount := by
  induction ls generalizing vars n with
  | nil => rfl
  | cons l ls ih => rw [Vars.store, ih, Vars.setBuf_lineCount]

/-- A buffer that no line is read into keeps what it holds. -/
theorem Vars.store_buf_of_ne {id : BufId} {n : Nat} {ls : List (Option (List UInt8))}
    (h : ∀ i, n ≤ i → i < n + ls.length → arr i ≠ id) : (vars.store arr n ls).buf id = vars.buf id := by
  induction ls generalizing vars n with
  | nil => rfl
  | cons l ls ih =>
    simp only [List.length_cons] at h
    rw [Vars.store, ih (fun i hi hi' => h i (by omega) (by omega)), Vars.setBuf_buf,
      Function.update_of_ne (h n (by omega) (by omega)).symm]

variable (vars) in
/-- The buffer of a line. -/
theorem Vars.store_buf (hinj : Function.Injective arr) {n i : Nat} {ls : List (Option (List UInt8))} {l : Option (List UInt8)}
    (h : ls[i]? = some l) : (vars.store arr n ls).buf (arr (n + i)) = storeLine (vars.buf (arr (n + i))) l := by
  induction ls generalizing vars n i with
  | nil => simp at h
  | cons l' ls ih =>
    rw [Vars.store]
    cases i with
    | zero =>
      simp only [List.getElem?_cons_zero, Option.some.injEq] at h
      have hne : ∀ i, n + 1 ≤ i → i < n + 1 + ls.length → arr i ≠ arr n := by
        intro i hi _ heq
        have := hinj heq
        omega
      rw [Nat.add_zero n, Vars.store_buf_of_ne hne, Vars.setBuf_buf, h]
      exact Function.update_self ..
    | succ i =>
      rw [List.getElem?_cons_succ] at h
      have hne : arr (n + (i + 1)) ≠ arr n := by
        intro heq
        have := hinj heq
        omega
      have hi := ih (vars.setBuf (arr n) (storeLine (vars.buf (arr n)) l')) (n := n + 1) h
      rw [show n + 1 + i = n + (i + 1) by omega] at hi
      rw [hi, Vars.setBuf_buf, Function.update_of_ne hne]

/-! ## Lines of a file -/

/-- A text with a newline is its first line, the newline and the rest. -/
theorem exists_line {s : List UInt8} (h : 0 < s.count 10) :
    ∃ l rest, s = l ++ 10 :: rest ∧ 10 ∉ l ∧ s.count 10 = rest.count 10 + 1 := by
  obtain ⟨l, rest, rfl, hl⟩ := List.eq_append_cons_of_mem (List.count_pos_iff.mp h)
  refine ⟨l, rest, rfl, hl, ?_⟩
  rw [List.count_append, List.count_eq_zero.mpr hl, List.count_cons_self]
  omega

/-- What is cut out at the start of a line is the line, as far as it fits. -/
theorem cutLine_eq {start : Nat} {l rest : List UInt8} (hm : m.Has start (l ++ 10 :: rest)) (hl : 10 ∉ l)
    (hsize : start + l.length < size) (hline : 1 ≤ lineSize) :
    cutLine m lineSize size start = some (l.take (lineSize - 1)) := by
  have hread : m.read start (size - start) = l ++ 10 :: m.read (start + l.length + 1) (size - start - (l.length + 1)) := by
    rw [List.append_cons, Image.has_append] at hm
    have h := hm.1
    rw [Image.Has, List.length_append, List.length_singleton] at h
    have hn : size - start = l.length + 1 + (size - start - (l.length + 1)) := by omega
    rw [hn, Image.read_add, h, ← hn, List.append_assoc, Nat.add_assoc]
    rfl
  have htake : ∀ (l : List UInt8) (n : Nat) (t : List UInt8), 10 ∉ l → ((l ++ 10 :: t).take n).takeWhile (· != 10) =
      l.take n := by
    intro l
    induction l with
    | nil =>
      intro n t _
      cases n <;> simp
    | cons c l ih =>
      intro n t hc
      cases n with
      | zero => simp
      | succ n =>
        have hne : (c != 10) = true := by
          rw [bne_iff_ne]
          rintro rfl
          exact hc List.mem_cons_self
        rw [List.cons_append, List.take_succ_cons, List.takeWhile_cons, hne, List.take_succ_cons, if_pos rfl,
          ih n t fun hm => hc (List.mem_cons_of_mem c hm)]
  have hguard : ¬(lineSize < 1 ∨ size < 1 ∨ size < start) := by omega
  rw [cutLine, if_neg hguard, hread, htake l _ _ hl]

/-- Of a text whose lines fit, its lines are cut out. -/
theorem cutLines_eq {k start : Nat} {s : List UInt8} (hm : m.Has start s) (hsize : start + s.length ≤ size)
    (hline : 1 ≤ lineSize) (hk : k ≤ s.count 10) (hfit : ∀ l ∈ (s.splitOn 10).take k, l.length ≤ lineSize - 1) :
    cutLines m lineSize size k start = ((s.splitOn 10).take k).map some := by
  induction k generalizing start s with
  | zero => rfl
  | succ k ih =>
    obtain ⟨l, rest, rfl, hl, hcount⟩ := exists_line (s := s) (by omega)
    rw [List.splitOn_append_cons_self_of_not_mem hl, List.take_succ_cons] at hfit ⊢
    have hlen : l.length ≤ lineSize - 1 := hfit l List.mem_cons_self
    have hcut : cutLine m lineSize size start = some l := by
      rw [cutLine_eq hm hl (by simp only [List.length_append, List.length_cons] at hsize; omega) hline,
        List.take_of_length_le hlen]
    have hrest : m.Has (start + (l.length + 1)) rest := by
      rw [List.append_cons, Image.has_append] at hm
      simpa using hm.2
    simp only [List.length_append, List.length_cons] at hsize
    have hind := ih hrest (by omega) (by omega) (fun l' hl' => hfit l' (List.mem_cons_of_mem l hl'))
    rw [cutLines, hcut]
    simp only [lineLen, Option.getD_some, hind, List.map_cons]

/-- The offset at which the line with some number is cut out. -/
def lineStart (lines : List (Option (List UInt8))) (b : Nat) : Nat := ((lines.take b).map fun l => lineLen l + 1).sum

/-- A line starts behind the one before and its newline. -/
theorem lineStart_succ {lines : List (Option (List UInt8))} {b : Nat} {l : Option (List UInt8)} (h : lines[b]? = some l) :
    lineStart lines (b + 1) = lineStart lines b + (lineLen l + 1) := by
  rw [lineStart, lineStart, List.take_add_one, h, Option.toList_some, List.map_append, List.sum_append, List.map_singleton,
    List.sum_singleton]

/-- A line that is read starts in the buffer. -/
theorem lineStart_le {k start b : Nat} {t : List UInt8} (h : (cutLines m lineSize size k start)[b]? = some (some t)) :
    start + lineStart (cutLines m lineSize size k start) b ≤ size := by
  induction k generalizing start b with
  | zero => simp [cutLines] at h
  | succ k ih =>
    rw [cutLines] at h ⊢
    cases b with
    | zero =>
      simp only [List.getElem?_cons_zero, Option.some.injEq] at h
      rw [cutLine] at h
      split at h
      · cases h
      · simp only [lineStart, List.take_zero, List.map_nil, List.sum_nil]
        omega
    | succ b =>
      have hrec := ih (by simpa using h)
      simp only [lineStart, List.take_succ_cons, List.map_cons, List.sum_cons] at hrec ⊢
      omega

/-- No line that is read is longer than its buffer allows. -/
theorem lineLen_le {start : Nat} {l : Option (List UInt8)} {k : Nat} (h : l ∈ cutLines m lineSize size k start) :
    lineLen l ≤ lineSize - 1 := by
  induction k generalizing start with
  | zero => simp [cutLines] at h
  | succ k ih =>
    rw [cutLines] at h
    rcases List.mem_cons.mp h with rfl | h
    · rw [cutLine]
      split
      · simp [lineLen]
      · rw [← readLineLoop_run]
        exact readLineLoop_length_le ..
    · exact ih h

/-- A line that is read leaves room for its terminator. -/
theorem length_lt_of_mem {start : Nat} {l : List UInt8} {k : Nat} (h : some l ∈ cutLines m lineSize size k start) :
    l.length < lineSize := by
  have hle : l.length ≤ lineSize - 1 := lineLen_le h
  have hpos : 1 ≤ lineSize := by
    induction k generalizing start with
    | zero => simp [cutLines] at h
    | succ k ih =>
      rw [cutLines] at h
      rcases List.mem_cons.mp h with h | h
      · rw [cutLine] at h
        split at h
        · cases h
        · omega
      · exact ih h
  omega

/-- The buffers of an array after lines were read into it. -/
theorem Vars.store_buf_join (harr : Function.Injective arr) (ls : List (Option (List UInt8))) (n : Nat) :
    (vars.store arr 0 ls).buf (arr n) = storeLine (vars.buf (arr n)) (ls[n]?).join := by
  cases h : ls[n]? with
  | none =>
    rw [Vars.store_buf_of_ne fun i _ hi heq => ?_]
    · rfl
    · have := harr heq
      have := List.getElem?_eq_none_iff.mp h
      omega
  | some l =>
    have hbuf := Vars.store_buf vars harr (n := 0) h
    rwa [Nat.zero_add] at hbuf

/-- Reading lines that fit reads nothing behind the text. -/
theorem readLinesLoop_inBounds {k n start : Nat} {s : List UInt8} {vars : Vars} (hm : m.Has start s)
    (hsize : start + s.length ≤ size) (hline : 1 ≤ vars.lineSize) (hk : k ≤ s.count 10)
    (hfit : ∀ l ∈ (s.splitOn 10).take k, l.length ≤ vars.lineSize - 1) :
    (readLinesLoop arr size k n start vars).InBounds m (start + s.length) := by
  induction k generalizing n start s vars with
  | zero => simp [readLinesLoop]
  | succ k ih =>
    obtain ⟨l, rest, rfl, hl, hcount⟩ := exists_line (s := s) (by omega)
    rw [List.splitOn_append_cons_self_of_not_mem hl, List.take_succ_cons] at hfit
    have hlen : l.length ≤ vars.lineSize - 1 := hfit l List.mem_cons_self
    simp only [List.length_append, List.length_cons] at hsize
    have hcut : cutLine m vars.lineSize size start = some l := by
      rw [cutLine_eq hm hl (by omega) hline, List.take_of_length_le hlen]
    have hrest : m.Has (start + (l.length + 1)) rest := by
      rw [List.append_cons, Image.has_append] at hm
      simpa using hm.2
    have hline' : 1 ≤ (vars.setBuf (arr n) (storeLine (vars.buf (arr n)) (some l))).lineSize := hline
    have hind := ih (n := n + 1) hrest (by omega) hline' (by omega) (fun l' hl' => hfit l' (List.mem_cons_of_mem l hl'))
    intro ld hld
    simp only [readLinesLoop, Prog.trace_bind, readLine_run, hcut, lineLen, Option.getD_some, Prog.pure_eq, Prog.trace_ret,
      List.append_nil, List.mem_append] at hld
    rcases hld with hld | hld
    · have hguard : ¬(vars.lineSize < 1 ∨ size < 1 ∨ size < start) := by omega
      rw [readLine, if_neg hguard] at hld
      simp only [Prog.trace_bind, Prog.pure_eq, Prog.trace_ret, List.append_nil] at hld
      have hld' := readLineLoop_loads _ _ _ _ ld hld
      have hrun : (readLineLoop size (vars.lineSize - 1) start).run m.load = l := by
        rw [cutLine, if_neg hguard, ← readLineLoop_run] at hcut
        exact Option.some.inj hcut
      rw [hrun] at hld'
      simp only [List.length_append, List.length_cons]
      omega
    · have h := hind ld hld
      simp only [List.length_append, List.length_cons]
      omega

/-- No more lines are counted than there are newlines. -/
theorem getFileLineAmount_le (content : List UInt8) : getFileLineAmount content ≤ content.count 10 :=
  (List.takeWhile_sublist _).count_le 10

/-- A content that fits stands at the start of the read buffer. -/
theorem readFile_has {content : List UInt8} {size : Nat} (hfit : content.length ≤ size) (rest : Image) :
    (readFile content size rest).Has 0 content := by
  rw [readFile, List.take_of_length_le hfit]
  exact Image.has_write rest 0 content

/-- Of a file whose lines fit, its lines are cut out. -/
theorem cutLines_ended {texts : List (List UInt8)} {lineSize size k : Nat} (hplain : ∀ t ∈ texts, 10 ∉ t)
    (hfits : ∀ t ∈ texts, t.length < lineSize) (hsize : (texts.flatMap (· ++ [10])).length ≤ size) (hk : k = texts.length)
    (rest : Image) :
    cutLines (readFile (texts.flatMap (· ++ [10])) size rest) lineSize size k 0 = texts.map some := by
  cases texts with
  | nil =>
    rw [hk]
    rfl
  | cons t texts =>
    have hpos := hfits t List.mem_cons_self
    have htake : (((t :: texts).flatMap (· ++ [10])).splitOn 10).take k = t :: texts := by
      rw [splitOn_ended hplain, hk, List.take_left]
    rw [cutLines_eq (readFile_has hsize rest) (by omega) (by omega) (by rw [count_ended_of_not_mem hplain]; omega), htake]
    intro l hl
    rw [htake] at hl
    have := hfits l hl
    omega

end Pixel845.Datatop
