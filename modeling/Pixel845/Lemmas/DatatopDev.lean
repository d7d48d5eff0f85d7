import Pixel845.Datatop.Dev
import Pixel845.Lemmas.DatatopStr
import Pixel845.Lemmas.DatatopStore
import Mathlib.Data.List.Forall2

/-!
# Helpers: the lines of /proc/net/dev

`dt_dev_parse` by the text of its line: the words behind the colon are the counters (`devTexts`), whatever line was read. A line
of an interface is a value of its own, `DevLine`; its counters are those of its text.
-/

namespace Pixel845.Datatop

/-! ## Words -/

theorem length_tail_dropWhile_lt (p : UInt8 → Bool) (c : UInt8) (s : List UInt8) :
    (((c :: s).dropWhile p).tail).length < (c :: s).length := by
  have h := (List.dropWhile_suffix p (l := c :: s)).length_le
  rw [List.length_tail]
  simp only [List.length_cons] at h ⊢
  omega

/-- The words of a text: blanks are skipped, and a word goes to the next blank or terminator. -/
def counterTexts : List UInt8 → List (List UInt8)
  | [] => []
  | c :: s =>
    if isBlank c then counterTexts s
    else (c :: s).takeWhile (!endsCounter ·) :: counterTexts ((c :: s).dropWhile (!endsCounter ·)).tail
termination_by s => s.length
decreasing_by
  · exact Nat.lt_succ_self _
  · exact length_tail_dropWhile_lt ..

/-- What `dt_dev_parse` looks at: it starts one byte behind the one behind the colon. A line without a colon is all counters. -/
def behindColon (t : List UInt8) : List UInt8 := if 58 ∈ t then (t.dropWhile (· != 58)).drop 2 else t

/-- The counters of a line. -/
def devTexts (t : List UInt8) : List (List UInt8) := counterTexts (behindColon t)

/-- A word of a line of `len` bytes, from its start to its end. -/
structure IsCounter (m : Image) (len : Nat) (w : Nat × Nat) (text : List UInt8) : Prop where
  ends : w.1 + text.length = w.2
  le : w.2 ≤ len
  has : m.Has w.1 text
  plain : ∀ c ∈ text, endsCounter c = false
  stop : endsCounter (m w.2) = true

theorem counterTexts_nil : counterTexts [] = [] := by rw [counterTexts]

theorem counterTexts_blank {c : UInt8} (s : List UInt8) (h : isBlank c = true) : counterTexts (c :: s) = counterTexts s := by
  rw [counterTexts, if_pos h]

/-- A word in front is a counter. -/
theorem counterTexts_word {c : UInt8} (s : List UInt8) (h : isBlank c = false) :
    counterTexts (c :: s) = (c :: s).takeWhile (!endsCounter ·) :: counterTexts ((c :: s).dropWhile (!endsCounter ·)).tail := by
  rw [counterTexts, h, if_neg (by simp)]

/-- Behind the line nothing is found. -/
theorem devWords_behind (m : Image) {size len : Nat} (fuel : Nat) {j : Nat} (hj : len ≤ j) :
    devWords m size len fuel j = some [] := by
  cases fuel with
  | zero => rfl
  | succ fuel => rw [devWords, if_neg (by omega)]

/-- The words found from an offset on are those of the text there. -/
theorem devWords_texts {m : Image} {size len : Nat} (fuel : Nat) {j : Nat} {s : List UInt8} (hm : m.Has j (s ++ [0]))
    (hlen : j + s.length = len) (hsize : len < size) (hfuel : s.length ≤ fuel) :
    ∃ ws, devWords m size len fuel j = some ws ∧ List.Forall₂ (IsCounter m len) ws (counterTexts s) := by
  induction fuel generalizing j s with
  | zero =>
    obtain rfl : s = [] := List.length_eq_zero_iff.mp (by omega)
    exact ⟨[], rfl, by rw [counterTexts_nil]; exact .nil⟩
  | succ fuel ih =>
    cases s with
    | nil => exact ⟨[], devWords_behind m _ (by simpa using hlen.ge), by rw [counterTexts_nil]; exact .nil⟩
    | cons c s =>
      rw [List.length_cons] at hlen hfuel
      obtain ⟨hc, hs⟩ := Image.has_cons.mp (List.cons_append ▸ hm)
      rw [devWords, if_pos (by omega), hc]
      by_cases hblank : isBlank c = true
      · rw [if_pos hblank, counterTexts_blank s hblank]
        exact ih hs (by omega) (by omega)
      · rw [if_neg hblank, counterTexts_word s (by simpa using hblank)]
        -- The word, and what stands behind it: the end of the line, or a blank or terminator in it.
        have hsplit := List.takeWhile_append_dropWhile (p := (!endsCounter ·)) (l := c :: s)
        have hplain : ∀ x ∈ (c :: s).takeWhile (!endsCounter ·), endsCounter x = false := by
          intro x hx
          simpa using List.mem_takeWhile_imp hx
        generalize (c :: s).takeWhile (!endsCounter ·) = w at hsplit hplain ⊢
        have hstop : ∀ e r, (c :: s).dropWhile (!endsCounter ·) = e :: r → endsCounter e = true := by
          intro e r h
          have := List.head?_dropWhile_not (!endsCounter ·) (c :: s)
          rw [h] at this
          simpa using this
        generalize (c :: s).dropWhile (!endsCounter ·) = behind at hsplit hstop ⊢
        have hlength := congrArg List.length hsplit
        rw [List.length_append, List.length_cons] at hlength
        cases behind with
        | nil =>
          rw [List.append_nil] at hsplit
          rw [← hsplit] at hm
          have hnul := (Image.has_cons.mp (Image.has_append.mp hm).2).1
          rw [scanFor_has endsCounter _ hm hplain rfl (by simp at hlength; omega)]
          simp only [List.length_nil, Nat.add_zero] at hlength
          refine ⟨[(j, j + w.length)], ?_, .cons ⟨rfl, by simp only; omega, (Image.has_append.mp hm).1, hplain, ?_⟩ ?_⟩
          · simp [devWords_behind m fuel (show len ≤ j + w.length + 1 by omega)]
          · simp only [hnul]
            rfl
          · rw [List.tail_nil, counterTexts_nil]
            exact .nil
        | cons e r =>
          rw [List.length_cons] at hlength
          rw [← hsplit, List.append_assoc, List.cons_append] at hm
          have hend := hstop e r rfl
          rw [scanFor_has endsCounter _ hm hplain hend (by omega)]
          obtain ⟨hw, hrest⟩ := Image.has_append.mp hm
          obtain ⟨he, hrest⟩ := Image.has_cons.mp hrest
          obtain ⟨ws, hws, hforall⟩ := ih hrest (by omega) (by omega)
          refine ⟨(j, j + w.length) :: ws, ?_, .cons ⟨rfl, by simp only; omega, hw, hplain, by simp only [he, hend]⟩ hforall⟩
          simp [hws]

/-! ## One line -/

/-- The first place of a byte in a text. -/
theorem scanFor_byte {m : Image} {s : List UInt8} (c : UInt8) {i : Nat} (hm : m.Has i s) :
    scanFor (· == c) m s.length i = if c ∈ s then some (i + (s.takeWhile (· != c)).length) else none := by
  by_cases h : c ∈ s
  · obtain ⟨t, rest, rfl, ht⟩ := List.eq_append_cons_of_mem h
    rw [if_pos h, takeWhile_ne rest ht]
    refine scanFor_has _ _ hm (fun x hx => ?_) (by simp) (by simp)
    simpa using ne_of_not_mem ht x hx
  · rw [if_neg h]
    refine scanFor_none fun j hj hj' => ?_
    have hget := hm.getElem (i := j - i) (by omega)
    rw [show i + (j - i) = j by omega] at hget
    rw [hget, beq_eq_false_iff_ne]
    exact fun heq => h (heq ▸ List.getElem_mem _)

/-- Where a colon in a line is followed by a terminator. -/
def colonEnds (t : List UInt8) : List Nat := if 58 ∈ t then [(t.takeWhile (· != 58)).length + 1] else []

/-- A text without blanks and terminators is read as it stands, after terminators were written over some. -/
theorem cut_plain {m : Image} {ends : List Nat} {size off : Nat} {s : List UInt8} (hends : ∀ i ∈ ends, endsCounter (m i) = true)
    (hs : m.Has off s) (hplain : ∀ c ∈ s, endsCounter c = false) (hend : off + s.length ∈ ends ∨ m (off + s.length) = 0)
    (hsize : off + s.length < size) : (terminate m ends).cstr size off = s := by
  have hhas : (terminate m ends).Has off (s ++ [0]) := by
    refine terminate_has hs (fun i hi => ?_) hend
    by_contra hin
    have hget := hs.getElem (i := i - off) (by omega)
    rw [show off + (i - off) = i by omega] at hget
    have hstop := hends i hi
    rw [hget, hplain _ (List.getElem_mem _)] at hstop
    cases hstop
  refine hhas.cstr_plain (fun c hc => ?_) hsize
  have h := hplain c hc
  rw [endsCounter, Bool.or_eq_false_iff, beq_eq_false_iff_ne] at h
  exact h.1

/-- The counters of a line are looked for behind the terminator that follows the colon. -/
theorem devWords_behindColon {m : Image} {size : Nat} {t : List UInt8} (hm : m.Has 0 (t ++ [0])) (hsize : t.length < size) :
    ∃ ws, devWords (terminate m (colonEnds t)) size t.length t.length
        ((scanFor (· == 58) m t.length 0).elim 0 (· + 2)) = some ws ∧
      List.Forall₂ (IsCounter (terminate m (colonEnds t)) t.length) ws (devTexts t) := by
  have hcolon := scanFor_byte 58 (Image.has_append.mp hm).1
  rw [Nat.zero_add] at hcolon
  rw [hcolon, devTexts, behindColon, colonEnds]
  by_cases h : 58 ∈ t
  · rw [if_pos h, if_pos h, if_pos h, Option.elim_some]
    obtain ⟨a, rest, rfl, ha⟩ := List.eq_append_cons_of_mem h
    rw [takeWhile_ne rest ha, dropWhile_ne rest ha, List.drop_succ_cons]
    rw [List.length_append, List.length_cons] at hsize ⊢
    cases rest with
    | nil => exact ⟨[], devWords_behind _ _ (by simp), by rw [List.drop_nil, counterTexts_nil]; exact .nil⟩
    | cons b rest =>
      rw [List.drop_succ_cons, List.drop_zero]
      rw [List.length_cons] at hsize ⊢
      rw [List.append_assoc, Image.has_append, List.cons_append, Image.has_cons, List.cons_append, Image.has_cons,
        Nat.zero_add] at hm
      refine devWords_texts _ (hm.2.2.2.congr fun i hi _ => ?_) (by omega) (by omega) (by omega)
      rw [terminate, if_neg (by rw [List.mem_singleton]; omega)]
  · rw [if_neg h, if_neg h, if_neg h, Option.elim_none, terminate_nil]
    exact devWords_texts _ hm (Nat.zero_add _) hsize (Nat.le_refl _)

/-- What `dt_dev_parse` makes of a line: a pointer to the first byte that is no blank, and one to each counter. Other texts of the
line that end at a terminator are read as they stand, too. -/
theorem devParse_text {m : Image} {size : Nat} {t : List UInt8} (index : Nat) (id : BufId) (dict : Dict) (hm : m.Has 0 (t ++ [0]))
    (hsize : t.length < size) (hindex : index < dictSize) :
    ∃ name ws m', scanFor (!isBlank ·) m size 0 = some name ∧
      devParse size m id t.length index dict =
        some (m', { dict with key := setFrom dict.key index [⟨id, name⟩], val := setFrom dict.val 0 (ws.map fun w => ⟨id, w⟩) }) ∧
      List.Forall₂ (fun w c => m'.cstr size w = c) ws (devTexts t) ∧
      ∀ off s, m.Has off s → (∀ c ∈ s, endsCounter c = false) → off + s.length ∈ colonEnds t → off + s.length < size →
        m'.cstr size off = s := by
  obtain ⟨hhas, hnul⟩ := Image.has_append.mp hm
  have hnul : m t.length = 0 := by
    have h := (Image.has_cons.mp hnul).1
    rwa [Nat.zero_add] at h
  obtain ⟨-, name, hname, -⟩ := scanFor_congr_until (!isBlank ·) (m := m) (n := size) (i := 0) (e := t.length)
    (fun _ _ _ => rfl) (by rw [hnul]; rfl) (Nat.zero_le _) (by omega)
  have hcolon := scanFor_byte 58 hhas
  rw [Nat.zero_add] at hcolon
  have hends : (scanFor (· == 58) m t.length 0).toList.map (· + 1) = colonEnds t := by
    rw [hcolon, colonEnds]
    split <;> rfl
  have hcut : terminate m (colonEnds t) t.length = 0 := by rw [terminate, hnul, ite_self]
  obtain ⟨ws, hws, hforall⟩ := devWords_behindColon hm hsize
  -- Every terminator that is written behind a word takes the place of a blank or of a terminator.
  have hstops : ∀ i ∈ (ws.map Prod.snd).filter (· < t.length), endsCounter (terminate m (colonEnds t) i) = true := by
    intro i hi
    obtain ⟨w, hw, rfl⟩ := List.mem_map.mp (List.mem_filter.mp hi).1
    obtain ⟨k, hk⟩ := List.mem_iff_getElem?.mp hw
    obtain ⟨hklt, hkeq⟩ := List.getElem?_eq_some_iff.mp hk
    have hword := hforall.get hklt (hforall.length_eq ▸ hklt)
    simp only [List.get_eq_getElem, hkeq] at hword
    exact hword.stop
  refine ⟨name, ws.map Prod.fst, terminate (terminate m (colonEnds t)) ((ws.map Prod.snd).filter (· < t.length)),
    hname, ?_, ?_, ?_⟩
  · rw [devParse, hname]
    simp only [Option.bind_eq_bind, Option.bind_some, if_neg (Nat.not_le.mpr hindex), hends, hws, Option.pure_def, List.map_map]
    rfl
  · rw [List.forall₂_map_left_iff]
    refine (List.forall₂_iff_zip.mpr ⟨hforall.length_eq, fun {w c} hmem => ?_⟩)
    have hword := (List.forall₂_iff_zip.mp hforall).2 hmem
    have hle := hword.le
    have hend := hword.ends
    refine cut_plain hstops hword.has hword.plain ?_ (by omega)
    rw [hend]
    by_cases hlt : w.2 < t.length
    · exact .inl (List.mem_filter.mpr ⟨List.mem_map.mpr ⟨w, (List.of_mem_zip hmem).1, rfl⟩, by simpa using hlt⟩)
    · rw [show w.2 = t.length by omega]
      exact .inr hcut
  · intro off s hs hplain hend hlt
    have hcolons : colonEnds t = [off + s.length] := by
      rw [colonEnds] at hend ⊢
      split
      case isTrue h =>
        rw [if_pos h, List.mem_singleton] at hend
        rw [hend]
      case isFalse h =>
        rw [if_neg h] at hend
        cases hend
    refine cut_plain hstops (hs.congr fun i _ hi => ?_) hplain (.inr ?_) hlt
    · rw [terminate, hcolons, if_neg (by rw [List.mem_singleton]; omega)]
    · rw [terminate, if_pos hend]

/-! ## Lines of interfaces -/

/-- A line `name: c0 .. c15`: blanks, the name, a colon and sixteen counters, each behind blanks. -/
structure DevLine where
  pad : List UInt8
  name : List UInt8
  counters : List (List UInt8 × List UInt8)
  pad_blank : ∀ c ∈ pad, isBlank c
  name_ne : name ≠ []
  name_plain : ∀ c ∈ name, isBlank c = false ∧ c ≠ 58 ∧ c ≠ 0 ∧ c ≠ 10
  counters_length : counters.length = 16
  gap_blank : ∀ x ∈ counters, x.1 ≠ [] ∧ ∀ c ∈ x.1, isBlank c
  counter_plain : ∀ x ∈ counters, x.2 ≠ [] ∧ ∀ c ∈ x.2, endsCounter c = false ∧ c ≠ 10

/-- Counters, each behind its blanks. -/
def counterText (counters : List (List UInt8 × List UInt8)) : List UInt8 := counters.flatMap fun x => x.1 ++ x.2

/-- The text of a line. -/
def DevLine.text (line : DevLine) : List UInt8 := line.pad ++ (line.name ++ 58 :: counterText line.counters)

/-- Blanks before a text are skipped. -/
theorem counterTexts_gap {gap : List UInt8} (s : List UInt8) (h : ∀ c ∈ gap, isBlank c = true) :
    counterTexts (gap ++ s) = counterTexts s := by
  induction gap with
  | nil => rfl
  | cons c gap ih =>
    rw [List.cons_append, counterTexts_blank _ (h c List.mem_cons_self), ih fun x hx => h x (List.mem_cons_of_mem c hx)]

/-- A word goes to the blank behind it. -/
theorem counterTexts_plain {c s : List UInt8} (hne : c ≠ []) (hc : ∀ x ∈ c, endsCounter x = false)
    (hs : s = [] ∨ ∃ b r, s = b :: r ∧ isBlank b = true) : counterTexts (c ++ s) = c :: counterTexts s := by
  obtain ⟨x, c, rfl⟩ := List.exists_cons_of_ne_nil hne
  have hx : isBlank x = false := by
    have h := hc x List.mem_cons_self
    rw [endsCounter, Bool.or_eq_false_iff] at h
    exact h.2
  have hall : ∀ y ∈ x :: c, (!endsCounter y) = true := fun y hy => by rw [hc y hy]; rfl
  rw [List.cons_append, counterTexts_word _ hx, ← List.cons_append]
  rcases hs with rfl | ⟨b, r, rfl, hb⟩
  · rw [List.append_nil, List.takeWhile_eq_self_iff.mpr hall, List.dropWhile_eq_nil_iff.mpr hall, List.tail_nil]
  · have hstop : endsCounter b = true := by rw [endsCounter, hb, Bool.or_true]
    rw [List.takeWhile_append_of_pos hall, List.dropWhile_append_of_pos hall, List.takeWhile_cons, List.dropWhile_cons, hstop,
      counterTexts_blank r hb]
    simp

/-- Counters behind their blanks are the words of their text. -/
theorem counterTexts_counterText {counters : List (List UInt8 × List UInt8)}
    (hgaps : ∀ x ∈ counters, x.1 ≠ [] ∧ ∀ c ∈ x.1, isBlank c)
    (hplain : ∀ x ∈ counters, x.2 ≠ [] ∧ ∀ c ∈ x.2, endsCounter c = false ∧ c ≠ 10) :
    counterTexts (counterText counters) = counters.map Prod.snd := by
  induction counters with
  | nil => exact counterTexts_nil
  | cons x counters ih =>
    have hrec := ih (fun y hy => hgaps y (List.mem_cons_of_mem x hy)) (fun y hy => hplain y (List.mem_cons_of_mem x hy))
    obtain ⟨hne, hc⟩ := hplain x List.mem_cons_self
    have hnext : counterText counters = [] ∨ ∃ b r, counterText counters = b :: r ∧ isBlank b = true := by
      cases counters with
      | nil => exact .inl rfl
      | cons y counters =>
        obtain ⟨hgap, hblank⟩ := hgaps y (List.mem_cons_of_mem x List.mem_cons_self)
        obtain ⟨b, r, hcons⟩ := List.exists_cons_of_ne_nil hgap
        exact .inr ⟨b, r ++ (y.2 ++ counterText counters), by simp [counterText, hcons], hblank b (by simp [hcons])⟩
    rw [show counterText (x :: counters) = x.1 ++ (x.2 ++ counterText counters) by simp [counterText],
      counterTexts_gap _ (hgaps x List.mem_cons_self).2, counterTexts_plain hne (fun c h => (hc c h).1) hnext, hrec,
      List.map_cons]

/-- Before the colon of a line stand its blanks and its name. -/
theorem DevLine.text_split (line : DevLine) :
    line.text = (line.pad ++ line.name) ++ 58 :: counterText line.counters ∧ 58 ∉ line.pad ++ line.name := by
  refine ⟨by simp [DevLine.text], fun h => ?_⟩
  rcases List.mem_append.mp h with h | h
  · exact absurd (line.pad_blank 58 h) (by decide)
  · exact (line.name_plain 58 h).2.1 rfl

/-- The counters of a line are those of its text. -/
theorem DevLine.devTexts_text (line : DevLine) : devTexts line.text = line.counters.map Prod.snd := by
  obtain ⟨htext, hno⟩ := line.text_split
  rw [← counterTexts_counterText line.gap_blank line.counter_plain, devTexts, behindColon, if_pos (by rw [htext]; simp), htext,
    dropWhile_ne _ hno, List.drop_succ_cons]
  cases hcons : line.counters with
  | nil => rfl
  | cons x counters =>
    obtain ⟨hgap, hblank⟩ := line.gap_blank x (by simp [hcons])
    obtain ⟨b, r, hb⟩ := List.exists_cons_of_ne_nil hgap
    have htext : counterText (x :: counters) = b :: (r ++ (x.2 ++ counterText counters)) := by simp [counterText, hb]
    rw [htext, List.drop_succ_cons, List.drop_zero, counterTexts_blank _ (hblank b (by simp [hb]))]

/-- A text is at least as long as its words are many. -/
theorem length_counterTexts (s : List UInt8) : (counterTexts s).length ≤ s.length := by
  induction hn : s.length using Nat.strong_induction_on generalizing s with
  | _ n ih =>
    cases s with
    | nil =>
      rw [counterTexts_nil]
      exact Nat.zero_le _
    | cons c s =>
      by_cases hblank : isBlank c = true
      · rw [counterTexts_blank s hblank]
        have := ih s.length (by rw [← hn]; exact Nat.lt_succ_self _) s rfl
        rw [List.length_cons] at hn
        omega
      · rw [counterTexts_word s (by simpa using hblank), List.length_cons]
        have hlt := length_tail_dropWhile_lt (!endsCounter ·) c s
        have := ih _ (hn ▸ hlt) _ rfl
        omega

theorem length_devTexts (t : List UInt8) : (devTexts t).length ≤ t.length := by
  refine Nat.le_trans (length_counterTexts _) ?_
  rw [behindColon]
  split
  · have h := (List.dropWhile_suffix (· != 58) (l := t)).length_le
    rw [List.length_drop]
    omega
  · exact Nat.le_refl _

/-- A line is not short. -/
theorem DevLine.text_length (line : DevLine) : 16 ≤ line.text.length := by
  have h := length_devTexts line.text
  rwa [line.devTexts_text, List.length_map, line.counters_length] at h

/-- What `dt_dev_parse` makes of the line of an interface: the name is read with its colon. -/
theorem devParse_line {line : DevLine} {m : Image} {size : Nat} (index : Nat) (id : BufId) (dict : Dict)
    (hm : m.Has 0 (line.text ++ [0])) (hsize : line.text.length < size) (hindex : index < dictSize) :
    ∃ dict' m', devParse size m id line.text.length index dict = some (m', dict') ∧
      dict'.key = setFrom dict.key index [⟨id, line.pad.length⟩] ∧ m'.cstr size line.pad.length = line.name ++ [58] := by
  obtain ⟨name, ws, m', hname, hparse, -, hread⟩ := devParse_text index id dict hm hsize hindex
  obtain ⟨htext, hno⟩ := line.text_split
  obtain ⟨n0, ns, hns⟩ := List.exists_cons_of_ne_nil line.name_ne
  have hpad : scanFor (!isBlank ·) m size 0 = some line.pad.length := by
    have hhas : m.Has 0 (line.pad ++ n0 :: (ns ++ 58 :: (counterText line.counters ++ [0]))) := by
      rw [htext] at hm
      simpa [hns] using hm
    have hlen := congrArg List.length htext
    rw [List.length_append, List.length_append] at hlen
    have h := scanFor_has (!isBlank ·) size hhas (fun x hx => by simp [line.pad_blank x hx])
      (by simp [(line.name_plain n0 (by simp [hns])).1]) (by omega)
    rwa [Nat.zero_add] at h
  obtain rfl := Option.some.inj (hname.symm.trans hpad)
  refine ⟨_, m', hparse, rfl, hread _ _ ?_ ?_ ?_ ?_⟩
  · rw [htext, List.append_assoc, List.append_assoc, Image.has_append, Nat.zero_add, List.cons_append, List.append_cons,
      Image.has_append] at hm
    exact hm.2.1
  · intro c hc
    rcases List.mem_append.mp hc with hc | hc
    · rw [endsCounter, (line.name_plain c hc).1, Bool.or_false, beq_eq_false_iff_ne]
      exact (line.name_plain c hc).2.2.1
    · rw [List.mem_singleton.mp hc]
      rfl
  · rw [colonEnds, if_pos (by rw [htext]; simp), htext, takeWhile_ne _ hno]
    simp [Nat.add_assoc]
  · have hlen := congrArg List.length htext
    rw [List.length_append, List.length_append, List.length_cons] at hlen
    rw [List.length_append, List.length_singleton]
    omega

/-! ## All lines -/

/-- The lines of interfaces stand in the line buffers, behind those of the header. -/
def Vars.HoldsDev (vars : Vars) (index : Nat) (lines : List DevLine) : Prop :=
  ∀ j line, lines[j]? = some line → (vars.buf (.line (index + j + 2))).Has 0 (line.text ++ [0]) ∧ line.text.length < vars.lineSize

/-- The lines behind the first one are untouched when it is parsed. -/
theorem Vars.HoldsDev.tail {vars : Vars} {index : Nat} {line : DevLine} {lines : List DevLine}
    (h : vars.HoldsDev index (line :: lines)) (b : Image) : (vars.setBuf (.line (index + 2)) b).HoldsDev (index + 1) lines := by
  intro j l hl
  have hid : BufId.line (index + 1 + j + 2) ≠ .line (index + 2) := by
    intro heq
    have := BufId.line.inj heq
    omega
  rw [Vars.setBuf_buf, Function.update_of_ne hid, show index + 1 + j + 2 = index + (j + 1) + 2 by omega]
  exact h (j + 1) l (by simpa using hl)

/-- A loop leaves the buffers before those of its lines. -/
def SameBefore (index : Nat) (vars vars' : Vars) : Prop :=
  vars'.lineSize = vars.lineSize ∧ vars'.lineCount = vars.lineCount ∧ ∀ k < index, vars'.buf (.line (k + 2)) =
    vars.buf (.line (k + 2))

/-- The strings in the lines before are the same. -/
theorem SameBefore.cstr {index k off : Nat} {vars vars' : Vars} (h : SameBefore index vars vars') (hk : k < index) :
    vars'.cstr ⟨.line (k + 2), off⟩ = vars.cstr ⟨.line (k + 2), off⟩ := by
  rw [Vars.cstr, Vars.cstr, h.2.2 k hk, h.1]

/-- Lines before this one are also before the next. -/
theorem SameBefore.of_succ {index : Nat} {vars vars' : Vars} {b : Image}
    (h : SameBefore (index + 1) (vars.setBuf (.line (index + 2)) b) vars') : SameBefore index vars vars' := by
  refine ⟨h.1, h.2.1, ?_⟩
  intro k hk
  have hid : BufId.line (k + 2) ≠ .line (index + 2) := by
    intro heq
    have := BufId.line.inj heq
    omega
  rw [h.2.2 k (by omega), Vars.setBuf_buf, Function.update_of_ne hid]

/-- The loop of the search: the name of each interface. -/
theorem devSearchLoop_lines {lines : List DevLine} {index : Nat} {vars : Vars} (dict : Dict) (hholds : vars.HoldsDev index lines)
    (hindex : index + lines.length ≤ dictSize) :
    ∃ vars' dict', devSearchLoop (lines.map (·.text.length)) index vars dict = some (vars', dict') ∧ SameBefore index vars vars' ∧
      (∀ k < index, dict'.key k = dict.key k) ∧
      ∀ j line, lines[j]? = some line → dict'.key (index + j) = some ⟨.line (index + j + 2), line.pad.length⟩ ∧
        vars'.cstr ⟨.line (index + j + 2), line.pad.length⟩ = line.name ++ [58] := by
  induction lines generalizing index vars dict with
  | nil => exact ⟨vars, dict, rfl, ⟨rfl, rfl, fun _ _ => rfl⟩, fun _ _ => rfl, fun j line h => by simp at h⟩
  | cons line lines ih =>
    rw [List.length_cons] at hindex
    obtain ⟨hhas, hsize⟩ := hholds 0 line rfl
    rw [Nat.add_zero] at hhas
    obtain ⟨dict1, m', hparse, hkey, hname⟩ := devParse_line index (.line (index + 2)) dict hhas hsize (by omega)
    obtain ⟨vars', dict', hloop, hsame, hkeep, hlines⟩ := ih dict1 (hholds.tail m') (by omega)
    refine ⟨vars', dict', ?_, hsame.of_succ, ?_, ?_⟩
    · simp only [List.map_cons, devSearchLoop, hparse, Option.bind_eq_bind, Option.bind_some, hloop]
    · intro k hk
      rw [hkeep k (by omega), hkey, setFrom, if_neg (show ¬index ≤ k by omega)]
    · intro j l hl
      cases j with
      | zero =>
        obtain rfl : line = l := by simpa using hl
        refine ⟨?_, ?_⟩
        · rw [Nat.add_zero, hkeep index (by omega), hkey]
          simp [setFrom]
        · rw [Nat.add_zero, hsame.cstr (by omega), Vars.cstr_setBuf_self, hname]
      | succ j =>
        have h := hlines j l (by simpa using hl)
        rwa [show index + 1 + j = index + (j + 1) by omega] at h

/-- The values of a dictionary are the counters of a line, in their order. -/
structure DevRead (vars : Vars) (id : BufId) (texts : List (List UInt8)) (dict : Dict) : Prop where
  set : ∀ i c, texts[i]? = some c → ∃ off, dict.val i = some ⟨id, off⟩ ∧ vars.cstr ⟨id, off⟩ = c
  unset : ∀ i, texts.length ≤ i → dict.val i = none

/-- The counters of a line that was read; a line that was not has none. -/
def pieceTexts (l : Option (List UInt8)) : List (List UInt8) := l.elim [] devTexts

/-- A line that was read into its buffer, or not, and was parsed. -/
theorem devParse_piece {vars : Vars} {id : BufId} {old m' : Image} {l : Option (List UInt8)} {index : Nat} {dict : Dict}
    (hbuf : vars.buf id = storeLine old l) (hfit : ∀ t, l = some t → t.length < vars.lineSize)
    (h : devParse vars.lineSize (vars.buf id) id (lineLen l) index .unset = some (m', dict)) :
    index < dictSize ∧ DevRead (vars.setBuf id m') id (pieceTexts l) dict := by
  have hindex : index < dictSize := by
    by_contra hge
    simp only [devParse, if_pos (Nat.not_lt.mp hge), Option.bind_eq_bind, Option.bind_eq_some_iff] at h
    obtain ⟨_, -, h⟩ := h
    cases h
  refine ⟨hindex, ?_⟩
  cases l with
  | none =>
    simp only [devParse, if_neg (Nat.not_le.mpr hindex), lineLen, Option.getD_none, List.length_nil, devWords,
      Option.bind_eq_bind, Option.bind_some, Option.bind_eq_some_iff, Option.pure_def, Option.some.injEq, Prod.mk.injEq,
      List.map_nil, setFrom_nil] at h
    obtain ⟨i, -, -, rfl⟩ := h
    exact ⟨fun i c hc => by simp [pieceTexts] at hc, fun _ _ => rfl⟩
  | some t =>
    have hhas : (vars.buf id).Has 0 (t ++ [0]) := by
      rw [hbuf]
      exact Image.has_write old 0 (t ++ [0])
    obtain ⟨name, ws, m1, -, hparse, hforall, -⟩ := devParse_text index id .unset hhas (hfit t rfl) hindex
    obtain ⟨rfl, rfl⟩ := Prod.mk.inj (Option.some.inj (hparse.symm.trans h))
    refine ⟨fun i c hc => ?_, fun i hi => ?_⟩
    · have hi : i < ws.length := by
        rw [hforall.length_eq]
        exact (List.getElem?_eq_some_iff.mp hc).1
      obtain ⟨hilt, hieq⟩ := List.getElem?_eq_some_iff.mp hc
      have hword := hforall.get hi hilt
      simp only [List.get_eq_getElem] at hword
      refine ⟨ws[i], by simp [setFrom, hi], ?_⟩
      rw [Vars.cstr_setBuf_self, hword]
      exact hieq
    · have hi : ws.length ≤ i := by rwa [hforall.length_eq]
      simp [setFrom, hi, Dict.unset]

/-- The loop of the poll: what it sets are the counters of the lines. -/
theorem devPollLoop_reads {ps : List (Option (List UInt8))} {index : Nat} {vars vars' : Vars} {dicts : List Dict}
    (hbuf : ∀ j l, ps[j]? = some l → ∃ old, vars.buf (.line (index + j + 2)) = storeLine old l)
    (hfit : ∀ t, some t ∈ ps → t.length < vars.lineSize) (h : devPollLoop (ps.map lineLen) index vars = some (vars', dicts)) :
    dicts.length = ps.length ∧ SameBefore index vars vars' ∧
      ∀ j l, ps[j]? = some l → index + j < dictSize ∧
        ∃ dict, dicts[j]? = some dict ∧ DevRead vars' (.line (index + j + 2)) (pieceTexts l) dict := by
  induction ps generalizing index vars dicts with
  | nil =>
    obtain ⟨rfl, rfl⟩ := Prod.mk.inj (Option.some.inj h)
    exact ⟨rfl, ⟨rfl, rfl, fun _ _ => rfl⟩, fun j l h => by simp at h⟩
  | cons l ps ih =>
    simp only [List.map_cons, devPollLoop, Option.bind_eq_bind, Option.bind_eq_some_iff, Option.pure_def, Option.some.injEq] at h
    obtain ⟨⟨m', dict⟩, hparse, ⟨vars1, dicts1⟩, hloop, heq⟩ := h
    obtain ⟨rfl, rfl⟩ := Prod.mk.inj heq
    obtain ⟨old, hold⟩ := hbuf 0 l rfl
    obtain ⟨hindex, hread⟩ := devParse_piece hold (fun t ht => hfit t (ht ▸ List.mem_cons_self)) hparse
    have hbuf' : ∀ j l, ps[j]? = some l → ∃ old, (vars.setBuf (.line (index + 2)) m').buf (.line (index + 1 + j + 2)) =
        storeLine old l := by
      intro j l hl
      have hne : BufId.line (index + 1 + j + 2) ≠ .line (index + 2) := by
        intro heq
        have := BufId.line.inj heq
        omega
      rw [Vars.setBuf_buf, Function.update_of_ne hne, show index + 1 + j + 2 = index + (j + 1) + 2 by omega]
      exact hbuf (j + 1) l (by simpa using hl)
    obtain ⟨hlen, hsame, hlines⟩ := ih hbuf' (fun t ht => hfit t (List.mem_cons_of_mem l ht)) hloop
    refine ⟨by rw [List.length_cons, List.length_cons, hlen], hsame.of_succ, ?_⟩
    intro j l' hl
    cases j with
    | zero =>
      obtain rfl : l = l' := by simpa using hl
      refine ⟨hindex, dict, rfl, fun i c hc => ?_, hread.unset⟩
      obtain ⟨off, hval, hcstr⟩ := hread.set i c hc
      exact ⟨off, hval, (hsame.cstr (Nat.lt_succ_self index)).trans hcstr⟩
    | succ j =>
      obtain ⟨hlt, dict', hdict, hread'⟩ := hlines j l' (by simpa using hl)
      rw [show index + 1 + j = index + (j + 1) by omega] at hlt hread'
      exact ⟨hlt, dict', by simpa using hdict, hread'⟩

/-- The loop is defined on lines that were read, if there is a dictionary entry for each. -/
theorem devPollLoop_defined {ps : List (Option (List UInt8))} {index : Nat} {vars : Vars}
    (hbuf : ∀ j l, ps[j]? = some l → ∃ old t, l = some t ∧ t.length < vars.lineSize ∧
      vars.buf (.line (index + j + 2)) = storeLine old l) (hindex : index + ps.length ≤ dictSize) :
    ∃ vars' dicts, devPollLoop (ps.map lineLen) index vars = some (vars', dicts) := by
  induction ps generalizing index vars with
  | nil => exact ⟨vars, [], rfl⟩
  | cons l ps ih =>
    rw [List.length_cons] at hindex
    obtain ⟨old, t, rfl, hsize, hold⟩ := hbuf 0 l rfl
    rw [Nat.add_zero] at hold
    have hhas : (vars.buf (.line (index + 2))).Has 0 (t ++ [0]) := by
      rw [hold]
      exact Image.has_write old 0 (t ++ [0])
    obtain ⟨name, ws, m', -, hparse, -, -⟩ := devParse_text index (.line (index + 2)) .unset hhas hsize (by omega)
    have hbuf' : ∀ j l, ps[j]? = some l → ∃ old t, l = some t ∧
        t.length < (vars.setBuf (.line (index + 2)) m').lineSize ∧
        (vars.setBuf (.line (index + 2)) m').buf (.line (index + 1 + j + 2)) = storeLine old l := by
      intro j l hl
      obtain ⟨old', t', hl', hsize', hold'⟩ := hbuf (j + 1) l (by simpa using hl)
      have hne : BufId.line (index + 1 + j + 2) ≠ .line (index + 2) := by
        intro heq
        have := BufId.line.inj heq
        omega
      refine ⟨old', t', hl', hsize', ?_⟩
      rw [Vars.setBuf_buf, Function.update_of_ne hne, show index + 1 + j + 2 = index + (j + 1) + 2 by omega]
      exact hold'
    obtain ⟨vars', dicts, hloop⟩ := ih hbuf' (show index + 1 + ps.length ≤ dictSize by omega)
    simp only [List.map_cons, devPollLoop, lineLen, Option.getD_some, hparse, Option.bind_eq_bind, Option.bind_some,
      Option.pure_def]
    exact ⟨vars', _, by rw [hloop]; rfl⟩

/-! ## The calls -/

/-- The sixteen calls of an interface. -/
theorem devCalls_own {dict : Dict} {k : Nat} {own : List (Nat × Ptr)}
    (h : (List.range 16).mapM (fun j => (dict.val j).map fun val => (16 * k + j, val)) = some own) :
    (∀ j < 16, ∃ p, dict.val j = some p) ∧ own = (List.range 16).map fun j => (16 * k + j, (dict.val j).getD ⟨.line 0, 0⟩) := by
  have hset : ∀ j < 16, ∃ p, dict.val j = some p := by
    intro j hj
    have hget := (mapM_eq_some.mp h).get (i := j) (by simpa using hj) (by rw [← (mapM_eq_some.mp h).length_eq]; simpa using hj)
    simp only [List.get_eq_getElem, List.getElem_range, Option.map_eq_some_iff] at hget
    obtain ⟨p, hp, -⟩ := hget
    exact ⟨p, hp⟩
  refine ⟨hset, Option.some.inj (h.symm.trans (mapM_some fun j hj => ?_))⟩
  obtain ⟨p, hp⟩ := hset j (List.mem_range.mp hj)
  rw [hp]
  rfl

/-- Defined calls give each data point of each interface the counter of its number. The induction is on the interfaces. -/
theorem devCalls_from {dicts : List Dict} {k : Nat} {calls : List (List (Nat × Ptr))}
    (h : (dicts.zipIdx k).mapM (fun (dict, index) =>
      (List.range 16).mapM fun j => (dict.val j).map fun val => (16 * index + j, val)) = some calls) :
    (∀ call ∈ calls.flatten, 16 * k ≤ call.1 ∧ call.1 < 16 * (k + dicts.length)) ∧
      ∀ (j : Nat) dict i, dicts[j]? = some dict → i < 16 → ∃ p, dict.val i = some p ∧
      callsAt calls.flatten (16 * (k + j) + i) = [p] := by
  induction dicts generalizing k calls with
  | nil =>
    obtain rfl := Option.some.inj h
    exact ⟨by simp, fun j dict i h => by simp at h⟩
  | cons dict dicts ih =>
    simp only [List.zipIdx_cons, List.mapM_cons, Option.bind_eq_bind, Option.bind_eq_some_iff, Option.pure_def,
      Option.some.injEq] at h
    obtain ⟨own, hown, rest, hrest, rfl⟩ := h
    obtain ⟨hin, hat⟩ := ih hrest
    obtain ⟨hset, heq⟩ := devCalls_own hown
    have hown_mem : ∀ call ∈ own, 16 * k ≤ call.1 ∧ call.1 < 16 * k + 16 := by
      intro call hmem
      rw [heq] at hmem
      obtain ⟨j, hj, rfl⟩ := List.mem_map.mp hmem
      have := List.mem_range.mp hj
      simp only
      omega
    refine ⟨?_, ?_⟩
    · intro call hmem
      rw [List.flatten_cons, List.mem_append] at hmem
      rw [List.length_cons]
      rcases hmem with hmem | hmem
      · have := hown_mem call hmem
        omega
      · have := hin call hmem
        omega
    · intro j dict' i hdict hi
      rw [List.flatten_cons, callsAt_append]
      cases j with
      | zero =>
        obtain rfl : dict = dict' := by simpa using hdict
        obtain ⟨p, hp⟩ := hset i hi
        have hlater : callsAt rest.flatten (16 * (k + 0) + i) = [] :=
          callsAt_eq_nil fun call hmem => by
            have := hin call hmem
            omega
        refine ⟨p, hp, ?_⟩
        rw [hlater, heq, callsAt_offset, if_pos (by omega), List.append_nil, show 16 * (k + 0) + i - 16 * k = i by omega, hp]
        rfl
      | succ j =>
        obtain ⟨p, hp, hcall⟩ := hat j dict' i (by simpa using hdict) hi
        have hbefore : callsAt own (16 * (k + (j + 1)) + i) = [] :=
          callsAt_eq_nil fun call hmem => by
            have := hown_mem call hmem
            omega
        refine ⟨p, hp, ?_⟩
        rw [hbefore, List.nil_append, show k + (j + 1) = k + 1 + j by omega, hcall]

/-- Calls are defined if every counter is set. -/
theorem devCalls_isSome {dicts : List Dict} (h : ∀ dict ∈ dicts, ∀ j < 16, (dict.val j).isSome) :
    ∃ calls, devCalls dicts = some calls := by
  have hmap : dicts.zipIdx.mapM (fun (dict, index) =>
      (List.range 16).mapM fun j => (dict.val j).map fun val => (16 * index + j, val)) =
      some (dicts.zipIdx.map fun x => (List.range 16).map fun j => (16 * x.2 + j, (x.1.val j).getD ⟨.line 0, 0⟩)) := by
    refine mapM_some fun x hx => mapM_some fun j hj => ?_
    obtain ⟨p, hp⟩ := Option.isSome_iff_exists.mp (h x.1 (List.fst_mem_of_mem_zipIdx hx) j (List.mem_range.mp hj))
    rw [hp]
    rfl
  refine ⟨(dicts.zipIdx.map fun x => (List.range 16).map fun j => (16 * x.2 + j, (x.1.val j).getD ⟨.line 0, 0⟩)).flatten, ?_⟩
  simp only [devCalls, hmap, Option.bind_eq_bind, Option.bind_some, Option.pure_def]

end Pixel845.Datatop
