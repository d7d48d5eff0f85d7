import Pixel845.Datatop.Stat
import Pixel845.Lemmas.DatatopStr
import Mathlib.Data.List.Forall2
import Mathlib.Data.List.TakeWhile

/-!
# Helpers: the words of a line

`dt_stat_parse` by the text of its line: the name is what stands before the first space, and the values are the words behind it
(`statValues`), of which as many are taken as the dictionary has room for.
-/

namespace Pixel845.Datatop

/-- What stands behind the name of a line. A line without a space is all value. -/
def afterName (line : List UInt8) : List UInt8 := if 32 ∈ line then (line.dropWhile (· != 32)).tail else line

/-- The words of a text. -/
def spaceWords (s : List UInt8) : List (List UInt8) := (s.splitOn 32).filter (· ≠ [])

/-- The values of a line. -/
def statValues (line : List UInt8) : List (List UInt8) := spaceWords (afterName line)

/-- A word of a line of `len` bytes, from its start to its end: a space or the end of the line stands behind it. -/
structure IsWord (m : Image) (len : Nat) (w : Nat × Nat) (text : List UInt8) : Prop where
  ends : w.1 + text.length = w.2
  le : w.2 ≤ len
  has : m.Has w.1 text
  noSpace : 32 ∉ text
  ne_nil : text ≠ []
  space : w.2 < len → m w.2 = 32

/-! ## Separators -/

/-- Behind the name stands what follows the first space. -/
theorem afterName_append {t : List UInt8} (rest : List UInt8) (h : 32 ∉ t) : afterName (t ++ 32 :: rest) = rest := by
  rw [afterName, if_pos (by simp), dropWhile_ne rest h, List.tail_cons]

/-- A line without a space is all behind the name. -/
theorem afterName_of_not_mem {line : List UInt8} (h : 32 ∉ line) : afterName line = line := if_neg h

/-- The text before a space is a word, if there is any. -/
theorem spaceWords_append {t : List UInt8} (rest : List UInt8) (h : 32 ∉ t) :
    spaceWords (t ++ 32 :: rest) = (if t = [] then [] else [t]) ++ spaceWords rest := by
  rw [spaceWords, List.splitOn_append_cons_self_of_not_mem h, List.filter_cons]
  split <;> simp_all [spaceWords]

/-- A text without a space is one word, if there is any. -/
theorem spaceWords_of_not_mem {t : List UInt8} (h : 32 ∉ t) : spaceWords t = if t = [] then [] else [t] := by
  rw [spaceWords, List.splitOn_eq_singleton h, List.filter_cons]
  split <;> simp_all

theorem findSpace_eq {m : Image} {i : Nat} {s : List UInt8} (hm : m.Has i s) :
    findSpace m s.length i = i + (s.takeWhile (· != 32)).length := by
  induction s generalizing i with
  | nil => rfl
  | cons c s ih =>
    obtain ⟨hc, hs⟩ := Image.has_cons.mp hm
    rw [List.length_cons, findSpace, hc, List.takeWhile_cons]
    by_cases h : c = 32
    · simp [h]
    · simp only [h, if_false, bne_iff_ne, ne_eq, not_false_eq_true, if_true, ih hs, List.length_cons]
      omega

/-! ## Words -/

/-- The words found from an offset on are those of the text there. -/
theorem statWords_forall {m : Image} {len fuel i : Nat} {s : List UInt8} (hm : m.Has i s) (hlen : i + s.length = len)
    (hfuel : s.length ≤ fuel) : List.Forall₂ (IsWord m len) (statWords m len fuel i) (spaceWords s) := by
  induction fuel generalizing i s with
  | zero =>
    have hs : s = [] := List.length_eq_zero_iff.mp (by omega)
    subst hs
    exact .nil
  | succ fuel ih =>
    rw [statWords]
    by_cases hi : i < len
    · have hn : len - i = s.length := by omega
      simp only [hi, if_true, hn, findSpace_eq hm]
      rcases exists_space s with hspace | ⟨t, rest, rfl, ht⟩
      · -- The last word of the line.
        have hne : s ≠ [] := by
          rintro rfl
          simp at hlen
          omega
        have hhead : m i ≠ 32 := by
          have h0 := hm.getElem (i := 0) (List.length_pos_iff.mpr hne)
          rw [Nat.add_zero] at h0
          rw [h0]
          exact fun h => hspace (h ▸ List.getElem_mem _)
        have hend : ¬i + s.length + 1 < len := by omega
        have hword : IsWord m len (i, i + s.length) s := ⟨rfl, by simp [hlen], hm, hspace, hne, fun h => by simp at h; omega⟩
        rw [if_pos hhead, List.takeWhile_eq_self_iff.mpr (ne_of_not_mem hspace), spaceWords_of_not_mem hspace, if_neg hne]
        cases fuel with
        | zero => exact .cons hword .nil
        | succ fuel =>
          rw [statWords, if_neg hend]
          exact .cons hword .nil
      · rw [Image.has_append, Image.has_cons] at hm
        rw [List.length_append, List.length_cons] at hlen hfuel
        obtain ⟨hhas, h32, hrest⟩ := hm
        rw [takeWhile_ne rest ht, spaceWords_append rest ht]
        by_cases hnil : t = []
        · subst hnil
          simp only [List.length_nil, Nat.add_zero] at h32 hrest
          rw [if_neg (by simpa using h32)]
          simpa using ih hrest (by simp at hlen; omega) (by simp at hfuel; omega)
        · have hpos : 0 < t.length := List.length_pos_iff.mpr hnil
          have hhead : m i ≠ 32 := by
            have h0 := hhas.getElem (i := 0) hpos
            rw [Nat.add_zero] at h0
            rw [h0]
            exact fun h => ht (h ▸ List.getElem_mem _)
          rw [if_pos hhead, if_neg hnil]
          exact .cons ⟨rfl, by simp; omega, hhas, ht, hnil, fun _ => h32⟩ (ih hrest (by omega) (by omega))
    · have hs : s = [] := List.length_eq_zero_iff.mp (by omega)
      subst hs
      rw [if_neg hi]
      exact .nil

/-! ## One line -/

/-- Where the values of a line start. -/
theorem exists_start {m : Image} {line : List UInt8} (hm : m.Has 0 line) :
    let start := (positions (· == 32) m line.length 0).head?.elim 0 (· + 1)
    m.Has start (afterName line) ∧ start + (afterName line).length = line.length := by
  rw [positions_head? hm]
  rcases exists_space line with hspace | ⟨t, rest, rfl, ht⟩
  · rw [if_neg hspace, afterName_of_not_mem hspace]
    exact ⟨hm, Nat.zero_add _⟩
  · rw [if_pos (by simp), takeWhile_ne rest ht, afterName_append rest ht]
    rw [Image.has_append, Image.has_cons] at hm
    exact ⟨hm.2.2, by simp; omega⟩

/-- The words of a line that are taken as values, when there are some already. -/
def takenWords (m : Image) (line : List UInt8) (vIndex : Nat) : List (Nat × Nat) :=
  (statWords m line.length line.length ((positions (· == 32) m line.length 0).head?.elim 0 (· + 1))).take (dictSize - vIndex)

/-- The words that are taken are the values, as far as the dictionary goes. -/
theorem takenWords_forall {m : Image} {line : List UInt8} (hm : m.Has 0 line) (vIndex : Nat) :
    List.Forall₂ (IsWord m line.length) (takenWords m line vIndex) ((statValues line).take (dictSize - vIndex)) := by
  obtain ⟨hhas, hlen⟩ := exists_start hm
  exact List.forall₂_take (dictSize - vIndex) (statWords_forall hhas hlen (by omega))

/-- `dt_stat_parse` on a line that is not empty. -/
theorem statParse_eq {m : Image} {id : BufId} {line : List UInt8} {nIndex : Nat} (vIndex : Nat) (dict : Dict)
    (hne : line ≠ []) (hn : nIndex < dictSize) :
    statParse m id line.length nIndex vIndex dict =
      some (terminate m ((positions (· == 32) m line.length 0).head?.toList ++
          ((takenWords m line vIndex).map Prod.snd).filter (· < line.length)),
        { max := some (vIndex + (takenWords m line vIndex).length)
          key := setFrom dict.key nIndex [⟨id, 0⟩]
          val := setFrom dict.val vIndex ((takenWords m line vIndex).map fun w => ⟨id, w.1⟩) },
        vIndex + (takenWords m line vIndex).length) := by
  have hlen : ¬line.length < 1 := by
    have := List.length_pos_iff.mpr hne
    omega
  rw [statParse, if_neg hlen, if_neg (by omega)]
  rfl

/-- A line with a number outside the dictionary is written outside it. -/
theorem statParse_none {m : Image} {id : BufId} {line : List UInt8} {nIndex : Nat} (vIndex : Nat) (dict : Dict)
    (hne : line ≠ []) (hn : dictSize ≤ nIndex) : statParse m id line.length nIndex vIndex dict = none := by
  have hlen : ¬line.length < 1 := by
    have := List.length_pos_iff.mpr hne
    omega
  rw [statParse, if_neg hlen, if_pos hn]

theorem takenWords_length {m : Image} {line : List UInt8} (hm : m.Has 0 line) (vIndex : Nat) :
    (takenWords m line vIndex).length = min (dictSize - vIndex) (statValues line).length := by
  rw [(takenWords_forall hm vIndex).length_eq, List.length_take]

/-! ## All lines -/

/-- The number of values behind a line: an empty line starts over. -/
def statCount (c : Nat) (line : List UInt8) : Nat :=
  if line = [] then 0 else c + min (dictSize - c) (statValues line).length

/-- What is counted for each line. -/
def statPerLine : Nat → List (List UInt8) → List Int
  | _, [] => []
  | c, line :: lines => (((statCount c line : Nat) : Int) - c) :: statPerLine (statCount c line) lines

/-- The numbers of the lines with content are indices of the dictionary. -/
def Numbered (i : Nat) (lines : List (List UInt8)) : Prop := ∀ j line, lines[j]? = some line → line ≠ [] → i + j < dictSize

/-- The lines have numbers of the dictionary if the first one and the others do. -/
theorem numbered_cons {i : Nat} {line : List UInt8} {lines : List (List UInt8)} :
    Numbered i (line :: lines) ↔ (line ≠ [] → i < dictSize) ∧ Numbered (i + 1) lines := by
  constructor
  · intro h
    refine ⟨fun hne => h 0 line rfl hne, ?_⟩
    intro j l hl hne
    have := h (j + 1) l (by simpa using hl) hne
    omega
  · rintro ⟨h0, h⟩ j l hl hne
    cases j with
    | zero =>
      simp only [List.getElem?_cons_zero, Option.some.injEq] at hl
      exact h0 (hl ▸ hne)
    | succ j =>
      have := h j l (by simpa using hl) hne
      omega

/-- The loop leaves the dictionary if the number of a line that is not empty is no index. -/
theorem statParseLoop_none {lines : List (List UInt8)} {i c : Nat} {vars : Vars} {dict : Dict} (hnum : ¬Numbered i lines) :
    statParseLoop (lines.map List.length) i c vars dict = none := by
  induction lines generalizing i c vars dict with
  | nil => exact absurd (fun j line h => by simp at h) hnum
  | cons line lines ih =>
    rw [numbered_cons] at hnum
    rw [List.map_cons, statParseLoop]
    by_cases hi : line ≠ [] → i < dictSize
    · have htail : ¬Numbered (i + 1) lines := fun h => hnum ⟨hi, h⟩
      cases statParse (vars.buf (.line i)) (.line i) line.length i c dict with
      | none => rfl
      | some r => simp [ih htail]
    · have hne : line ≠ [] := fun h => hi fun hne => absurd h hne
      rw [statParse_none c dict hne (by omega)]
      rfl


/-! ## Values and their places -/

theorem findSpace_congr {m m' : Image} {n i : Nat} (h : ∀ j, i ≤ j → j < i + n → m' j = m j) :
    findSpace m' n i = findSpace m n i := by
  induction n generalizing i with
  | zero => rfl
  | succ n ih =>
    rw [findSpace, findSpace, h i (by omega) (by omega), ih fun j hj hj' => h j (by omega) (by omega)]

/-- A search does not go back. -/
theorem le_findSpace (m : Image) (n i : Nat) : i ≤ findSpace m n i := by
  induction n generalizing i with
  | zero => exact Nat.le_refl i
  | succ n ih =>
    rw [findSpace]
    split
    · exact Nat.le_refl i
    · exact Nat.le_trans (Nat.le_succ i) (ih (i + 1))

theorem statWords_congr {m m' : Image} {len fuel i : Nat} (h : ∀ j, i ≤ j → j < len → m' j = m j) :
    statWords m' len fuel i = statWords m len fuel i := by
  induction fuel generalizing i with
  | zero => rfl
  | succ fuel ih =>
    rw [statWords, statWords]
    split
    case isTrue hi =>
      have hfind : findSpace m' (len - i) i = findSpace m (len - i) i := findSpace_congr fun j hj hj' => h j hj (by omega)
      have hle := le_findSpace m (len - i) i
      have hword := ih (i := findSpace m (len - i) i + 1) fun j hj hj' => h j (by omega) hj'
      have hnext := ih (i := i + 1) fun j hj hj' => h j (by omega) hj'
      simp only [h i (Nat.le_refl i) hi, hfind, hword, hnext]
    case isFalse => rfl

/-- The offsets of the values of a line. -/
def statOffsets (line : List UInt8) : List Nat :=
  (statWords (Image.ofBytes line) line.length line.length
    ((positions (· == 32) (Image.ofBytes line) line.length 0).head?.elim 0 (· + 1))).map Prod.fst

/-- A pointer to a value of the line with number `b`. -/
def statPtr (b : Nat) (line : List UInt8) (k : Nat) : Ptr := ⟨.line b, (statOffsets line).getD k 0⟩

/-- The words taken are the first ones, at their offsets. -/
theorem takenWords_fst {m : Image} {line : List UInt8} (hm : m.Has 0 line) (vIndex : Nat) :
    (takenWords m line vIndex).map Prod.fst = (statOffsets line).take (dictSize - vIndex) := by
  have heq : ∀ j < line.length, m j = Image.ofBytes line j := by
    intro j hj
    have h1 := hm.getElem hj
    have h2 := (Image.has_write Image.zero 0 line).getElem hj
    rw [Nat.zero_add] at h1 h2
    rw [h1, Image.ofBytes, h2]
  rw [takenWords, statOffsets, List.map_take, positions_congr fun j _ hj =>
    heq j (by omega), statWords_congr fun j _ hj => heq j hj]

theorem statOffsets_length (line : List UInt8) : (statOffsets line).length = (statValues line).length := by
  have hm : (Image.ofBytes line).Has 0 line := Image.has_write Image.zero 0 line
  obtain ⟨hhas, hlen⟩ := exists_start hm
  rw [statOffsets, List.length_map, (statWords_forall hhas hlen (by omega)).length_eq]
  rfl

/-- What `dt_stat_parse` leaves of a line: terminators behind the name and behind each value taken. -/
def statCut (m : Image) (line : List UInt8) (vIndex : Nat) : Image :=
  terminate m ((positions (· == 32) m line.length 0).head?.toList ++
    ((takenWords m line vIndex).map Prod.snd).filter (· < line.length))

/-- A separator of the line is a space. -/
theorem space_of_mem_cut {m : Image} {line : List UInt8} {vIndex i : Nat} (hm : m.Has 0 line)
    (hi : i ∈ (positions (· == 32) m line.length 0).head?.toList ++
      ((takenWords m line vIndex).map Prod.snd).filter (· < line.length)) : i < line.length ∧ m i = 32 := by
  rcases List.mem_append.mp hi with hi | hi
  · rw [positions_head? hm] at hi
    rcases exists_space line with hspace | ⟨t, rest, rfl, ht⟩
    · simp [hspace] at hi
    · rw [if_pos (by simp), takeWhile_ne rest ht, Nat.zero_add] at hi
      obtain rfl : i = t.length := by simpa using hi
      rw [Image.has_append, Image.has_cons, Nat.zero_add] at hm
      exact ⟨by simp, hm.2.1⟩
  · rw [List.mem_filter, List.mem_map] at hi
    obtain ⟨⟨w, hw, rfl⟩, hlt⟩ := hi
    obtain ⟨k, hk⟩ := List.mem_iff_getElem?.mp hw
    have hforall := takenWords_forall hm vIndex
    obtain ⟨hklt, hkeq⟩ := List.getElem?_eq_some_iff.mp hk
    have hword := hforall.get hklt (hforall.length_eq ▸ hklt)
    simp only [List.get_eq_getElem, hkeq] at hword
    exact ⟨by simpa using hlt, hword.space (by simpa using hlt)⟩

/-- The `k`-th value of a line that was cut, if it was taken, with its terminator. -/
theorem statCut_has_value {m : Image} {line v : List UInt8} (vIndex : Nat) {k : Nat} (hm : m.Has 0 (line ++ [0]))
    (hv : (statValues line)[k]? = some v) (hk : vIndex + k < dictSize) :
    ((takenWords m line vIndex).map Prod.fst)[k]? = some ((statOffsets line).getD k 0) ∧
      (statOffsets line).getD k 0 + v.length ≤ line.length ∧
      (statCut m line vIndex).Has ((statOffsets line).getD k 0) (v ++ [0]) := by
  obtain ⟨hline, hnul⟩ := Image.has_append.mp hm
  rw [Nat.zero_add] at hnul
  have hnul : m line.length = 0 := (Image.has_cons.mp hnul).1
  have hlt := (List.getElem?_eq_some_iff.mp hv).1
  have hoff : (statOffsets line)[k]? = some ((statOffsets line).getD k 0) := by
    rw [← statOffsets_length] at hlt
    rw [List.getD_eq_getElem?_getD, List.getElem?_eq_getElem hlt, Option.getD_some]
  have hfst : ((takenWords m line vIndex).map Prod.fst)[k]? = some ((statOffsets line).getD k 0) := by
    rw [takenWords_fst hline, List.getElem?_take_of_lt (by omega), hoff]
  refine ⟨hfst, ?_⟩
  rw [List.getElem?_map, Option.map_eq_some_iff] at hfst
  obtain ⟨w, hw, hwoff⟩ := hfst
  have hforall := takenWords_forall hline vIndex
  obtain ⟨hklt, hkeq⟩ := List.getElem?_eq_some_iff.mp hw
  have hword := hforall.get hklt (hforall.length_eq ▸ hklt)
  obtain ⟨hvlt, hveq⟩ := List.getElem?_eq_some_iff.mp hv
  simp only [List.get_eq_getElem, hkeq, List.getElem_take, hveq] at hword
  rw [← hwoff]
  have hends := hword.ends
  have hle := hword.le
  refine ⟨by omega, terminate_has hword.has (fun i hi => ?_) ?_⟩
  · obtain ⟨-, hspace⟩ := space_of_mem_cut hline hi
    by_contra hin
    have hget := hword.has.getElem (i := i - w.1) (by omega)
    rw [show w.1 + (i - w.1) = i by omega, hspace] at hget
    exact hword.noSpace (hget ▸ List.getElem_mem _)
  · rw [hends]
    by_cases hend : w.2 < line.length
    · exact .inl (List.mem_append_right _
        (List.mem_filter.mpr ⟨List.mem_map.mpr ⟨w, List.mem_of_getElem? hw, rfl⟩, by simpa using hend⟩))
    · rw [show w.2 = line.length by omega]
      exact .inr hnul

/-- The same as a string. -/
theorem statCut_value {m : Image} {line v : List UInt8} (vIndex : Nat) {k size : Nat} (hm : m.Has 0 (line ++ [0]))
    (hsize : line.length < size) (hv : (statValues line)[k]? = some v) (hk : vIndex + k < dictSize) :
    ((takenWords m line vIndex).map Prod.fst)[k]? = some ((statOffsets line).getD k 0) ∧
      (statCut m line vIndex).cstr size ((statOffsets line).getD k 0) = cText v := by
  obtain ⟨hfst, hle, hhas⟩ := statCut_has_value vIndex hm hv hk
  exact ⟨hfst, hhas.cstr_eq (by omega)⟩

/-- The name of a line that was cut, with its terminator. -/
theorem statCut_has_key {m : Image} {line : List UInt8} (vIndex : Nat) (hm : m.Has 0 (line ++ [0])) :
    (statCut m line vIndex).Has 0 (line.takeWhile (· != 32) ++ [0]) := by
  obtain ⟨hline, hnul⟩ := Image.has_append.mp hm
  have hnul : m (0 + line.length) = 0 := (Image.has_cons.mp hnul).1
  have hle : (line.takeWhile (· != 32)).length ≤ line.length := (List.takeWhile_prefix _).length_le
  have hhas : m.Has 0 (line.takeWhile (· != 32)) := by
    rw [← List.takeWhile_append_dropWhile (p := (· != 32)) (l := line), Image.has_append] at hline
    exact hline.1
  refine terminate_has hhas (fun i hi => ?_) ?_
  · obtain ⟨-, hspace⟩ := space_of_mem_cut hline hi
    by_contra hin
    have hget := hhas.getElem (i := i) (by omega)
    rw [Nat.zero_add, hspace] at hget
    have hmem : (line.takeWhile (· != 32))[i] ∈ line.takeWhile (· != 32) := List.getElem_mem (by omega)
    rw [← hget] at hmem
    simpa using List.mem_takeWhile_imp hmem
  · by_cases hspace : 32 ∈ line
    · refine .inl (List.mem_append_left _ ?_)
      rw [positions_head? hline, if_pos hspace]
      simp
    · rw [List.takeWhile_eq_self_iff.mpr (ne_of_not_mem hspace)]
      exact .inr hnul

/-- The same as a string. -/
theorem statCut_key {m : Image} {line : List UInt8} {vIndex size : Nat} (hm : m.Has 0 (line ++ [0]))
    (hsize : line.length < size) : (statCut m line vIndex).cstr size 0 = cText (line.takeWhile (· != 32)) := by
  have hle : (line.takeWhile (· != 32)).length ≤ line.length := (List.takeWhile_prefix _).length_le
  exact (statCut_has_key vIndex hm).cstr_eq (by omega)

/-! ## All values -/

/-- The name of a line. -/
def statKey (line : List UInt8) : List UInt8 := cText (line.takeWhile (· != 32))

/-- The values that are counted in the end, each by the number of its line and its own in the line: an empty line starts over. -/
def statItems : List (Nat × Nat) → Nat → List (List UInt8) → List (Nat × Nat)
  | items, _, [] => items
  | items, b, line :: lines =>
    statItems (if line = [] then [] else (items ++ (List.range (statValues line).length).map (b, ·)).take dictSize) (b + 1) lines

/-- What the line buffers and the dictionary hold when the first `i` lines are parsed. -/
structure StatRead (lines : List (List UInt8)) (i : Nat) (items : List (Nat × Nat)) (vars : Vars) (dict : Dict) : Prop where
  le : items.length ≤ dictSize
  value : ∀ n b k, items[n]? = some (b, k) → b < i ∧ ∃ line v, lines[b]? = some line ∧ (statValues line)[k]? = some v ∧
    dict.val n = some (statPtr b line k) ∧ vars.cstr (statPtr b line k) = cText v
  key : ∀ b line, b < i → lines[b]? = some line → line ≠ [] →
    dict.key b = some ⟨.line b, 0⟩ ∧ vars.cstr ⟨.line b, 0⟩ = statKey line

/-- One more line with content. -/
theorem StatRead.step {lines : List (List UInt8)} {i : Nat} {items : List (Nat × Nat)} {vars : Vars} {dict : Dict}
    {line : List UInt8} (h : StatRead lines i items vars dict) (hline : lines[i]? = some line)
    (hhas : (vars.buf (.line i)).Has 0 (line ++ [0]))
    (hsize : line.length < vars.lineSize) (max : Option Nat) :
    StatRead lines (i + 1) ((items ++ (List.range (statValues line).length).map (i, ·)).take dictSize)
      (vars.setBuf (.line i) (statCut (vars.buf (.line i)) line items.length))
      ⟨max, setFrom dict.key i [⟨.line i, 0⟩],
        setFrom dict.val items.length ((takenWords (vars.buf (.line i)) line items.length).map fun w => ⟨.line i, w.1⟩)⟩ := by
  refine ⟨by simp, ?_, ?_⟩
  · intro n b k hn
    have hlt : n < dictSize := by
      have := (List.getElem?_eq_some_iff.mp hn).1
      rw [List.length_take] at this
      omega
    rw [List.getElem?_take_of_lt hlt] at hn
    by_cases hold : n < items.length
    · rw [List.getElem?_append_left hold] at hn
      obtain ⟨hb, l, v, hl, hv, hval, hcstr⟩ := h.value n b k hn
      have hne : (statPtr b l k).buf ≠ .line i := by
        intro heq
        have := BufId.line.inj heq
        omega
      refine ⟨by omega, l, v, hl, hv, ?_, ?_⟩
      · simp only [setFrom, if_neg (show ¬items.length ≤ n by omega), hval]
      · rw [Vars.cstr_setBuf_of_ne hne, hcstr]
    · rw [List.getElem?_append_right (by omega), List.getElem?_map, Option.map_eq_some_iff] at hn
      obtain ⟨k', hk', hpair⟩ := hn
      obtain ⟨hklt, hkeq⟩ := List.getElem?_eq_some_iff.mp hk'
      rw [List.length_range] at hklt
      rw [List.getElem_range] at hkeq
      obtain ⟨rfl, rfl⟩ := Prod.mk.inj hpair
      subst hkeq
      have hv := List.getElem?_eq_getElem hklt
      obtain ⟨hword, hcstr⟩ := statCut_value items.length hhas hsize hv (by omega)
      refine ⟨by omega, line, _, hline, hv, ?_, ?_⟩
      · rw [List.getElem?_map, Option.map_eq_some_iff] at hword
        obtain ⟨w, hw, hoff⟩ := hword
        simp only [setFrom, if_pos (show items.length ≤ n by omega), List.getElem?_map, hw, Option.map_some, Option.some_or]
        rw [statPtr, hoff]
      · rw [statPtr, Vars.cstr_setBuf_self, hcstr]
  · intro b l hb hl hne
    by_cases hbi : b = i
    · subst hbi
      obtain rfl : line = l := Option.some.inj (hline.symm.trans hl)
      refine ⟨by simp [setFrom], ?_⟩
      rw [Vars.cstr_setBuf_self, statCut_key hhas hsize, statKey]
    · obtain ⟨hkey, hcstr⟩ := h.key b l (by omega) hl hne
      refine ⟨by simp [setFrom, hkey, show ¬i ≤ b by omega], ?_⟩
      rw [Vars.cstr_setBuf_of_ne (fun heq => hbi (BufId.line.inj heq)), hcstr]

/-- The loop reads the values counted in the end. The induction is on the lines that are left; `StatRead` says what the ones
before have left. -/
theorem statParseLoop_values {lines rest : List (List UInt8)} {i : Nat} {items : List (Nat × Nat)} {vars : Vars} {dict : Dict}
    (hread : StatRead lines i items vars dict) (hrest : lines.drop i = rest) (hnum : Numbered i rest) (hholds : vars.Holds i rest)
    (hsize : ∀ line ∈ rest, line ≠ [] → line.length < vars.lineSize) :
    ∃ vars' dict', statParseLoop (rest.map List.length) i items.length vars dict =
        some (vars', dict', statPerLine items.length rest, (statItems items i rest).length) ∧
      StatRead lines (i + rest.length) (statItems items i rest) vars' dict' ∧
      vars'.lineSize = vars.lineSize ∧ vars'.lineCount = vars.lineCount := by
  induction rest generalizing i items vars dict with
  | nil => exact ⟨vars, dict, rfl, hread, rfl, rfl⟩
  | cons line rest ih =>
    rw [numbered_cons] at hnum
    have hline : lines[i]? = some line := by
      rw [← List.head?_drop, hrest, List.head?_cons]
    have htail : lines.drop (i + 1) = rest := by rw [← List.tail_drop, hrest, List.tail_cons]
    by_cases hne : line = []
    · subst hne
      have hblank : StatRead lines (i + 1) [] (vars.setBuf (.line i) (vars.buf (.line i))) dict := by
        rw [Vars.setBuf, Function.update_eq_self]
        refine ⟨by simp, by simp, ?_⟩
        intro b l hb hl hne
        by_cases hbi : b = i
        · subst hbi
          exact absurd (Option.some.inj (hl.symm.trans hline)) hne
        · exact hread.key b l (by omega) hl hne
      obtain ⟨vars', dict', hloop, hread', hvars⟩ := ih hblank htail hnum.2 (hholds.tail _)
        (fun l hl => hsize l (List.mem_cons_of_mem [] hl))
      refine ⟨vars', dict', ?_, ?_, hvars⟩
      · simp only [List.length_nil] at hloop
        simp only [List.map_cons, List.length_nil, statParseLoop, statParse, Nat.zero_lt_one, if_true, Option.pure_def,
          Option.bind_eq_bind, Option.bind_some, hloop, statPerLine, statCount, statItems]
      · rw [List.length_cons, show i + (rest.length + 1) = i + 1 + rest.length by omega]
        exact hread'
    · have hhas := hholds.head hne
      have hstep := hread.step hline hhas (hsize line List.mem_cons_self hne)
        (some (items.length + (takenWords (vars.buf (.line i)) line items.length).length))
      have hlen : ((items ++ (List.range (statValues line).length).map (i, ·)).take dictSize).length =
          items.length + (takenWords (vars.buf (.line i)) line items.length).length := by
        have hle := hread.le
        rw [takenWords_length (Image.has_append.mp hhas).1, List.length_take, List.length_append, List.length_map,
          List.length_range]
        omega
      have hcount : statCount items.length line = items.length + (takenWords (vars.buf (.line i)) line items.length).length := by
        rw [takenWords_length (Image.has_append.mp hhas).1, statCount, if_neg hne]
      obtain ⟨vars', dict', hloop, hread', hvars⟩ := ih hstep htail hnum.2 (hholds.tail _)
        (fun l hl => hsize l (List.mem_cons_of_mem line hl))
      refine ⟨vars', dict', ?_, ?_, hvars⟩
      · rw [hlen, statCut] at hloop
        simp only [List.map_cons, statParseLoop, statParse_eq _ dict hne (hnum.1 hne), Option.pure_def, Option.bind_eq_bind,
          Option.bind_some, hloop, statPerLine, hcount, statItems, if_neg hne]
      · rw [List.length_cons, show i + (rest.length + 1) = i + 1 + rest.length by omega, statItems, if_neg hne]
        exact hread'

/-! ## The lines of a file -/

/-- The lines that are read from the buffer; what lies behind it is read as an empty line. -/
def statLines (content : List UInt8) (rest : Image) (vars : Vars) : List (List UInt8) :=
  (cutLines (readFile content statSize rest) vars.lineSize statSize vars.lineCount 0).map (·.getD [])

/-- No line with a value stands before an empty line. -/
def NoEmptyBehind (lines : List (List UInt8)) : Prop := lines.Pairwise fun a b => statValues a ≠ [] → b ≠ []

/-- A line with content fits its buffer. -/
theorem mem_statLines {content line : List UInt8} {rest : Image} {vars : Vars} (h : line ∈ statLines content rest vars)
    (hne : line ≠ []) : line.length < vars.lineSize := by
  obtain ⟨l, hl, rfl⟩ := List.mem_map.mp h
  have hle : (l.getD []).length ≤ vars.lineSize - 1 := lineLen_le hl
  have hpos := List.length_pos_iff.mpr hne
  omega

/-- The line buffers hold the lines that were read. -/
theorem holds_store (m : Image) (vars : Vars) (size k start : Nat) :
    (vars.store .line 0 (cutLines m vars.lineSize size k start)).Holds 0
      ((cutLines m vars.lineSize size k start).map (·.getD [])) := by
  intro j line hl hne
  rw [List.getElem?_map, Option.map_eq_some_iff] at hl
  obtain ⟨l, hl, rfl⟩ := hl
  rw [Vars.store_buf _ (fun _ _ h => BufId.line.inj h) hl, storeLine]
  cases l with
  | none => exact absurd rfl hne
  | some l => exact Image.has_write (vars.buf (.line (0 + j))) 0 (l ++ [0])

/-- Of a file whose lines fit, its lines are read into the buffers. -/
theorem readLines_ended {texts : List (List UInt8)} {size : Nat} {vars : Vars} (hplain : ∀ t ∈ texts, 10 ∉ t)
    (hfits : ∀ t ∈ texts, t.length < vars.lineSize) (hsize : (texts.flatMap (· ++ [10])).length ≤ size)
    (hcount : vars.lineCount = texts.length) (rest : Image) :
    (readLines .line size vars).run (readFile (texts.flatMap (· ++ [10])) size rest).load =
        (vars.store .line 0 (texts.map some), texts.map List.length) ∧
      (vars.store .line 0 (texts.map some)).Holds 0 texts := by
  have hcut := cutLines_ended hplain hfits hsize hcount rest
  have hlens : (texts.map some).map lineLen = texts.map List.length := by
    rw [List.map_map]
    rfl
  constructor
  · rw [readLines, readLinesLoop_run, hcut, hlens]
  · have hholds := holds_store (readFile (texts.flatMap (· ++ [10])) size rest) vars size vars.lineCount 0
    rw [hcut, List.map_map] at hholds
    simpa [Function.comp_def] using hholds

/-- What search and poll read and parse, if the numbers of the lines are indices of the dictionary. -/
theorem statRead_some {content : List UInt8} {rest : Image} {vars : Vars} (hnum : Numbered 0 (statLines content rest vars)) :
    ∃ vars' dict', statParseLoop ((readLines .line statSize vars).run (readFile content statSize rest).load).2 0 0
          ((readLines .line statSize vars).run (readFile content statSize rest).load).1 .unset =
        some (vars', dict', statPerLine 0 (statLines content rest vars), (statItems [] 0 (statLines content rest vars)).length) ∧
      StatRead (statLines content rest vars) (statLines content rest vars).length (statItems [] 0 (statLines content rest vars))
        vars' dict' ∧
      vars'.lineSize = vars.lineSize ∧ vars'.lineCount = vars.lineCount := by
  have hstart : StatRead (statLines content rest vars) 0 [] (vars.store .line 0
      (cutLines (readFile content statSize rest) vars.lineSize statSize vars.lineCount 0)) .unset :=
    ⟨by simp, by simp, fun b line hb => absurd hb (Nat.not_lt_zero b)⟩
  obtain ⟨vars', dict', hloop, hread, hsize, hcount⟩ := statParseLoop_values hstart (List.drop_zero ..) hnum
    (holds_store (readFile content statSize rest) vars statSize vars.lineCount 0)
    (fun line hline hne => by
      rw [Vars.store_lineSize]
      exact mem_statLines hline hne)
  rw [Vars.store_lineSize] at hsize
  rw [Vars.store_lineCount] at hcount
  refine ⟨vars', dict', ?_, by simpa using hread, hsize, hcount⟩
  rw [readLines, readLinesLoop_run]
  rw [statLines, List.map_map] at hloop
  exact hloop

/-- A line with a number outside the dictionary makes the reading undefined. -/
theorem statRead_none {content : List UInt8} {rest : Image} {vars : Vars} (hnum : ¬Numbered 0 (statLines content rest vars)) :
    statParseLoop ((readLines .line statSize vars).run (readFile content statSize rest).load).2 0 0
      ((readLines .line statSize vars).run (readFile content statSize rest).load).1 .unset = none := by
  rw [readLines, readLinesLoop_run]
  have hlens : (cutLines (readFile content statSize rest) vars.lineSize statSize vars.lineCount 0).map lineLen =
      (statLines content rest vars).map List.length := by
    rw [statLines, List.map_map]
    rfl
  rw [hlens]
  exact statParseLoop_none hnum

/-! ## The count -/

/-- The values written, line by line. -/
def written (perLine : List Int) : Nat := (perLine.map Int.toNat).sum

/-- Counting from `c` on never starts over behind a value. -/
def NeverOver (c : Nat) (lines : List (List UInt8)) : Prop := (0 < c → [] ∉ lines) ∧ NoEmptyBehind lines

/-- The count of values stays in the dictionary. -/
theorem statCount_le {c : Nat} (line : List UInt8) (hc : c ≤ dictSize) : statCount c line ≤ dictSize := by
  rw [statCount]
  split
  · omega
  · omega

/-- An empty line starts the count over. -/
theorem neverOver_nil_cons {c : Nat} {lines : List (List UInt8)} : NeverOver c ([] :: lines) ↔ c = 0 ∧ NeverOver 0 lines := by
  rw [NeverOver, NeverOver, NoEmptyBehind, List.pairwise_cons]
  constructor
  · rintro ⟨hempty, -, hpair⟩
    have hc0 : c = 0 := by
      by_contra hne
      exact hempty (by omega) List.mem_cons_self
    exact ⟨hc0, fun h => absurd h (Nat.lt_irrefl 0), hpair⟩
  · rintro ⟨rfl, -, hpair⟩
    exact ⟨fun h => absurd h (Nat.lt_irrefl 0), fun _ _ hval => absurd rfl hval, hpair⟩

/-- A line that is not empty adds its values to the count. -/
theorem neverOver_cons {c : Nat} {line : List UInt8} {lines : List (List UInt8)} (hline : line ≠ []) :
    NeverOver c (line :: lines) ↔ NeverOver (statCount c line) lines := by
  have hcount : statCount c line = c + min (dictSize - c) (statValues line).length := by rw [statCount, if_neg hline]
  have hpos : 0 < statCount c line ↔ 0 < c ∨ (c = 0 ∧ statValues line ≠ []) := by
    have hdict : 0 < dictSize := by decide
    rw [← List.length_pos_iff]
    omega
  rw [NeverOver, NeverOver, NoEmptyBehind, List.pairwise_cons]
  constructor
  · rintro ⟨hempty, hfirst, hpair⟩
    refine ⟨?_, hpair⟩
    intro h hmem
    rcases hpos.mp h with h | h
    · exact hempty h (List.mem_cons_of_mem line hmem)
    · exact hfirst [] hmem h.2 rfl
  · rintro ⟨hempty, hpair⟩
    refine ⟨?_, ?_, hpair⟩
    · intro h hmem
      rcases List.mem_cons.mp hmem with h' | h'
      · exact hline h'.symm
      · exact hempty (hpos.mpr (.inl h)) h'
    · intro b hb hval hbnil
      have h0 : 0 < statCount c line := by
        rw [hpos]
        by_cases hc0 : c = 0
        · exact .inr ⟨hc0, hval⟩
        · exact .inl (by omega)
      exact hempty h0 (hbnil ▸ hb)

/-- What is left of a count that never starts over. -/
theorem NeverOver.tail {c : Nat} {line : List UInt8} {lines : List (List UInt8)} (h : NeverOver c (line :: lines)) :
    NeverOver (statCount c line) lines := by
  by_cases hline : line = []
  · subst hline
    rw [statCount, if_pos rfl]
    exact (neverOver_nil_cons.mp h).2
  · exact (neverOver_cons hline).mp h

/-- What is written is never less than the count, and equals it if the count never starts over. The induction is on the lines; the
count so far is what an empty line loses. -/
theorem written_count (lines : List (List UInt8)) {c : Nat} (hc : c ≤ dictSize) :
    lines.foldl statCount c ≤ written (statPerLine c lines) + c ∧
      (written (statPerLine c lines) + c = lines.foldl statCount c ↔ NeverOver c lines) := by
  induction lines generalizing c with
  | nil => simp [written, statPerLine, NeverOver, NoEmptyBehind]
  | cons line lines ih =>
    obtain ⟨hle, hiff⟩ := ih (statCount_le line hc)
    have hcons : written (statPerLine c (line :: lines)) =
        (((statCount c line : Nat) : Int) - c).toNat + written (statPerLine (statCount c line) lines) := by
      rw [statPerLine, written, List.map_cons, List.sum_cons]
      rfl
    rw [List.foldl_cons, hcons]
    by_cases hline : line = []
    · subst hline
      have hzero : statCount c [] = 0 := by rw [statCount, if_pos rfl]
      rw [hzero] at hle hiff ⊢
      rw [neverOver_nil_cons, ← hiff]
      omega
    · have hcount : statCount c line = c + min (dictSize - c) (statValues line).length := by rw [statCount, if_neg hline]
      rw [neverOver_cons hline, ← hiff]
      omega

/-! ## The table -/

/-- The values written, each by the number of its line and its own in the line. -/
def statFlat : Nat → Nat → List (List UInt8) → List (Nat × Nat)
  | _, _, [] => []
  | c, b, line :: lines => (List.range (statCount c line - c)).map (b, ·) ++ statFlat (statCount c line) (b + 1) lines

theorem statFlat_length (c b : Nat) (lines : List (List UInt8)) :
    (statFlat c b lines).length = written (statPerLine c lines) := by
  induction lines generalizing c b with
  | nil => rfl
  | cons line lines ih =>
    have htoNat : (((statCount c line : Nat) : Int) - c).toNat = statCount c line - c := by omega
    rw [statFlat, List.length_append, List.length_map, List.length_range, ih, statPerLine, written, written, List.map_cons,
      List.sum_cons, htoNat]

theorem statItems_length {items : List (Nat × Nat)} (b : Nat) (lines : List (List UInt8)) (hle : items.length ≤ dictSize) :
    (statItems items b lines).length = lines.foldl statCount items.length := by
  induction lines generalizing items b with
  | nil => rfl
  | cons line lines ih =>
    rw [statItems, List.foldl_cons]
    split
    case isTrue h => rw [ih (b + 1) (by simp), statCount, if_pos h, List.length_nil]
    case isFalse h =>
      rw [ih (b + 1) (by simp), statCount, if_neg h, List.length_take, List.length_append, List.length_map, List.length_range]
      congr 1
      omega

/-- If the count never starts over, the values counted in the end are those written. -/
theorem statItems_eq (items : List (Nat × Nat)) (b : Nat) {lines : List (List UInt8)} (hle : items.length ≤ dictSize)
    (hover : NeverOver items.length lines) : statItems items b lines = items ++ statFlat items.length b lines := by
  induction lines generalizing items b with
  | nil => simp [statItems, statFlat]
  | cons line lines ih =>
    rw [statItems, statFlat]
    have htail := hover.tail
    by_cases h : line = []
    · have hnil : items = [] := by
        by_contra hne
        exact hover.1 (List.length_pos_iff.mpr hne) (by simp [h])
      have hzero : statCount items.length line = 0 := by rw [statCount, if_pos h]
      rw [hzero] at htail ⊢
      rw [if_pos h, ih [] (b + 1) (by simp) htail]
      simp [hnil]
    · have htake : (items ++ (List.range (statValues line).length).map (b, ·)).take dictSize =
          items ++ (List.range (statCount items.length line - items.length)).map (b, ·) := by
        rw [List.take_append, List.take_of_length_le hle, ← List.map_take, List.take_range, statCount, if_neg h]
        congr 3
        omega
      have hlen : (items ++ (List.range (statCount items.length line - items.length)).map (b, ·)).length =
          statCount items.length line := by
        rw [List.length_append, List.length_map, List.length_range, statCount, if_neg h]
        omega
      rw [if_neg h, htake, ih _ (b + 1) (by rw [hlen]; exact statCount_le line hle) (by rw [hlen]; exact htail), hlen,
        List.append_assoc]

/-! ## Values in their order -/

/-- The lines behind the last empty one. -/
def behindEmpty : List (List UInt8) → List (List UInt8)
  | [] => []
  | line :: lines => if (line :: lines).contains [] then behindEmpty lines else line :: lines

/-- The values of a line, each with its name: the key of the line and the number of the value there. -/
def lineEntries (line : List UInt8) : List ((List UInt8 × Nat) × List UInt8) :=
  (statValues line).zipIdx.map fun v => ((statKey line, v.2), v.1)

/-- The values of some lines in their order: those behind the last empty line, as many as there is room for in a dictionary. -/
def statEntries (lines : List (List UInt8)) : List ((List UInt8 × Nat) × List UInt8) :=
  ((behindEmpty lines).flatMap lineEntries).take dictSize

/-- A value by the number of its line and its own there, with its name. -/
def entryOf (lines : List (List UInt8)) (item : Nat × Nat) : (List UInt8 × Nat) × List UInt8 :=
  ((statKey (lines.getD item.1 []), item.2), (statValues (lines.getD item.1 [])).getD item.2 [])

/-- A line counts if there is no empty one behind it. -/
theorem behindEmpty_cons (line : List UInt8) (lines : List (List UInt8)) :
    behindEmpty (line :: lines) = if [] ∈ line :: lines then behindEmpty lines else line :: lines := by
  rw [behindEmpty]
  simp only [List.contains_iff_mem]

/-- Without an empty line all lines count. -/
theorem behindEmpty_of_not_mem {lines : List (List UInt8)} (h : [] ∉ lines) : behindEmpty lines = lines := by
  cases lines with
  | nil => rfl
  | cons line lines => rw [behindEmpty_cons, if_neg h]

/-- The lines that count are the last ones. -/
theorem behindEmpty_suffix (lines : List (List UInt8)) : behindEmpty lines <:+ lines := by
  induction lines with
  | nil => exact List.suffix_rfl
  | cons line lines ih =>
    rw [behindEmpty_cons]
    split
    · exact ih.trans (List.suffix_cons line lines)
    · exact List.suffix_rfl

/-- The values of one line. -/
theorem map_entryOf_line {lines : List (List UInt8)} {line : List UInt8} {b : Nat} (hline : lines[b]? = some line) :
    ((List.range (statValues line).length).map (b, ·)).map (entryOf lines) = lineEntries line := by
  refine List.ext_getElem (by simp [lineEntries]) ?_
  intro k hk _
  simp only [List.length_map, List.length_range] at hk
  simp [lineEntries, entryOf, hline, hk]

/-- The values counted in the end are the values in their order. The induction is on the lines that are left, with any
values before. -/
theorem map_statItems {lines rest : List (List UInt8)} {items : List (Nat × Nat)} {b : Nat} (hrest : lines.drop b = rest)
    (hle : items.length ≤ dictSize) :
    (statItems items b rest).map (entryOf lines) =
      (if [] ∈ rest then (behindEmpty rest).flatMap lineEntries
        else items.map (entryOf lines) ++ rest.flatMap lineEntries).take dictSize := by
  induction rest generalizing items b with
  | nil => rw [statItems, if_neg List.not_mem_nil, List.flatMap_nil, List.append_nil, List.take_of_length_le (by simpa using hle)]
  | cons line rest ih =>
    have hline : lines[b]? = some line := by rw [← List.head?_drop, hrest, List.head?_cons]
    have htail : lines.drop (b + 1) = rest := by rw [← List.tail_drop, hrest, List.tail_cons]
    rw [statItems]
    by_cases hempty : line = []
    · -- An empty line starts over.
      subst hempty
      rw [if_pos rfl, ih htail (Nat.zero_le _), if_pos List.mem_cons_self, behindEmpty_cons, if_pos List.mem_cons_self]
      split
      case isTrue => rfl
      case isFalse h => rw [behindEmpty_of_not_mem h, List.map_nil, List.nil_append]
    · rw [if_neg hempty, ih htail (List.length_take_le ..), behindEmpty_cons]
      have hmem : [] ∈ line :: rest ↔ [] ∈ rest := by simp [Ne.symm hempty]
      simp only [hmem]
      split
      case isTrue => rfl
      case isFalse =>
        have htake : ∀ s t : List ((List UInt8 × Nat) × List UInt8), (s.take dictSize ++ t).take dictSize =
            (s ++ t).take dictSize := by
          intro s t
          rw [List.take_append, List.take_take, Nat.min_self, List.take_append]
          congr 2
          rw [List.length_take]
          omega
        rw [List.map_take, List.map_append, map_entryOf_line hline, List.flatMap_cons, ← List.append_assoc, htake]

/-- The values that are kept are those of the lines that count. -/
theorem statItems_entries (lines : List (List UInt8)) : (statItems [] 0 lines).map (entryOf lines) = statEntries lines := by
  rw [map_statItems List.drop_zero (Nat.zero_le _), statEntries]
  split
  case isTrue => rfl
  case isFalse h => rw [behindEmpty_of_not_mem h, List.map_nil, List.nil_append]

/-- A data point for a value has the name of the line, with the number of the value if there are several. -/
def NamedFor (lines : List (List UInt8)) (item : Nat × Nat) (dp : DataPoint) : Prop :=
  ∃ line n, lines[item.1]? = some line ∧ item.2 < n ∧ dp.name = .copy (statName (statKey line) (n : Nat) item.2)

/-- The data points written, if every line with content has its name in the dictionary. -/
theorem statPoints_forall {all lines : List (List UInt8)} {vars : Vars} {dict : Dict} (junk : Nat → DataPoint) {b : Nat}
    (c count : Nat) (hlines : all.drop b = lines)
    (hkey : ∀ b line, all[b]? = some line → line ≠ [] → dict.key b = some ⟨.line b, 0⟩ ∧ vars.cstr ⟨.line b, 0⟩ = statKey line) :
    ∃ points, statPoints vars dict junk (statPerLine c lines) b count = some points ∧
      List.Forall₂ (NamedFor all) (statFlat c b lines) points := by
  induction lines generalizing b c count with
  | nil => exact ⟨[], rfl, .nil⟩
  | cons line lines ih =>
    have hline : all[b]? = some line := by rw [← List.head?_drop, hlines, List.head?_cons]
    have htail : all.drop (b + 1) = lines := by rw [← List.tail_drop, hlines, List.tail_cons]
    obtain ⟨points, hpoints, hforall⟩ :=
      ih (statCount c line) (count + (((statCount c line : Nat) : Int) - c).toNat) htail
    rw [statPerLine, statPoints, hpoints, statFlat]
    by_cases hk : ((statCount c line : Nat) : Int) - c ≤ 0
    · have hzero : statCount c line - c = 0 := by omega
      refine ⟨points, by simp [hk], ?_⟩
      rw [hzero]
      exact hforall
    · have hne : line ≠ [] := by
        rintro rfl
        simp only [statCount, if_true] at hk
        omega
      obtain ⟨hkeyb, hcstr⟩ := hkey b line hline hne
      have hn : ((statCount c line : Nat) : Int) - c = ((statCount c line - c : Nat) : Int) := by omega
      simp only [hk, if_false, hkeyb, Option.pure_def, Option.bind_eq_bind, Option.bind_some, hcstr]
      refine ⟨_, rfl, List.rel_append (R := NamedFor all) ?_ hforall⟩
      rw [hn, Int.toNat_natCast, List.forall₂_map_left_iff, List.forall₂_map_right_iff, List.forall₂_same]
      intro k hmem
      exact ⟨line, statCount c line - c, hline, List.mem_range.mp hmem, rfl⟩

/-- What a search allocates and writes. -/
theorem statSearch_some {content : List UInt8} {rest : Image} {vars : Vars} (junk : Nat → DataPoint) (hne : content ≠ [])
    (hnum : Numbered 0 (statLines content rest vars)) :
    ∃ points vars', statSearch content rest vars junk =
        some (some ⟨(statItems [] 0 (statLines content rest vars)).length, statPerLine 0 (statLines content rest vars),
        points, vars'⟩) ∧
      List.Forall₂ (NamedFor (statLines content rest vars)) (statFlat 0 0 (statLines content rest vars)) points ∧
      vars'.lineSize = vars.lineSize ∧ vars'.lineCount = vars.lineCount := by
  obtain ⟨vars', dict', hloop, hread, hsize, hcount⟩ := statRead_some hnum
  obtain ⟨points, hpoints, hforall⟩ := statPoints_forall junk 0 0 (List.drop_zero (l := statLines content rest vars))
    fun b line hl hline => hread.key b line (List.getElem?_eq_some_iff.mp hl).1 hl hline
  refine ⟨points, vars', ?_, hforall, hsize, hcount⟩
  simp only [statSearch, if_neg hne, hloop, hpoints, Option.pure_def, Option.bind_eq_bind, Option.bind_some]

/-- As many entries are written as are allocated exactly if the count never starts over. -/
theorem statSearch_written {content : List UInt8} {rest : Image} {vars : Vars} (junk : Nat → DataPoint) (hne : content ≠ [])
    (hnum : Numbered 0 (statLines content rest vars)) :
    ∃ s, statSearch content rest vars junk = some (some s) ∧ s.written.length = (s.dpPerLine.map Int.toNat).sum ∧
      (s.written.length = s.dpCount ↔ NoEmptyBehind (statLines content rest vars)) := by
  obtain ⟨points, vars', hsearch, hforall, -⟩ := statSearch_some junk hne hnum
  have hcount := (written_count (statLines content rest vars) (Nat.zero_le dictSize)).2
  have hover : NeverOver 0 (statLines content rest vars) ↔ NoEmptyBehind (statLines content rest vars) :=
    ⟨fun h => h.2, fun h => ⟨fun h0 => absurd h0 (Nat.lt_irrefl 0), h⟩⟩
  have hlen : (statItems [] 0 (statLines content rest vars)).length = (statLines content rest vars).foldl statCount 0 :=
    statItems_length 0 _ (Nat.zero_le dictSize)
  have hpoints : points.length = written (statPerLine 0 (statLines content rest vars)) := by
    rw [← hforall.length_eq, statFlat_length]
  rw [hover, Nat.add_zero, ← hlen, ← hpoints] at hcount
  exact ⟨_, hsearch, hpoints, hcount⟩

/-- A line with a number outside the dictionary makes the search undefined. -/
theorem statSearch_none {content : List UInt8} {rest : Image} {vars : Vars} (junk : Nat → DataPoint) (hne : content ≠ [])
    (hnum : ¬Numbered 0 (statLines content rest vars)) : statSearch content rest vars junk = none := by
  simp only [statSearch, if_neg hne, statRead_none hnum, Option.bind_eq_bind, Option.bind_none]

end Pixel845.Datatop
