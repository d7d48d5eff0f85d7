import Pixel845.Lemmas.DatatopLookup
import Pixel845.Lemmas.DatatopTokens

/-!
# A line of /proc/meminfo

`dt_meminfo_parse` looks for the value and for the space behind it without regard to the end of the line. The first search ends at
the terminator at the latest. The second one ends in the line exactly when there is a space behind the value
(`meminfo_inside_iff`), as there is in front of the unit of most lines; a line without a unit is read, and written, behind its
end.
-/

namespace Pixel845.Datatop

/-- If the line has a blank at all, a space follows the value. -/
def ValueEnds (line : List UInt8) : Prop := (∃ c ∈ line, isBlank c = true) → 32 ∈ fromValue line

/-- `dt_meminfo_parse` ends on the line, and touches none of its bytes behind the terminator. -/
def StaysInside (m : Image) (id : BufId) (line : List UInt8) (l : Nat) (dict : Dict) : Prop :=
  ∃ rounds, ((meminfoTok rounds line.length l).value (TokOp.exec id) ⟨m, dict⟩).isSome ∧
    (meminfoTok rounds line.length l).Performs (TokOp.exec id) (TokOp.Inside line.length) ⟨m, dict⟩

namespace MemLineAux

variable {m : Image} {id : BufId} {line : List UInt8} {l : Nat} {dict : Dict}

/-- A line without a blank is only read. -/
theorem staysInside_of_plain (hne : line ≠ []) (hm : m.Has 0 (line ++ [0])) (hplain : ∀ c ∈ line, isBlank c = false) :
    StaysInside m id line l dict := by
  have hlen : ¬line.length < 1 := by
    have hpos := List.length_pos_iff.mpr hne
    omega
  have hhas := (Image.has_append.mp hm).1
  have hscan : scanFor isBlank m line.length 0 = none := by
    refine scanFor_none fun j _ hj => ?_
    have hget := hhas.getElem (i := j) (by omega)
    rw [Nat.zero_add] at hget
    rw [hget]
    exact hplain _ (List.getElem_mem _)
  have hfind : ∀ s, (find isBlank line.length 0).Performs (TokOp.exec id) (TokOp.Inside line.length) s := fun _ =>
    find_inside (by omega)
  refine ⟨0, ?_⟩
  by_cases hl : l < dictSize
  · simp [meminfoTok, meminfoPair, hlen, hl, hscan, hfind]
  · simp [meminfoTok, hlen, hl]

/-- With an index that the dictionary does not have, the line is not looked at. -/
theorem staysInside_of_index (hl : ¬l < dictSize) : StaysInside m id line l dict := by
  refine ⟨0, ?_⟩
  by_cases hlen : line.length < 1
  · simp [meminfoTok, hlen]
  · simp [meminfoTok, hlen, hl]

/-- A scan behind the name does not see that it was ended. -/
theorem scan_cut {name : List UInt8} (test : UInt8 → Bool) (n i : Nat) (h : name.length < i) :
    scanFor test (Function.update m name.length 0) n i = scanFor test m n i := scanFor_update 0 h

/-- If the parser stays inside a line with a blank, a space follows the value. -/
theorem space_of_staysInside {name gap : List UInt8} {b : UInt8} (hm : m.Has 0 (line ++ [0])) (hl : l < dictSize)
    (hline : line = name ++ b :: (gap ++ fromValue line)) (hname : ∀ c ∈ name, isBlank c = false) (hb : isBlank b = true)
    (hgap : ∀ c ∈ gap, isBlank c = true) (hvalue : ∀ c ∈ (fromValue line).head?, isBlank c = false)
    (h : StaysInside m id line l dict) : 32 ∈ fromValue line := by
  obtain ⟨rounds, hended, hinside⟩ := h
  have hlen : ¬line.length < 1 := by
    rw [hline]
    simp
  have hfirst := scanFor_blank hm hline hname hb
  have hcut := @scan_cut m name
  cases hval : scanFor (!isBlank ·) m rounds (name.length + 1) with
  | none => simp [meminfoTok, meminfoPair, hlen, hl, hfirst, hcut, hval] at hended
  | some v =>
    have hv : v = name.length + 1 + gap.length := by
      have hmore := scanFor_more _ hval (Nat.le_max_left rounds (gap.length + 1))
      rw [scanFor_value hm hline hgap hvalue _ (by omega)] at hmore
      exact (Option.some.inj hmore).symm
    have hlt : name.length < v := by omega
    cases hspace : scanFor (· == 32) m rounds v with
    | none => simp [meminfoTok, meminfoPair, hlen, hl, hfirst, hcut, hval, hlt, hspace] at hended
    | some q =>
      -- the byte that is overwritten behind the value lies in the line
      have hq : q ≤ line.length := by
        simp [meminfoTok, meminfoPair, hlen, hl, hfirst, hcut, hval, hlt, hspace] at hinside
        exact hinside.2.2.2.2
      obtain ⟨hle, -, h32⟩ := scanFor_range hspace
      exact space_in_value hm hline (by omega) hq (by simpa using h32)

/-- If a space follows the value, the parser stays inside the line. -/
theorem staysInside_of_space {name gap : List UInt8} {b : UInt8} (hm : m.Has 0 (line ++ [0])) (hl : l < dictSize)
    (hline : line = name ++ b :: (gap ++ fromValue line)) (hname : ∀ c ∈ name, isBlank c = false) (hb : isBlank b = true)
    (hgap : ∀ c ∈ gap, isBlank c = true) (hvalue : ∀ c ∈ (fromValue line).head?, isBlank c = false)
    (hspace : 32 ∈ fromValue line) :
    StaysInside m id line l dict := by
  obtain ⟨t, u, hval, ht⟩ := List.eq_append_cons_of_mem hspace
  have hlength : line.length = name.length + 1 + gap.length + (t.length + 1 + u.length) := by
    conv_lhs => rw [hline]
    simp only [hval, List.length_append, List.length_cons]
    omega
  have hlen : ¬line.length < 1 := by omega
  have hfirst := scanFor_blank hm hline hname hb
  have hcut := @scan_cut m name
  have hfound := scanFor_value hm hline hgap hvalue (line.length + 1) (by omega)
  have hend : scanFor (· == 32) m (line.length + 1) (name.length + 1 + gap.length) =
      some (name.length + 1 + gap.length + t.length) := by
    have hhas := (Image.has_append.mp hm).1
    rw [hline, hval, Image.has_append, Image.has_cons, Image.has_append, Nat.zero_add] at hhas
    refine scanFor_has _ _ hhas.2.2.2 ?_ rfl (by omega)
    intro c hc
    rw [beq_eq_false_iff_ne]
    rintro rfl
    exact ht hc
  have hlt : name.length < name.length + 1 + gap.length := by omega
  have hfind : ∀ s, (find isBlank line.length 0).Performs (TokOp.exec id) (TokOp.Inside line.length) s := fun _ =>
    find_inside (by omega)
  refine ⟨line.length + 1, ?_, ?_⟩
  · simp [meminfoTok, meminfoPair, hlen, hl, hfirst, hcut, hfound, hlt, hend]
  · simp [meminfoTok, meminfoPair, hlen, hl, hfirst, hcut, hfound, hlt, hend, hfind]
    exact ⟨by omega, find_inside_of_found ((hcut _ _ _ (by omega)).trans hfound) (by omega),
      find_inside_of_found ((hcut _ _ _ (by omega)).trans hend) (by omega), by omega⟩

/-- The parser stays inside a line exactly if the line has no blank, or a space follows its value, or the dictionary has no
entry for it. -/
theorem staysInside_iff (m : Image) (id : BufId) (line : List UInt8) (l : Nat) (dict : Dict) (hne : line ≠ [])
    (hm : m.Has 0 (line ++ [0])) : StaysInside m id line l dict ↔ dictSize ≤ l ∨ ValueEnds line := by
  by_cases hl : l < dictSize
  case neg => simp [staysInside_of_index hl, Nat.le_of_not_lt hl]
  have hl' : ¬dictSize ≤ l := by omega
  rcases memLine_cases line with hplain | ⟨name, b, gap, hline, hname, hb, hgap, hvalue⟩
  · have hends : ValueEnds line := by
      rintro ⟨c, hc, hblank⟩
      rw [hplain c hc] at hblank
      cases hblank
    simp [staysInside_of_plain hne hm hplain, hends]
  have hends : ValueEnds line ↔ 32 ∈ fromValue line := by
    have hblank : ∃ c ∈ line, isBlank c = true := ⟨b, by rw [hline]; simp, hb⟩
    exact ⟨fun h => h hblank, fun h _ => h⟩
  rw [or_iff_right hl', hends]
  constructor
  · intro h
    exact space_of_staysInside hm hl hline hname hb hgap hvalue h
  · intro h
    exact staysInside_of_space hm hl hline hname hb hgap hvalue h

end MemLineAux

/-- The parser stays inside a line exactly if the line has no blank, or a space follows its value, or the dictionary has no
entry for it. -/
theorem meminfo_inside_iff (m : Image) (id : BufId) (line : List UInt8) (l : Nat) (dict : Dict) (hne : line ≠ [])
    (hm : m.Has 0 (line ++ [0])) : StaysInside m id line l dict ↔ dictSize ≤ l ∨ ValueEnds line :=
  MemLineAux.staysInside_iff m id line l dict hne hm

/-- `M 7 kB` -/
def unitText : List UInt8 := [77, 32, 55, 32, 107, 66]

/-- The rule for a line with its unit. -/
theorem meminfo_inside_iff_unit :
    unitText ≠ [] ∧ (Image.zero.write 0 (unitText ++ [0])).Has 0 (unitText ++ [0]) ∧
      (StaysInside (Image.zero.write 0 (unitText ++ [0])) (.line 0) unitText 0 .unset ↔ dictSize ≤ 0 ∨ ValueEnds unitText) :=
  ⟨by decide, Image.has_write _ _ _, meminfo_inside_iff _ (.line 0) unitText 0 .unset (by decide) (Image.has_write _ _ _)⟩

/-- `H 7`, a line without a unit -/
def bareText : List UInt8 := [72, 32, 55]

/-- The parser leaves the line `H 7`. -/
theorem not_meminfo_inside :
    ¬ ∀ (m : Image) (id : BufId) (line : List UInt8) (l : Nat) (dict : Dict), line ≠ [] → m.Has 0 (line ++ [0]) →
      StaysInside m id line l dict := by
  intro h
  have hinside := h (Image.zero.write 0 (bareText ++ [0])) (.line 0) bareText 0 .unset (by decide) (Image.has_write _ _ _)
  rw [MemLineAux.staysInside_iff _ _ _ _ _ (by decide) (Image.has_write _ _ _)] at hinside
  rcases hinside with hindex | hends
  · exact absurd hindex (by decide)
  · exact absurd (hends ⟨32, by decide, by decide⟩) (by decide)

end Pixel845.Datatop
