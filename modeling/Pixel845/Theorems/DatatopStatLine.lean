import Pixel845.Lemmas.DatatopTokens

/-!
# A line of /proc/stat

What `dt_stat_parse` makes of a line with a space: its name is the text before the first one, its values are the words behind
that, as many as the dictionary has room for (`stat_line_tokenised`). Leading, repeated and trailing spaces make no difference,
and no byte behind the terminator of the line is read.
-/

namespace Pixel845.Datatop

/-- The values of a line that the dictionary has room for behind the first `vIndex`. -/
def statTaken (line : List UInt8) (vIndex : Nat) : List (List UInt8) := (statValues line).take (dictSize - vIndex)

/-- `dt_stat_parse` makes these tokens of a line in the buffer `id`, when the key goes to `nIndex` and the values go from
`vIndex` on. -/
structure StatTokenised (m : Image) (id : BufId) (line : List UInt8) (nIndex vIndex : Nat) (dict : Dict) (s : TokState)
    (k : Nat) : Prop where
  key : s.dict.key nIndex = some ⟨id, 0⟩ ∧ s.line.Has 0 (line.takeWhile (· != 32) ++ [0])
  val : ∀ j word, (statTaken line vIndex)[j]? = some word → ∃ off, off + word.length ≤ line.length ∧
    s.dict.val (vIndex + j) = some ⟨id, off⟩ ∧ s.line.Has off (word ++ [0])
  max : k = vIndex + (statTaken line vIndex).length ∧ s.dict.max = some k
  otherKeys : ∀ i, i ≠ nIndex → s.dict.key i = dict.key i
  otherVals : ∀ i, i < vIndex ∨ k ≤ i → s.dict.val i = dict.val i
  /-- The lines in the other buffers are as they were, and so is what lies behind this one. -/
  otherLines : (∀ (vars : Vars) p, p.buf ≠ id → (vars.setBuf id s.line).cstr p = vars.cstr p) ∧ ∀ i, line.length ≤ i →
    s.line i = m i

namespace StatLineAux

variable {m : Image} {id : BufId} {line : List UInt8} {dict : Dict}

/-- Other entries are as they were. -/
theorem setFrom_other (entries : Nat → Option Ptr) {k i : Nat} {ps : List Ptr} (h : i < k ∨ k + ps.length ≤ i) :
    setFrom entries k ps i = entries i := by
  unfold setFrom
  split
  · rw [List.getElem?_eq_none (by omega)]
    rfl
  · rfl

/-- Behind the line memory is as it was. -/
theorem statCut_behind (hm : m.Has 0 line) (vIndex : Nat) {i : Nat} (hi : line.length ≤ i) : statCut m line vIndex i = m i := by
  unfold statCut terminate
  rw [if_neg]
  intro hmem
  have hlt := (space_of_mem_cut hm hmem).1
  omega

/-- The line is tokenised. -/
theorem tokenised (nIndex vIndex : Nat) (dict : Dict) (hne : line ≠ []) (hm : m.Has 0 (line ++ [0])) :
    StatTokenised m id line nIndex vIndex dict ((statTok line.length nIndex vIndex).final (TokOp.exec id) ⟨m, dict⟩)
      ((statTok line.length nIndex vIndex).value (TokOp.exec id) ⟨m, dict⟩) := by
  obtain ⟨hvalue, hfinal⟩ := statTok_eq m id dict nIndex vIndex hne
  have hline := (Image.has_append.mp hm).1
  have hcount : (takenWords m line vIndex).length = (statTaken line vIndex).length := by
    rw [takenWords_length hline, statTaken, List.length_take]
  rw [hvalue, hfinal]
  refine ⟨⟨?_, statCut_has_key vIndex hm⟩, ?_, ⟨by rw [hcount], rfl⟩, ?_, ?_, ?_, ?_⟩
  · simp [setFrom]
  · intro j word hword
    obtain ⟨hj, hget⟩ := List.getElem?_eq_some_iff.mp hword
    have hroom : vIndex + j < dictSize := by
      rw [statTaken, List.length_take] at hj
      omega
    have hval : (statValues line)[j]? = some word := by
      rw [statTaken, List.getElem?_take_of_lt (by omega)] at hword
      exact hword
    obtain ⟨hfst, hle, hhas⟩ := statCut_has_value vIndex hm hval hroom
    rw [List.getElem?_map, Option.map_eq_some_iff] at hfst
    obtain ⟨w, hw, hoff⟩ := hfst
    refine ⟨_, hle, ?_, hhas⟩
    simp [setFrom, hw, hoff]
  · intro i hi
    refine setFrom_other _ ?_
    rw [List.length_singleton]
    omega
  · intro i hi
    refine setFrom_other _ ?_
    rwa [List.length_map]
  · intro vars p hp
    exact Vars.cstr_setBuf_of_ne hp
  · intro i hi
    exact statCut_behind hline vIndex hi

end StatLineAux

open StatLineAux in
/-- A line with a space is cut into its name and its values, and every access to it is to one of its bytes or to its terminator.
With an index for the key that the dictionary has, this is what `statParse` gives. -/
theorem stat_line_tokenised (m : Image) (id : BufId) (line : List UInt8) (nIndex vIndex : Nat) (dict : Dict) (hspace : 32 ∈ line)
    (hm : m.Has 0 (line ++ [0])) :
    let s := (statTok line.length nIndex vIndex).final (TokOp.exec id) ⟨m, dict⟩
    let k := (statTok line.length nIndex vIndex).value (TokOp.exec id) ⟨m, dict⟩
    StatTokenised m id line nIndex vIndex dict s k ∧
      (statTok line.length nIndex vIndex).Performs (TokOp.exec id) (TokOp.Inside line.length) ⟨m, dict⟩ ∧
      (nIndex < dictSize → statParse m id line.length nIndex vIndex dict = some (s.line, s.dict, k)) := by
  have hne : line ≠ [] := List.ne_nil_of_mem hspace
  exact ⟨tokenised nIndex vIndex dict hne hm, statTok_inside _ _ _ _, fun hn => statTok_run m id dict vIndex hne hn⟩

/-- `cpu  7 8`, with two spaces behind the name -/
def cpuText : List UInt8 := [99, 112, 117, 32, 32, 55, 32, 56]

/-- The rule for a line of two values. -/
theorem stat_line_tokenised_cpu :
    let m := Image.zero.write 0 (cpuText ++ [0])
    let s := (statTok cpuText.length 1 2047).final (TokOp.exec (.line 1)) ⟨m, .unset⟩
    let k := (statTok cpuText.length 1 2047).value (TokOp.exec (.line 1)) ⟨m, .unset⟩
    32 ∈ cpuText ∧ m.Has 0 (cpuText ++ [0]) ∧ statTaken cpuText 2047 = [[55]] ∧
      StatTokenised m (.line 1) cpuText 1 2047 .unset s k ∧
        (statTok cpuText.length 1 2047).Performs (TokOp.exec (.line 1)) (TokOp.Inside cpuText.length) ⟨m, .unset⟩ ∧
        (1 < dictSize → statParse m (.line 1) cpuText.length 1 2047 .unset = some (s.line, s.dict, k)) :=
  ⟨by decide, Image.has_write _ _ _, by decide,
    stat_line_tokenised _ (.line 1) cpuText 1 2047 .unset (by decide) (Image.has_write _ _ _)⟩

end Pixel845.Datatop
