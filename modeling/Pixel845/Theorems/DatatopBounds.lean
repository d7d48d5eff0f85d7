import Pixel845.Lemmas.DatatopTokens

/-!
# The dictionary by the number of the line

Four tokenisers take the number of a line for the index of an entry of the dictionary, and that number is counted over the whole
file. Only `dt_parse_proc_same_line_key_and_val` compares it with the size of the dictionary, and not where it sets `max`. So they
stay in the dictionary exactly if no line that is looked at has a number of `DTOP_DICT_SIZE` or more; and `max`, which is not set
before, is one of the dictionary only if some line is looked at (`dictionary_bounds`).
-/

namespace Pixel845.Datatop

/-- The call for a line of this length writes the entry of its number, whatever the number is. -/
def LineParser.WritesAt : LineParser → Nat → Prop
  | sameLine, _ => False
  | meminfo, len | stat, len => 1 ≤ len
  | dev _, _ => True

/-- Lines of some lengths have numbers that are indices of the dictionary. -/
def Indexed (P : Nat → Prop) (lens : List Nat) : Prop := ∀ i len, lens[i]? = some len → P len → i < dictSize

/-- The lines are such that only entries of the dictionary are written. -/
def LineParser.WritesFit (p : LineParser) (lens : List Nat) : Prop := Indexed p.WritesAt lens

/-- The lines are such that `max` is set, to no more than the dictionary has entries; `dt_stat_parse` counts values, which it
stops in time, and `dt_dev_parse` sets no `max`. -/
def LineParser.MaxFits (p : LineParser) (lens : List Nat) : Prop :=
  match p with
  | sameLine | meminfo => Indexed (1 ≤ ·) lens ∧ ∃ len ∈ lens, 1 ≤ len
  | stat => ∃ len ∈ lens, 1 ≤ len
  | dev _ => False

/-- The `max` that is left was set, to no more than the dictionary has entries, so that a search by name stays in it. -/
def Dict.MaxInside (dict : Dict) : Prop := ∃ m, dict.max = some m ∧ m ≤ dictSize

namespace BoundsAux

variable {id : BufId} {s : TokState} {p : LineParser} {rounds len i count : Nat}

/-- A scan sets no entries. -/
@[simp] theorem find_below (test : UInt8 → Bool) (n i : Nat) (s : TokState) :
    (find test n i).Performs (TokOp.exec id) (TokOp.Below dictSize) s :=
  find_performs fun j _ _ _ => TokOp.below_get _ j

/-! ### One line -/

/-- This tokeniser checks each index. -/
theorem sameLineTok_below : (sameLineTok len i).Performs (TokOp.exec id) (TokOp.Below dictSize) s := by
  unfold sameLineTok
  by_cases hlen : len < 1
  · simp [hlen]
  by_cases hlt : i < dictSize
  case neg => simp [hlen, hlt]
  cases hkey : scanFor (· == 32) s.line len 0 with
  | none => simp [hlen, hlt, sameLinePair, hkey]
  | some q =>
    cases hval : scanFor (· != 32) (Function.update s.line q 0) (len - (q + 1)) (q + 1) with
    | none => simp [hlen, hlt, sameLinePair, sameLineVal, hkey, hval]
    | some v => simp [hlen, hlt, sameLinePair, sameLineVal, hkey, hval]

/-- This tokeniser writes at the number of the line. -/
theorem meminfoTok_below (hi : 1 ≤ len → i < dictSize) :
    (meminfoTok rounds len i).Performs (TokOp.exec id) (TokOp.Below dictSize) s := by
  unfold meminfoTok
  by_cases hlen : len < 1
  · simp [hlen]
  have hlt : i < dictSize := hi (by omega)
  cases hblank : scanFor isBlank s.line len 0 with
  | none => simp [hlen, hlt, meminfoPair, hblank]
  | some q =>
    cases hval : scanFor (!isBlank ·) (Function.update s.line q 0) rounds (q + 1) with
    | none => simp [hlen, hlt, meminfoPair, hblank, hval]
    | some v =>
      cases hend : scanFor (· == 32) (Function.update s.line q 0) rounds v with
      | none => simp [hlen, hlt, meminfoPair, hblank, hval, hend]
      | some e => simp [hlen, hlt, meminfoPair, hblank, hval, hend]

/-- The values of a line are written while there is room. -/
theorem statVals_below (n i k : Nat) (s : TokState) : (statVals len n i k).Performs (TokOp.exec id) (TokOp.Below dictSize) s := by
  induction n generalizing i k s with
  | zero => exact Prog.performs_ret _ _ _ _
  | succ n ih =>
    rw [statVals]
    by_cases hguard : i < len ∧ k < dictSize
    · by_cases hspace : s.line i = 32
      · simp [hguard, hspace, ih]
      · cases hscan : scanFor (· == 32) s.line (len - i) i with
        | none => simp [hguard, hspace, hscan, ih]
        | some j => simp [hguard, hspace, hscan, ih]
    · rw [if_neg hguard]
      exact Prog.performs_ret _ _ _ _

/-- The values are no more than the dictionary has room for. -/
theorem statVals_le (n i : Nat) {k : Nat} (hk : k ≤ dictSize) (s : TokState) :
    (statVals len n i k).value (TokOp.exec id) s ≤ dictSize := by
  rw [(statVals_run id len n i k s).1, List.length_take]
  omega

/-- The key is written at the number of the line, the values while there is room. -/
theorem statTok_below (hi : 1 ≤ len → i < dictSize) :
    (statTok len i count).Performs (TokOp.exec id) (TokOp.Below dictSize) s := by
  unfold statTok
  by_cases hlen : len < 1
  · simp [hlen]
  have hlt : i < dictSize := hi (by omega)
  cases hspace : scanFor (· == 32) s.line len 0 with
  | none => simp [hlen, hlt, statStart, hspace, statVals_below]
  | some q => simp [hlen, hlt, statStart, hspace, statVals_below]

/-- The count of values stays in the dictionary. -/
theorem statTok_le (id : BufId) (len i : Nat) (s : TokState) (hcount : count ≤ dictSize) :
    (statTok len i count).value (TokOp.exec id) s ≤ dictSize := by
  unfold statTok
  by_cases hlen : len < 1
  · simp [hlen]
  cases hspace : scanFor (· == 32) s.line len 0 with
  | none => simp [hlen, statStart, hspace, statVals_le _ _ hcount]
  | some q => simp [hlen, statStart, hspace, statVals_le _ _ hcount]

/-- What a call counts is what the tokeniser counts. -/
theorem stat_value {k : Nat} (h : (LineParser.stat.call rounds len i count).value (TokOp.exec id) s = some k) :
    (statTok len i count).value (TokOp.exec id) s = k := by
  simpa [LineParser.call] using h

/-- A line has no more counters than bytes. -/
theorem devVals_below (id : BufId) (rounds len j : Nat) {n k : Nat} (hk : k + n ≤ dictSize) (s : TokState) :
    (devVals rounds len n j k).Performs (TokOp.exec id) (TokOp.Below dictSize) s := by
  induction n generalizing j k s with
  | zero => exact Prog.performs_ret _ _ _ _
  | succ n ih =>
    have hlt : k < dictSize := by omega
    have hskip := fun j s => ih j (k := k) (by omega) s
    have hnext := fun j s => ih j (k := k + 1) (by omega) s
    rw [devVals]
    by_cases hj : j < len
    · by_cases hblank : isBlank (s.line j) = true
      · simp [hj, hblank, hskip]
      · cases hend : scanFor endsCounter s.line rounds j with
        | none => simp [hj, hblank, hlt, hend]
        | some e =>
          by_cases he : e < len
          · simp [hj, hblank, hlt, hend, he, hnext]
          · simp [hj, hblank, hlt, hend, he, hnext]
    · rw [if_neg hj]
      exact Prog.performs_ret _ _ _ _

/-- The key is written at the number of the interface, the counters by their order. -/
theorem devTok_below (hi : i < dictSize) (hlen : len ≤ dictSize) :
    (devTok rounds len i).Performs (TokOp.exec id) (TokOp.Below dictSize) s := by
  have hvals := fun j s => devVals_below id rounds len j (n := len) (k := 0) (by omega) s
  unfold devTok
  cases hname : scanFor (!isBlank ·) s.line rounds 0 with
  | none => simp [hname]
  | some q =>
    cases hcolon : scanFor (· == 58) s.line len 0 with
    | none => simp [hname, hi, devStart, hcolon, hvals]
    | some c => simp [hname, hi, devStart, hcolon, hvals]

/-- The call for a line stays in the dictionary if the line has an index where it needs one. -/
theorem call_below (id : BufId) (rounds count : Nat) (s : TokState) (hi : p.WritesAt len → i < dictSize)
    (hlen : len < p.lineSize) : (p.call rounds len i count).Performs (TokOp.exec id) (TokOp.Below dictSize) s := by
  cases p with
  | sameLine => simp [LineParser.call, sameLineTok_below]
  | meminfo => exact meminfoTok_below hi
  | stat => simp [LineParser.call, statTok_below hi]
  | dev ownDict =>
    have hlen' : len ≤ dictSize := by
      have hsize : (LineParser.dev ownDict).lineSize = dictSize := by cases ownDict <;> decide
      omega
    simp [LineParser.call, devTok_below (hi trivial) hlen']

/-- A call that ends and writes an entry without an index leaves the dictionary. -/
theorem call_not_below (hwrites : p.WritesAt len) (hi : dictSize ≤ i)
    (hended : ((p.call rounds len i count).value (TokOp.exec id) s).isSome) :
    ¬(p.call rounds len i count).Performs (TokOp.exec id) (TokOp.Below dictSize) s := by
  have hlt : ¬i < dictSize := by omega
  cases p with
  | sameLine => exact hwrites.elim
  | meminfo =>
    have hlen : ¬len < 1 := Nat.not_lt.mpr hwrites
    simp [LineParser.call, meminfoTok, hlen, hlt]
  | stat =>
    have hlen : ¬len < 1 := Nat.not_lt.mpr hwrites
    simp [LineParser.call, statTok, hlen, hlt]
  | dev ownDict =>
    cases hname : scanFor (!isBlank ·) s.line rounds 0 with
    | none => simp [LineParser.call, devTok, hname] at hended
    | some q => simp [LineParser.call, devTok, hname, hlt]

/-! ### The count of entries -/

/-- The maximum behind a line with content is its number and one. -/
theorem sameLineTok_max (id : BufId) (len i : Nat) (s : TokState) :
    ((sameLineTok len i).final (TokOp.exec id) s).dict.max = if len < 1 then s.dict.max else some (i + 1) := by
  rw [sameLineTok_final, parseProcSameLineKeyAndVal]
  by_cases hlen : len < 1
  · simp [hlen]
  by_cases hl : i < dictSize
  · rw [if_neg hlen, if_pos hl, if_neg hlen]
    split
    · rfl
    · rfl
  · simp [hlen, hl]

/-- The maximum behind a line with content is its number and one. -/
theorem meminfoTok_max {k : Nat} (h : (meminfoTok rounds len i).value (TokOp.exec id) s = some k) :
    ((meminfoTok rounds len i).final (TokOp.exec id) s).dict.max = if len < 1 then s.dict.max else some (i + 1) := by
  unfold meminfoTok at h ⊢
  by_cases hlen : len < 1
  · simp [hlen]
  by_cases hl : i < dictSize
  · cases hended : (meminfoPair rounds len i).value (TokOp.exec id)
      ⟨s.line, { s.dict with key := Function.update s.dict.key i (some ⟨id, 0⟩) }⟩ with
    | false => simp [hlen, hl, hended] at h
    | true => simp [hlen, hl, hended]
  · simp [hlen, hl]

/-- A line of `/proc/stat` that is looked at leaves the number of values so far. -/
theorem statTok_max (id : BufId) (len i count : Nat) (s : TokState) :
    ((statTok len i count).final (TokOp.exec id) s).dict.max =
      if len < 1 then s.dict.max else some ((statTok len i count).value (TokOp.exec id) s) := by
  by_cases hlen : len < 1
  · simp [statTok, hlen]
  · have hne : List.replicate len (0 : UInt8) ≠ [] := by
      rw [Ne, List.replicate_eq_nil_iff]
      omega
    obtain ⟨hvalue, hfinal⟩ := statTok_eq s.line id s.dict i count hne
    rw [List.length_replicate] at hvalue hfinal
    rw [if_neg hlen, hfinal, hvalue]

/-- Counters set no maximum. -/
theorem devVals_max (id : BufId) (rounds len n j k : Nat) (s : TokState) :
    ((devVals rounds len n j k).final (TokOp.exec id) s).dict.max = s.dict.max := by
  induction n generalizing j k s with
  | zero => rfl
  | succ n ih =>
    rw [devVals]
    by_cases hj : j < len
    case neg => simp [hj]
    by_cases hblank : isBlank (s.line j) = true
    · simp [hj, hblank, ih]
    · cases hend : scanFor endsCounter s.line rounds j with
      | none => simp [hj, hblank, hend]
      | some e =>
        by_cases he : e < len
        · simp [hj, hblank, hend, he, ih]
        · simp [hj, hblank, hend, he, ih]

/-- An interface sets no maximum. -/
theorem devTok_max (id : BufId) (rounds len i : Nat) (s : TokState) :
    ((devTok rounds len i).final (TokOp.exec id) s).dict.max = s.dict.max := by
  cases hname : scanFor (!isBlank ·) s.line rounds 0 with
  | none => simp [devTok, hname]
  | some q =>
    cases hcolon : scanFor (· == 58) s.line len 0 with
    | none => simp [devTok, hname, devStart, hcolon, devVals_max]
    | some c => simp [devTok, hname, devStart, hcolon, devVals_max]

/-! ### All lines -/

/-- Lines from a number on have indices if the first one has, and those behind it. -/
def IndexedFrom (P : Nat → Prop) (lens : List Nat) (i : Nat) : Prop := ∀ j len, lens[j]? = some len → P len → i + j < dictSize

theorem indexedFrom_zero {P : Nat → Prop} {lens : List Nat} : IndexedFrom P lens 0 ↔ Indexed P lens := by
  simp only [IndexedFrom, Indexed, Nat.zero_add]

/-- The first line has an index if it is written, and so have the others. -/
theorem indexedFrom_cons {P : Nat → Prop} {lens : List Nat} :
    IndexedFrom P (len :: lens) i ↔ (P len → i < dictSize) ∧ IndexedFrom P lens (i + 1) := by
  constructor
  · intro h
    refine ⟨h 0 len rfl, fun j len hj hlook => ?_⟩
    have hlt := h (j + 1) len (by simpa using hj) hlook
    omega
  · rintro ⟨h0, h⟩ j len' hj hlook
    cases j with
    | zero =>
      obtain rfl : len = len' := by simpa using hj
      exact h0 hlook
    | succ j =>
      have hlt := h j len' (by simpa using hj) hlook
      omega

/-- The loop writes only entries of the dictionary as long as the lines have indices, whether its calls end or not. -/
theorem run_below {lens : List Nat} {vars : Vars} {dict : Dict} (hlens : ∀ len ∈ lens, len < p.lineSize)
    (hindexed : IndexedFrom p.WritesAt lens i) : ∀ o ∈ (p.run rounds lens i count vars dict).1, o.Below dictSize := by
  induction lens generalizing i count vars dict with
  | nil => exact fun o ho => absurd ho List.not_mem_nil
  | cons len lens ih =>
    obtain ⟨hi, hrest⟩ := indexedFrom_cons.mp hindexed
    obtain ⟨hlen, hlens⟩ := List.forall_mem_cons.mp hlens
    have hcall := call_below (.line (i + p.skipped)) rounds count ⟨vars.buf (.line (i + p.skipped)), p.nextDict dict⟩ hi hlen
    rw [LineParser.run]
    simp only
    split
    · exact hcall
    · exact List.forall_mem_append.mpr ⟨hcall, ih hlens hrest⟩

/-- If all calls end, it does so only if the lines have indices. -/
theorem indexed_of_run {lens : List Nat} {vars : Vars} {dict : Dict} (hended : (p.run rounds lens i count vars dict).2.isSome)
    (hin : ∀ o ∈ (p.run rounds lens i count vars dict).1, o.Below dictSize) : IndexedFrom p.WritesAt lens i := by
  induction lens generalizing i count vars dict with
  | nil => simp [IndexedFrom]
  | cons len lens ih =>
    rw [LineParser.run] at hended hin
    simp only at hended hin
    split at hended
    · cases hended
    · rename_i k hk
      rw [hk] at hin
      obtain ⟨hcall, hrest⟩ := List.forall_mem_append.mp hin
      refine indexedFrom_cons.mpr ⟨fun hwrites => ?_, ih hended hrest⟩
      by_contra hi
      exact call_not_below hwrites (Nat.le_of_not_lt hi) (by rw [hk]; rfl) hcall

/-- A step of a loop whose calls all end. -/
theorem run_cons {lens : List Nat} {vars vars' : Vars} {dict dict' : Dict} {k' : Nat}
    (h : (p.run rounds (len :: lens) i count vars dict).2 = some (vars', dict', k')) :
    ∃ k vars1 s, s = (p.call rounds len i count).final (TokOp.exec (.line (i + p.skipped)))
        ⟨vars.buf (.line (i + p.skipped)), p.nextDict dict⟩ ∧
      (p.call rounds len i count).value (TokOp.exec (.line (i + p.skipped)))
      ⟨vars.buf (.line (i + p.skipped)), p.nextDict dict⟩ = some k ∧
      (p.run rounds lens (i + 1) k vars1 s.dict).2 = some (vars', dict', k') := by
  rw [LineParser.run] at h
  simp only at h
  split at h
  · cases h
  · rename_i k hk
    exact ⟨k, _, _, rfl, hk, h⟩

/-- A maximum that is set is inside if it is no more than the size. -/
theorem maxInside_some {dict : Dict} {n : Nat} (h : dict.max = some n) : dict.MaxInside ↔ n ≤ dictSize := by
  constructor
  · rintro ⟨m, hm, hle⟩
    obtain rfl := Option.some.inj (h.symm.trans hm)
    exact hle
  · exact fun hle => ⟨n, h, hle⟩

theorem maxInside_congr {dict dict' : Dict} (h : dict'.max = dict.max) : dict'.MaxInside ↔ dict.MaxInside := by
  rw [Dict.MaxInside, Dict.MaxInside, h]

/-- Where each line that is looked at sets `max` to its number, the last of them decides. -/
theorem run_max_lines (hp : p = .sameLine ∨ p = .meminfo) {lens : List Nat} {vars vars' : Vars} {dict dict' : Dict} {k' : Nat}
    (h : (p.run rounds lens i count vars dict).2 = some (vars', dict', k')) :
    dict'.MaxInside ↔ IndexedFrom (1 ≤ ·) lens i ∧ ((∃ len ∈ lens, 1 ≤ len) ∨ dict.MaxInside) := by
  induction lens generalizing i count vars dict with
  | nil =>
    obtain rfl := (Prod.mk.inj (Prod.mk.inj (Option.some.inj h)).2).1
    simp [IndexedFrom]
  | cons len lens ih =>
    obtain ⟨k, vars1, s, hs, hk, h⟩ := run_cons h
    have hmax : s.dict.max = if len < 1 then dict.max else some (i + 1) := by
      rw [hs]
      rcases hp with rfl | rfl
      · simp [LineParser.call, LineParser.nextDict, sameLineTok_max]
      · exact meminfoTok_max hk
    rw [ih h, indexedFrom_cons]
    by_cases hlen : len < 1
    · rw [if_pos hlen] at hmax
      have hno : ¬1 ≤ len := by omega
      simp only [hno, false_imp_iff, true_and, List.mem_cons, exists_eq_or_imp, false_or, maxInside_congr hmax]
    · rw [if_neg hlen] at hmax
      have hyes : 1 ≤ len := by omega
      simp only [hyes, true_imp_iff, List.mem_cons, exists_eq_or_imp, true_or, and_true, maxInside_some hmax]
      constructor
      · rintro ⟨hrest, ⟨len', hmem, hlen'⟩ | hle⟩
        · obtain ⟨j, hj⟩ := List.getElem?_of_mem hmem
          have hlt := hrest j len' hj hlen'
          exact ⟨by omega, hrest⟩
        · exact ⟨hle, hrest⟩
      · exact fun ⟨hi, hrest⟩ => ⟨hrest, .inr hi⟩

/-- Where it is set to the number of values, it is inside once it is set. -/
theorem run_max_stat {lens : List Nat} {vars vars' : Vars} {dict dict' : Dict} {k' : Nat} (hcount : count ≤ dictSize)
    (h : (LineParser.stat.run rounds lens i count vars dict).2 = some (vars', dict', k')) :
    dict'.MaxInside ↔ (∃ len ∈ lens, 1 ≤ len) ∨ dict.MaxInside := by
  induction lens generalizing i count vars dict with
  | nil =>
    obtain rfl := (Prod.mk.inj (Prod.mk.inj (Option.some.inj h)).2).1
    simp
  | cons len lens ih =>
    obtain ⟨k, vars1, s, hs, hk, h⟩ := run_cons h
    have hvalue := stat_value hk
    have hle :=
      statTok_le (.line (i + LineParser.stat.skipped)) len i ⟨vars.buf (.line (i + LineParser.stat.skipped)), dict⟩ hcount
    have hmax : s.dict.max = if len < 1 then dict.max else some k := by
      rw [hs, ← hvalue]
      simp [LineParser.call, LineParser.nextDict, statTok_max]
    rw [LineParser.nextDict] at hvalue
    rw [hvalue] at hle
    rw [ih hle h]
    by_cases hlen : len < 1
    · rw [if_pos hlen] at hmax
      have hno : ¬1 ≤ len := by omega
      simp only [hno, List.mem_cons, exists_eq_or_imp, false_or, maxInside_congr hmax]
    · rw [if_neg hlen] at hmax
      have hyes : 1 ≤ len := by omega
      simp only [hyes, List.mem_cons, exists_eq_or_imp, true_or, maxInside_some hmax, hle, or_true]

/-- Where it is not set, it stays unset. -/
theorem run_max_dev {ownDict : Bool} {lens : List Nat} {vars vars' : Vars} {dict dict' : Dict} {k' : Nat}
    (hunset : dict.max = none) (h : ((LineParser.dev ownDict).run rounds lens i count vars dict).2 = some (vars', dict', k')) :
    dict'.max = none := by
  induction lens generalizing i count vars dict with
  | nil =>
    obtain rfl := (Prod.mk.inj (Prod.mk.inj (Option.some.inj h)).2).1
    exact hunset
  | cons len lens ih =>
    obtain ⟨k, vars1, s, hs, hk, h⟩ := run_cons h
    refine ih ?_ h
    have hnext : ((LineParser.dev ownDict).nextDict dict).max = none := by
      cases ownDict with
      | true => rfl
      | false => exact hunset
    rw [hs]
    simp [LineParser.call, devTok_max, hnext]

/-- A line that is read is shorter than its buffer. -/
theorem readFrom_lt {content : List UInt8} {rest : Image} {vars : Vars} {n : Nat} (hsize : 1 ≤ vars.lineSize) :
    ∀ len ∈ (p.readFrom content rest vars n).2, len < vars.lineSize := by
  intro len hlen
  have hread : len ∈ ((readLines .line p.size vars).run (readFile content p.size rest).load).2 :=
    List.mem_of_mem_drop (List.mem_of_mem_take hlen)
  rw [readLines, readLinesLoop_run] at hread
  obtain ⟨l, hl, rfl⟩ := List.mem_map.mp hread
  have hle := lineLen_le hl
  omega

/-- The calls for name and value on the same line all end. -/
theorem sameLine_ends (lens : List Nat) (i count : Nat) (vars : Vars) (dict : Dict) :
    (LineParser.sameLine.run rounds lens i count vars dict).2.isSome := by
  induction lens generalizing i count vars dict with
  | nil => rfl
  | cons len lens ih =>
    have hvalue : ∀ id s, (LineParser.sameLine.call rounds len i count).value (TokOp.exec id) s =
        some ((sameLineTok len i).value (TokOp.exec id) s) := fun id s => by simp [LineParser.call]
    rw [LineParser.run]
    simp only [hvalue]
    exact ih _ _ _ _

/-- No line buffer is empty. -/
theorem lineSize_pos (p : LineParser) : 1 ≤ p.lineSize := by
  rcases p with _ | _ | _ | _ | _ <;> decide

/-- The maximum that a whole parse leaves. -/
theorem parse_max {content : List UInt8} {rest : Image} {vars vars' : Vars} {n k' : Nat} {dict' : Dict}
    (h : (p.parse rounds content rest vars n .unset).2 = some (vars', dict', k')) :
    dict'.MaxInside ↔ p.MaxFits (p.readFrom content rest vars n).2 := by
  have hunset : ¬Dict.unset.MaxInside := by
    rintro ⟨m, hm, -⟩
    cases hm
  have hlines : p = .sameLine ∨ p = .meminfo → (dict'.MaxInside ↔
      Indexed (1 ≤ ·) (p.readFrom content rest vars n).2 ∧ ∃ len ∈ (p.readFrom content rest vars n).2, 1 ≤ len) := by
    intro hp
    have hmax := run_max_lines hp h
    rwa [or_iff_left hunset, indexedFrom_zero] at hmax
  cases p with
  | sameLine => exact hlines (.inl rfl)
  | meminfo => exact hlines (.inr rfl)
  | stat =>
    have hmax := run_max_stat (Nat.zero_le _) h
    rwa [or_iff_left hunset] at hmax
  | dev ownDict =>
    refine iff_of_false ?_ id
    rintro ⟨m, hm, -⟩
    rw [run_max_dev rfl h] at hm
    cases hm

/-- A parse of single lines comes to its end. -/
theorem sameLine_parse_ends (rounds : Nat) (content : List UInt8) (rest : Image) (vars : Vars) (n : Nat) (dict : Dict) :
    (LineParser.sameLine.parse rounds content rest vars n dict).2.isSome := sameLine_ends _ _ _ _ _

end BoundsAux

open BoundsAux in
/-- For every file, line count and content of the line buffers, and in every loop over the lines: only entries of the dictionary
are written if no line whose number is taken unchecked has one of `DTOP_DICT_SIZE` or more, and if all calls end, only then. If
they do, the `max` that is left was set, to no more than there are entries, exactly if some line is looked at, and none of those
with a number of `DTOP_DICT_SIZE` or more. -/
theorem dictionary_bounds (p : LineParser) (content : List UInt8) (rest : Image) (lineCount n rounds : Nat)
    (buf : BufId → Image) : (p.WritesFit (p.readFrom content rest ⟨p.lineSize, lineCount, buf⟩ n).2 →
        ∀ o ∈ (p.parse rounds content rest ⟨p.lineSize, lineCount, buf⟩ n .unset).1, o.Below dictSize) ∧
      ∀ vars dict count, (p.parse rounds content rest ⟨p.lineSize, lineCount, buf⟩ n .unset).2 = some (vars, dict, count) →
        ((∀ o ∈ (p.parse rounds content rest ⟨p.lineSize, lineCount, buf⟩ n .unset).1, o.Below dictSize) ↔
          p.WritesFit (p.readFrom content rest ⟨p.lineSize, lineCount, buf⟩ n).2) ∧
        (dict.MaxInside ↔ p.MaxFits (p.readFrom content rest ⟨p.lineSize, lineCount, buf⟩ n).2) := by
  have hbelow : p.WritesFit (p.readFrom content rest ⟨p.lineSize, lineCount, buf⟩ n).2 →
      ∀ o ∈ (p.parse rounds content rest ⟨p.lineSize, lineCount, buf⟩ n .unset).1, o.Below dictSize := fun hfit =>
    run_below (readFrom_lt (lineSize_pos p)) (indexedFrom_zero.mpr hfit)
  refine ⟨hbelow, fun vars dict count hparse => ⟨⟨fun hin => ?_, hbelow⟩, parse_max hparse⟩⟩
  exact indexedFrom_zero.mp (indexed_of_run (Option.isSome_iff_exists.mpr ⟨_, hparse⟩) hin)

/-- Lines of one character each, as many as this. -/
def shortLines (n : Nat) : List (List UInt8) := List.replicate n [97]

namespace BoundsAux

/-- The lengths of such lines when they are read, as long as they fit the read buffer. -/
theorem readFrom_short {n : Nat} (hn : 2 * n ≤ singleSize) (buf : BufId → Image) :
    (LineParser.sameLine.readFrom ((shortLines n).flatMap (· ++ [10])) .zero ⟨LineParser.sameLine.lineSize, n, buf⟩ n).2 =
      List.replicate n 1 := by
  have hplain : ∀ l ∈ shortLines n, (10 : UInt8) ∉ l := by
    intro l hl
    rw [(List.mem_replicate.mp hl).2]
    decide
  have hlength : ((shortLines n).flatMap (· ++ [10])).length = 2 * n := by
    simp [shortLines, List.length_flatMap, Nat.mul_comm]
  have hshort : ∀ l ∈ shortLines n, l.length < LineParser.sameLine.lineSize := by
    intro l hl
    rw [(List.mem_replicate.mp hl).2]
    decide
  have hfit : ((shortLines n).flatMap (· ++ [10])).length ≤ singleSize := by rwa [hlength]
  have hcut := cutLines_ended hplain hshort hfit (List.length_replicate (n := n)).symm .zero
  have hread : ∀ vars, vars.lineSize = LineParser.sameLine.lineSize → vars.lineCount = n →
      (LineParser.sameLine.readFrom ((shortLines n).flatMap (· ++ [10])) .zero vars n).2 =
        (((cutLines (readFile ((shortLines n).flatMap (· ++ [10])) singleSize .zero) vars.lineSize singleSize n 0).map
        lineLen).drop 0).take n := by
    intro vars hsize hcount
    rw [LineParser.readFrom, readLines, hcount]
    simp only [readLinesLoop_run]
    rfl
  rw [hread _ rfl rfl, hcut, List.map_map, List.drop_zero]
  simp [shortLines, lineLen]

end BoundsAux

/-- A file of 2049 lines sets `max` to more entries than the dictionary has. -/
theorem dictionary_left :
    ¬∀ (p : LineParser) (content : List UInt8) (rest : Image) (lineCount n rounds : Nat) (buf : BufId → Image) vars dict count,
      (p.parse rounds content rest ⟨p.lineSize, lineCount, buf⟩ n .unset).2 = some (vars, dict, count) →
        (∀ o ∈ (p.parse rounds content rest ⟨p.lineSize, lineCount, buf⟩ n .unset).1, o.Below dictSize) ∧ dict.MaxInside := by
  intro h
  obtain ⟨⟨vars, dict, count⟩, hparse⟩ := Option.isSome_iff_exists.mp (BoundsAux.sameLine_parse_ends 0
    ((shortLines (dictSize + 1)).flatMap (· ++ [10])) .zero ⟨LineParser.sameLine.lineSize, dictSize + 1, fun _ => .zero⟩
    (dictSize + 1) .unset)
  obtain ⟨-, hmax⟩ := h .sameLine _ .zero (dictSize + 1) (dictSize + 1) 0 (fun _ => .zero) vars dict count hparse
  obtain ⟨hindexed, -⟩ := (BoundsAux.parse_max hparse).mp hmax
  rw [BoundsAux.readFrom_short (by decide)] at hindexed
  exact absurd (hindexed dictSize 1 (by simp) (Nat.le_refl 1)) (Nat.lt_irrefl _)

end Pixel845.Datatop
