import Pixel845.Datatop.Tokens
import Pixel845.Lemmas.DatatopStat
import Pixel845.Lemmas.DatatopDev

/-!
# Helpers: tokenisers and their accesses

A program over single accesses computes what the tokeniser that it stands for says, and touches only the bytes named here. A
search has one lemma for its value and one for its accesses (`find_value`, `find_performs`), and every tokeniser is put together
from those.
-/

namespace Pixel845.Datatop

variable {id : BufId} {s : TokState} {test : UInt8 → Bool} {n i k len : Nat} {P : TokOp → Prop}

/-! ## Searches -/

/-- The loop gives the first position that passes the test. -/
@[simp] theorem find_value (id : BufId) (s : TokState) (test : UInt8 → Bool) (n i : Nat) :
    (find test n i).value (TokOp.exec id) s = scanFor test s.line n i := by
  induction n generalizing i with
  | zero => rfl
  | succ n ih =>
    unfold scanFor at ih ⊢
    rw [find, positions, Prog.call_bind, Prog.value_op, TokOp.exec_get]
    by_cases htest : test (s.line i) = true
    · rw [if_pos htest, if_pos htest]
      rfl
    · rw [if_neg htest, if_neg htest, ih]

/-- The loop changes nothing. -/
@[simp] theorem find_final (id : BufId) (s : TokState) (test : UInt8 → Bool) (n i : Nat) :
    (find test n i).final (TokOp.exec id) s = s := by
  induction n generalizing i with
  | zero => rfl
  | succ n ih =>
    rw [find, Prog.call_bind, Prog.final_op, TokOp.exec_get]
    by_cases htest : test (s.line i) = true
    · rw [if_pos htest]
      rfl
    · rw [if_neg htest, ih]

/-- What a search finds lies in its range. -/
theorem scanFor_range {m : Image} {q : Nat} (h : scanFor test m n i = some q) : i ≤ q ∧ q < i + n ∧ test (m q) = true := by
  induction n generalizing i with
  | zero => cases h
  | succ n ih =>
    unfold scanFor at ih h
    rw [positions] at h
    split at h
    case isTrue htest =>
      obtain rfl := Option.some.inj h
      exact ⟨Nat.le_refl _, by omega, htest⟩
    case isFalse =>
      obtain ⟨h1, h2, h3⟩ := ih h
      exact ⟨by omega, by omega, h3⟩

/-- Nothing in front of it passes the test. -/
theorem scanFor_first {m : Image} {q j : Nat} (h : scanFor test m n i = some q) (hj : i ≤ j) (hjq : j < q) :
    test (m j) = false := by
  induction n generalizing i with
  | zero => cases h
  | succ n ih =>
    unfold scanFor at ih h
    rw [positions] at h
    split at h
    case isTrue =>
      obtain rfl := Option.some.inj h
      omega
    case isFalse htest =>
      rcases Nat.eq_or_lt_of_le hj with rfl | hlt
      · simpa using htest
      · exact ih h hlt

/-- A search that finds nothing has no byte in its range that passes. -/
theorem scanFor_eq_none {m : Image} (h : scanFor test m n i = none) {j : Nat} (hj : i ≤ j) (hjn : j < i + n) :
    test (m j) = false := by
  induction n generalizing i with
  | zero => omega
  | succ n ih =>
    unfold scanFor at ih h
    rw [positions] at h
    split at h
    case isTrue => cases h
    case isFalse htest =>
      rcases Nat.eq_or_lt_of_le hj with rfl | hlt
      · simpa using htest
      · exact ih h hlt (by omega)

/-- A byte in the range that passes is found, or one in front of it. -/
theorem scanFor_some {m : Image} {j : Nat} (hj : i ≤ j) (hjn : j < i + n) (htest : test (m j) = true) :
    ∃ q, scanFor test m n i = some q ∧ q ≤ j := by
  cases h : scanFor test m n i with
  | none =>
    rw [scanFor_eq_none h hj hjn] at htest
    cases htest
  | some q =>
    refine ⟨q, rfl, ?_⟩
    by_contra hlt
    rw [scanFor_first h hj (by omega)] at htest
    cases htest

/-- More rounds find the same. -/
theorem scanFor_more {m : Image} {q : Nat} (n' : Nat) (h : scanFor test m n i = some q) (hn : n ≤ n') :
    scanFor test m n' i = some q := by
  obtain ⟨h1, h2, h3⟩ := scanFor_range h
  obtain ⟨q', hq', hle⟩ := scanFor_some (n := n') h1 (by omega) h3
  obtain ⟨h1', h2', h3'⟩ := scanFor_range hq'
  rcases Nat.eq_or_lt_of_le hle with rfl | hlt
  · exact hq'
  · rw [scanFor_first h h1' hlt] at h3'
    cases h3'

/-- A search reads the bytes of its range, up to the one that it finds. -/
theorem find_performs (h : ∀ j, i ≤ j → j < i + n → (∀ q, scanFor test s.line n i = some q → j ≤ q) → P (.get j)) :
    (find test n i).Performs (TokOp.exec id) P s := by
  induction n generalizing i with
  | zero => exact Prog.performs_ret _ _ _ _
  | succ n ih =>
    have hhead : P (.get i) := h i (Nat.le_refl i) (by omega) fun q hq => (scanFor_range hq).1
    rw [find, Prog.call_bind, Prog.performs_op, TokOp.exec_get]
    refine ⟨hhead, ?_⟩
    by_cases htest : test (s.line i) = true
    · rw [if_pos htest]
      exact Prog.performs_ret _ _ _ _
    · rw [if_neg htest]
      refine ih fun j hj hjn hq => h j (by omega) (by omega) ?_
      intro q hfound
      unfold scanFor at hfound hq
      rw [positions, if_neg htest] at hfound
      exact hq q hfound

theorem scanFor_congr {m m' : Image} (h : ∀ j, i ≤ j → j < i + n → m' j = m j) : scanFor test m' n i = scanFor test m n i := by
  rw [scanFor, scanFor, positions_congr h]

/-- A byte that was overwritten in front of its range does not change a search. -/
theorem scanFor_update {m : Image} {j : Nat} (c : UInt8) (h : j < i) :
    scanFor test (Function.update m j c) n i = scanFor test m n i :=
  scanFor_congr fun _ hi _ => Function.update_of_ne (by omega) _ _

/-! ## Bounds on accesses -/

/-- An access of the line is to one of its bytes or to the terminator behind them. -/
def TokOp.Inside (len : Nat) (o : TokOp) : Prop := ∀ i, o.offset? = some i → i ≤ len

/-- An access of the dictionary is to an entry below a bound. -/
def TokOp.Below (n : Nat) (o : TokOp) : Prop := ∀ k, o.entry? = some k → k < n

section Bounds

variable (len n i k off : Nat) (c : UInt8)

@[simp] theorem TokOp.inside_get : (TokOp.get i).Inside len ↔ i ≤ len := by simp [TokOp.Inside, TokOp.offset?]
@[simp] theorem TokOp.inside_put : (TokOp.put i c).Inside len ↔ i ≤ len := by simp [TokOp.Inside, TokOp.offset?]
@[simp] theorem TokOp.inside_setKey : (TokOp.setKey k off).Inside len := by simp [TokOp.Inside, TokOp.offset?]
@[simp] theorem TokOp.inside_setVal : (TokOp.setVal k off).Inside len := by simp [TokOp.Inside, TokOp.offset?]
@[simp] theorem TokOp.inside_setMax : (TokOp.setMax n).Inside len := by simp [TokOp.Inside, TokOp.offset?]

@[simp] theorem TokOp.below_get : (TokOp.get i).Below n := by simp [TokOp.Below, TokOp.entry?]
@[simp] theorem TokOp.below_put : (TokOp.put i c).Below n := by simp [TokOp.Below, TokOp.entry?]
@[simp] theorem TokOp.below_setKey : (TokOp.setKey k off).Below n ↔ k < n := by simp [TokOp.Below, TokOp.entry?]
@[simp] theorem TokOp.below_setVal : (TokOp.setVal k off).Below n ↔ k < n := by simp [TokOp.Below, TokOp.entry?]
@[simp] theorem TokOp.below_setMax : (TokOp.setMax k).Below n := by simp [TokOp.Below, TokOp.entry?]

end Bounds

/-- A search that ends in the line stays inside it. -/
theorem find_inside (h : i + n ≤ len + 1) : (find test n i).Performs (TokOp.exec id) (TokOp.Inside len) s :=
  find_performs fun j _ hj _ => (TokOp.inside_get len j).mpr (by omega)

/-- So does one that finds a byte of the line, or its terminator. -/
theorem find_inside_of_found {q : Nat} (h : scanFor test s.line n i = some q) (hq : q ≤ len) :
    (find test n i).Performs (TokOp.exec id) (TokOp.Inside len) s :=
  find_performs fun j _ _ hj => (TokOp.inside_get len j).mpr (Nat.le_trans (hj q h) hq)

/-! ## One access -/

theorem terminate_single (m : Image) (i : Nat) : terminate m [i] = Function.update m i 0 := by
  funext j
  by_cases h : j = i
  · subst h
    simp [terminate]
  · simp [terminate, h]

/-- The first string is ended before the others. -/
theorem terminate_cons (m : Image) (i : Nat) (is : List Nat) : terminate (Function.update m i 0) is = terminate m (i :: is) := by
  rw [← terminate_single, terminate_terminate]
  rfl

/-! ## Name and value on the same line -/

/-- The pointer to the value is set behind the byte found. -/
theorem sameLineVal_final (len1 k i : Nat) (s : TokState) :
    (sameLineVal len1 k i).final (TokOp.exec id) s =
      { line := s.line
        dict := { s.dict with
          val := setFrom s.dict.val k ((scanFor (· != 32) s.line (len1 - (i + 1)) (i + 1)).toList.map
            fun n => ⟨id, n + 1⟩) } } := by
  rw [sameLineVal, Prog.final_bind, find_value, find_final]
  cases scanFor (· != 32) s.line (len1 - (i + 1)) (i + 1) with
  | none => simp [setFrom_nil]
  | some n => simp [setFrom_single]

/-- The accesses of `dt_parse_proc_same_line_key_and_val` leave what the function leaves. -/
theorem sameLineTok_final (line : Image) (dict : Dict) (len1 l : Nat) :
    (sameLineTok len1 l).final (TokOp.exec id) ⟨line, dict⟩ =
      ⟨(parseProcSameLineKeyAndVal line id len1 l dict).1, (parseProcSameLineKeyAndVal line id len1 l dict).2⟩ := by
  unfold sameLineTok parseProcSameLineKeyAndVal
  by_cases hlen : len1 < 1
  · simp [hlen]
  by_cases hl : l < dictSize
  · cases hpos : positions (· == 32) line len1 0 with
    | nil => simp [hlen, hl, sameLinePair, scanFor, hpos]
    | cons i is =>
      have hupdate : scanFor (· != 32) (Function.update line i 0) (len1 - (i + 1)) (i + 1) =
          scanFor (· != 32) line (len1 - (i + 1)) (i + 1) := scanFor_update 0 (Nat.lt_add_one i)
      have hscan : scanFor (· == 32) line len1 0 = some i := by rw [scanFor, hpos, List.head?_cons]
      simp [hlen, hl, sameLinePair, hscan, sameLineVal_final, hupdate, terminate_single, setFrom_single]
      rfl
  · simp [hlen, hl]

/-! ## /proc/stat -/

theorem findSpace_scanFor (m : Image) (n i : Nat) : findSpace m n i = (scanFor (· == 32) m n i).getD (i + n) := by
  induction n generalizing i with
  | zero => rfl
  | succ n ih =>
    unfold scanFor at ih ⊢
    rw [findSpace, positions]
    by_cases h : m i = 32
    · simp [h]
    · have hne : ¬(m i == 32) = true := by simpa using h
      rw [if_neg h, if_neg hne, ih, Nat.add_assoc, Nat.add_comm 1]

/-- The values: pointers to the words, each with a terminator behind it. The induction is on the rounds; what was overwritten
stands in front of the offset, so that the words behind it are still those of the line. -/
theorem statVals_run (id : BufId) (len fuel i k : Nat) (s : TokState) :
    let words := (statWords s.line len fuel i).take (dictSize - k)
    (statVals len fuel i k).value (TokOp.exec id) s = k + words.length ∧
      (statVals len fuel i k).final (TokOp.exec id) s =
        ⟨terminate s.line ((words.map Prod.snd).filter (· < len)),
        { s.dict with val := setFrom s.dict.val k (words.map fun w => ⟨id, w.1⟩) }⟩ := by
  induction fuel generalizing i k s with
  | zero => simp [statVals, statWords, setFrom_nil, terminate_nil]
  | succ fuel ih =>
    rw [statVals]
    by_cases hguard : i < len ∧ k < dictSize
    · have hroom : dictSize - k = dictSize - (k + 1) + 1 := by omega
      rw [if_pos hguard, statWords, if_pos hguard.1]
      by_cases hspace : s.line i = 32
      · obtain ⟨hvalue, hfinal⟩ := ih (i + 1) k s
        simp [hspace, hvalue, hfinal]
      · have hfind := findSpace_scanFor s.line (len - i) i
        rw [if_pos hspace, hroom]
        cases hscan : scanFor (· == 32) s.line (len - i) i with
        | none =>
          rw [hscan, Option.getD_none, show i + (len - i) = len by omega] at hfind
          obtain ⟨hvalue, hfinal⟩ :=
            ih (len + 1) (k + 1) ⟨s.line, { s.dict with val := Function.update s.dict.val k (some ⟨id, i⟩) }⟩
          simp [hspace, hscan, hfind, hvalue, hfinal, setFrom_cons]
          omega
        | some j =>
          rw [hscan, Option.getD_some] at hfind
          have hlt : j < len := by
            have hrange := (scanFor_range hscan).2.1
            omega
          have hcongr : statWords (Function.update s.line j 0) len fuel (j + 1) = statWords s.line len fuel (j + 1) :=
            statWords_congr fun _ hj _ => Function.update_of_ne (by omega) _ _
          obtain ⟨hvalue, hfinal⟩ :=
            ih (j + 1) (k + 1) ⟨Function.update s.line j 0, { s.dict with val := Function.update s.dict.val k (some ⟨id, i⟩) }⟩
          simp only [hcongr] at hvalue hfinal
          simp [hspace, hscan, hfind, hvalue, hfinal, hlt, setFrom_cons, terminate_cons]
          omega
    · rw [if_neg hguard]
      have hnone : (statWords s.line len (fuel + 1) i).take (dictSize - k) = [] := by
        rw [statWords]
        by_cases hi : i < len
        · rw [show dictSize - k = 0 by omega, List.take_zero]
        · rw [if_neg hi, List.take_nil]
      simp [hnone, setFrom_nil, terminate_nil]

/-- What the accesses of `dt_stat_parse` leave of a line that is not empty. -/
theorem statTok_eq (m : Image) (id : BufId) (dict : Dict) {line : List UInt8} (nIndex vIndex : Nat) (hne : line ≠ []) :
    (statTok line.length nIndex vIndex).value (TokOp.exec id) ⟨m, dict⟩ = vIndex + (takenWords m line vIndex).length ∧
      (statTok line.length nIndex vIndex).final (TokOp.exec id) ⟨m, dict⟩ =
        ⟨statCut m line vIndex,
          { max := some (vIndex + (takenWords m line vIndex).length)
            key := setFrom dict.key nIndex [⟨id, 0⟩]
            val := setFrom dict.val vIndex ((takenWords m line vIndex).map fun w => ⟨id, w.1⟩) }⟩ := by
  have hlen : ¬line.length < 1 := by
    have hpos := List.length_pos_iff.mpr hne
    omega
  unfold statTok takenWords statCut takenWords
  cases hscan : scanFor (· == 32) m line.length 0 with
  | none =>
    obtain ⟨hvalue, hfinal⟩ := statVals_run id line.length line.length 0 vIndex
      ⟨m, { dict with key := Function.update dict.key nIndex (some ⟨id, 0⟩) }⟩
    rw [scanFor] at hscan
    simp [hlen, statStart, scanFor, hscan, hvalue, hfinal, setFrom_single]
  | some i =>
    have hcongr : statWords (Function.update m i 0) line.length line.length (i + 1) =
      statWords m line.length line.length (i + 1) :=
      statWords_congr fun _ hj _ => Function.update_of_ne (by omega) _ _
    obtain ⟨hvalue, hfinal⟩ := statVals_run id line.length line.length (i + 1) vIndex
      ⟨Function.update m i 0, { dict with key := Function.update dict.key nIndex (some ⟨id, 0⟩) }⟩
    simp only [hcongr] at hvalue hfinal
    rw [scanFor] at hscan
    simp [hlen, statStart, scanFor, hscan, hvalue, hfinal, setFrom_single, terminate_cons]

/-- The accesses of `dt_stat_parse` compute what the function computes. -/
theorem statTok_run (m : Image) (id : BufId) (dict : Dict) {line : List UInt8} {nIndex : Nat} (vIndex : Nat) (hne : line ≠ [])
    (hn : nIndex < dictSize) : statParse m id line.length nIndex vIndex dict =
      some (((statTok line.length nIndex vIndex).final (TokOp.exec id) ⟨m, dict⟩).line,
        ((statTok line.length nIndex vIndex).final (TokOp.exec id) ⟨m, dict⟩).dict,
        (statTok line.length nIndex vIndex).value (TokOp.exec id) ⟨m, dict⟩) := by
  obtain ⟨hvalue, hfinal⟩ := statTok_eq m id dict nIndex vIndex hne
  rw [hvalue, hfinal, statParse_eq vIndex dict hne hn]
  rfl

/-- The values are read and cut inside the line, as the searches in it end there. -/
theorem statVals_inside (len fuel i k : Nat) (s : TokState) :
    (statVals len fuel i k).Performs (TokOp.exec id) (TokOp.Inside len) s := by
  induction fuel generalizing i k s with
  | zero => exact Prog.performs_ret _ _ _ _
  | succ fuel ih =>
    rw [statVals]
    by_cases hguard : i < len ∧ k < dictSize
    · have hi : i ≤ len := Nat.le_of_lt hguard.1
      rw [if_pos hguard]
      by_cases hspace : s.line i = 32
      · simp [hspace, hi, ih]
      · have hfind : ∀ s, (find (· == 32) (len - i) i).Performs (TokOp.exec id) (TokOp.Inside len) s := fun _ =>
          find_inside (by omega)
        cases hscan : scanFor (· == 32) s.line (len - i) i with
        | none => simp [hspace, hi, hfind, hscan, ih]
        | some j =>
          have hj : j ≤ len := by
            have hrange := (scanFor_range hscan).2.1
            omega
          simp [hspace, hi, hfind, hscan, hj, ih]
    · rw [if_neg hguard]
      exact Prog.performs_ret _ _ _ _

/-- All accesses of the tokeniser are inside the line. -/
theorem statTok_inside (len1 nIndex vIndex : Nat) (s : TokState) :
    (statTok len1 nIndex vIndex).Performs (TokOp.exec id) (TokOp.Inside len1) s := by
  unfold statTok
  by_cases hlen : len1 < 1
  · simp [hlen]
  have hfind : ∀ s, (find (· == 32) len1 0).Performs (TokOp.exec id) (TokOp.Inside len1) s := fun _ => find_inside (by omega)
  cases hscan : scanFor (· == 32) s.line len1 0 with
  | none => simp [hlen, statStart, hfind, hscan, statVals_inside]
  | some i =>
    have hi : i ≤ len1 := by
      have hrange := (scanFor_range hscan).2.1
      omega
    simp [hlen, statStart, hfind, hscan, hi, statVals_inside]

/-! ## /proc/meminfo -/

/-- What `dt_meminfo_parse` computes where it stays in the buffer, its accesses compute within as many rounds. -/
theorem meminfoTok_run {size len1 l : Nat} {m : Image} {dict : Dict} {r : Image × Dict}
    (h : meminfoParse size m id len1 l dict = some r) : ((meminfoTok size len1 l).value (TokOp.exec id) ⟨m, dict⟩).isSome ∧
      (meminfoTok size len1 l).final (TokOp.exec id) ⟨m, dict⟩ = ⟨r.1, r.2⟩ := by
  unfold meminfoParse at h
  by_cases hlen : len1 < 1
  · rw [if_pos hlen] at h
    obtain rfl := Option.some.inj h
    simp [meminfoTok, hlen]
  rw [if_neg hlen] at h
  by_cases hl : l < dictSize
  case neg =>
    rw [if_pos (by omega)] at h
    cases h
  rw [if_neg (by omega)] at h
  cases hblank : scanFor isBlank m len1 0 with
  | none =>
    rw [hblank] at h
    obtain rfl := Option.some.inj h
    simp [meminfoTok, meminfoPair, hlen, hl, hblank, setFrom_single]
  | some i =>
    simp only [hblank, terminate_single, Option.bind_eq_bind, Option.bind_eq_some_iff, Option.pure_def, Option.some.injEq] at h
    obtain ⟨val, hval, n, hn, rfl⟩ := h
    have hval' := scanFor_more size hval (by omega)
    have hn' := scanFor_more size hn (by omega)
    simp [meminfoTok, meminfoPair, hlen, hl, hblank, hval', hn', setFrom_single]

/-! ## /proc/net/dev -/

/-- The words depend on what stands from the position on. -/
theorem devWords_congr_from {m m' : Image} {size len fuel j : Nat} (h : ∀ i, j ≤ i → m' i = m i) :
    devWords m' size len fuel j = devWords m size len fuel j := by
  induction fuel generalizing j with
  | zero => rfl
  | succ fuel ih =>
    have hscan : scanFor endsCounter m' (size - j) j = scanFor endsCounter m (size - j) j := scanFor_congr fun i hi _ => h i hi
    have hnext := ih (j := j + 1) fun i hi => h i (by omega)
    rw [devWords, devWords, h j (Nat.le_refl j), hscan, hnext]
    cases hn : scanFor endsCounter m (size - j) j with
    | none => rfl
    | some n =>
      have hle := (scanFor_range hn).1
      have hword := ih (j := n + 1) fun i hi => h i (by omega)
      simp only [Option.bind_eq_bind, Option.bind_some, hword]

/-- The counters: pointers to the words, each with a terminator behind it, as with `statVals_run`. -/
theorem devVals_run (id : BufId) {size len fuel j : Nat} (k : Nat) {s : TokState} {words : List (Nat × Nat)}
    (h : devWords s.line size len fuel j = some words) :
    (devVals size len fuel j k).value (TokOp.exec id) s = true ∧
      (devVals size len fuel j k).final (TokOp.exec id) s =
        ⟨terminate s.line ((words.map Prod.snd).filter (· < len)),
        { s.dict with val := setFrom s.dict.val k (words.map fun w => ⟨id, w.1⟩) }⟩ := by
  induction fuel generalizing j k s words with
  | zero =>
    obtain rfl := Option.some.inj h
    simp [devVals, setFrom_nil, terminate_nil]
  | succ fuel ih =>
    rw [devWords] at h
    rw [devVals]
    by_cases hj : j < len
    case neg =>
      rw [if_neg hj] at h
      obtain rfl := Option.some.inj h
      simp [hj, setFrom_nil, terminate_nil]
    rw [if_pos hj] at h
    by_cases hblank : isBlank (s.line j) = true
    · rw [if_pos hblank] at h
      obtain ⟨hvalue, hfinal⟩ := ih k h
      simp [hj, hblank, hvalue, hfinal]
    rw [if_neg hblank] at h
    simp only [Option.bind_eq_bind, Option.bind_eq_some_iff, Option.pure_def, Option.some.injEq] at h
    obtain ⟨n, hn, rest, hrest, rfl⟩ := h
    have hn' := scanFor_more size hn (by omega)
    by_cases hlt : n < len
    · have hcongr : devWords (Function.update s.line n 0) size len fuel (n + 1) = some rest :=
        (devWords_congr_from fun _ hi => Function.update_of_ne (by omega) _ _).trans hrest
      obtain ⟨hvalue, hfinal⟩ :=
        ih (s := ⟨Function.update s.line n 0, { s.dict with val := Function.update s.dict.val k (some ⟨id, j⟩) }⟩) (k + 1) hcongr
      simp [hj, hblank, hn', hlt, hvalue, hfinal, setFrom_cons, terminate_cons]
    · obtain ⟨hvalue, hfinal⟩ :=
        ih (s := ⟨s.line, { s.dict with val := Function.update s.dict.val k (some ⟨id, j⟩) }⟩) (k + 1) hrest
      simp [hj, hblank, hn', hlt, hvalue, hfinal, setFrom_cons]

/-- What `dt_dev_parse` computes where it stays in the buffer, its accesses compute within as many rounds. -/
theorem devTok_run {size len1 index : Nat} {m : Image} {dict : Dict} {r : Image × Dict}
    (h : devParse size m id len1 index dict = some r) : (devTok size len1 index).value (TokOp.exec id) ⟨m, dict⟩ = true ∧
      (devTok size len1 index).final (TokOp.exec id) ⟨m, dict⟩ = ⟨r.1, r.2⟩ := by
  simp only [devParse, Option.bind_eq_bind, Option.bind_eq_some_iff] at h
  obtain ⟨i, hi, h⟩ := h
  split at h
  · cases h
  simp only [Option.bind_eq_some_iff, Option.pure_def, Option.some.injEq] at h
  obtain ⟨words, hwords, rfl⟩ := h
  cases hcolon : scanFor (· == 58) m len1 0 with
  | none =>
    rw [hcolon] at hwords
    obtain ⟨hvalue, hfinal⟩ := devVals_run id 0 (s := ⟨m, { dict with key := Function.update dict.key index (some ⟨id, i⟩) }⟩)
      (by simpa [terminate_nil] using hwords)
    simp [devTok, devStart, hi, hcolon, hvalue, hfinal, setFrom_single, terminate_nil]
  | some c =>
    rw [hcolon] at hwords
    obtain ⟨hvalue, hfinal⟩ :=
      devVals_run id 0 (s := ⟨Function.update m (c + 1) 0, { dict with key := Function.update dict.key index (some ⟨id, i⟩) }⟩)
        (by simpa [terminate_single] using hwords)
    simp [devTok, devStart, hi, hcolon, hvalue, hfinal, setFrom_single, terminate_single]

/-! ## Values only -/

/-- A byte that was overwritten in front of the bytes looked at does not change the separators. -/
theorem positions_update {m : Image} {j : Nat} (c : UInt8) (h : j < i) :
    positions test (Function.update m j c) n i = positions test m n i :=
  positions_congr fun _ hi _ => Function.update_of_ne (by omega) _ _

/-- The values: a pointer behind each separator, which is overwritten. -/
theorem singleVals_run (id : BufId) (n i k : Nat) (s : TokState) :
    (singleVals n i k).value (TokOp.exec id) s = k + (positions isValueSep s.line n i).length ∧
      (singleVals n i k).final (TokOp.exec id) s =
        ⟨terminate s.line (positions isValueSep s.line n i),
          { s.dict with val := setFrom s.dict.val k (behind id (positions isValueSep s.line n i)) }⟩ := by
  induction n generalizing i k s with
  | zero => simp [singleVals, positions, behind, setFrom_nil, terminate_nil]
  | succ n ih =>
    rw [singleVals, positions]
    by_cases hsep : isValueSep (s.line i) = true
    · obtain ⟨hvalue, hfinal⟩ :=
        ih (i + 1) (k + 1) ⟨Function.update s.line i 0, { s.dict with val := Function.update s.dict.val k (some ⟨id, i + 1⟩) }⟩
      rw [positions_update 0 (Nat.lt_add_one i)] at hvalue hfinal
      simp [hsep, hvalue, hfinal, behind, setFrom_cons, terminate_cons]
      omega
    · obtain ⟨hvalue, hfinal⟩ := ih (i + 1) k s
      simp [hsep, hvalue, hfinal]

/-- What the accesses of `dt_single_line_parse` leave. -/
theorem singleTok_eq (m : Image) (id : BufId) (len1 : Nat) (dict : Dict) :
    (singleTok len1).value (TokOp.exec id) ⟨m, dict⟩ = (positions isValueSep m len1 0).length + 1 ∧
      (singleTok len1).final (TokOp.exec id) ⟨m, dict⟩ =
        ⟨terminate m (positions isValueSep m len1 0),
          { dict with
            max := some ((positions isValueSep m len1 0).length + 1)
            val := setFrom dict.val 0 (⟨id, 0⟩ :: behind id (positions isValueSep m len1 0)) }⟩ := by
  obtain ⟨hvalue, hfinal⟩ := singleVals_run id len1 0 1 ⟨m, { dict with val := Function.update dict.val 0 (some ⟨id, 0⟩) }⟩
  simp [singleTok, hvalue, hfinal, setFrom_cons, Nat.add_comm 1]

/-- The accesses of `dt_single_line_parse` compute what the function computes. -/
theorem singleTok_run {m : Image} {len1 : Nat} {dict : Dict} {r : Image × Dict} (h : singleLineParse m id len1 dict = some r) :
    (singleTok len1).final (TokOp.exec id) ⟨m, dict⟩ = ⟨r.1, r.2⟩ := by
  rw [singleLineParse] at h
  split at h
  · cases h
  · obtain rfl := Option.some.inj h
    exact (singleTok_eq m id len1 dict).2

/-- There is an entry for each separator behind the first one. -/
theorem singleVals_below (id : BufId) {n i k b : Nat} {s : TokState} (h : k + (positions isValueSep s.line n i).length ≤ b) :
    (singleVals n i k).Performs (TokOp.exec id) (TokOp.Below b) s := by
  induction n generalizing i k s with
  | zero => exact Prog.performs_ret _ _ _ _
  | succ n ih =>
    rw [positions] at h
    rw [singleVals]
    by_cases hsep : isValueSep (s.line i) = true
    · rw [if_pos hsep, List.length_cons] at h
      have hrest := ih (i := i + 1) (k := k + 1)
        (s := ⟨Function.update s.line i 0, { s.dict with val := Function.update s.dict.val k (some ⟨id, i + 1⟩) }⟩)
        (by rw [positions_update 0 (Nat.lt_add_one i)]; omega)
      have hk : k < b := by omega
      simp [hsep, hk, hrest]
    · rw [if_neg hsep] at h
      simp [hsep, ih h]

/-- All entries are set below the number of separators. -/
theorem singleTok_below {m : Image} {len1 b : Nat} {dict : Dict} (h : (positions isValueSep m len1 0).length < b) :
    (singleTok len1).Performs (TokOp.exec id) (TokOp.Below b) ⟨m, dict⟩ := by
  have hvals := singleVals_below id (n := len1) (i := 0) (k := 1) (b := b)
    (s := ⟨m, { dict with val := Function.update dict.val 0 (some ⟨id, 0⟩) }⟩) (by simp only; omega)
  have hb : 0 < b := by omega
  simp [singleTok, hb, hvals]

end Pixel845.Datatop
