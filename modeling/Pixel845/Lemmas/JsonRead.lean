import Pixel845.Json.Spec
import Pixel845.Lemmas.JsonPrint
import Mathlib.Tactic.IntervalCases

/-!
# Reading what was written, part by part

Where the tokener stands after it has read blanks, a word, a number or a quoted string. A value is read once the byte behind it is
met: `Yields` says that the tokener gets there with the value in its level, and that the levels below are as they were.
-/

namespace Pixel845.Json

variable {ρ : Type} {ops : DoubleOps ρ} {chunk : Bool} {s s' : TokRun ρ} {t t' t'' : Tokener ρ} {obj : JsonObject ρ}
  {v : JsonObject ρ} {c d x : UInt8} {rest more ws : List UInt8}

/-- What reading a value does not change. -/
structure Tokener.Keeps (t t' : Tokener ρ) : Prop where
  strict : t'.strict = t.strict
  maxDepth : t'.maxDepth = t.maxDepth
  err : t'.err = t.err
  levels : t'.levels = t.levels

/-- What is kept twice is kept. -/
theorem Tokener.Keeps.trans (h : t.Keeps t') (h' : t'.Keeps t'') : t.Keeps t'' :=
  ⟨h'.strict.trans h.strict, h'.maxDepth.trans h.maxDepth, h'.err.trans h.err, h'.levels.trans h.levels⟩

/-- The level of a value that was read. -/
def Level.finished (v : JsonObject ρ) : Level ρ := { state := .eatws, savedState := .finish, current := v, objFieldName := none }

/-- From a state the tokener gets to the byte behind a value, with the value in its level. -/
def Yields (ops : DoubleOps ρ) (chunk : Bool) (s : TokRun ρ) (v : JsonObject ρ) (x : UInt8) (more : List UInt8) : Prop :=
  ∃ t obj, Reaches (tokRound ops chunk) s ⟨t, obj, x, x :: more⟩ ∧ s.tok.Keeps t ∧ t.level = .finished v

/-- A round that redoes a character goes on at once. -/
theorem tokRound_of_redo (h : dispatch ops chunk s = .redo s') : tokRound ops chunk s = .inl s' := by
  rw [tokRound, h]
  rfl

/-- A round that is through with its character goes on with the next. -/
theorem tokRound_of_next (h : dispatch ops chunk s = .next s') (hc : s'.c ≠ 0) (hstr : s'.str = d :: x :: more) :
    tokRound ops chunk s = .inl { s' with c := x, str := x :: more } := by
  simp [tokRound, h, Outcome.resume, hc, hstr]

/-- What is yielded after some rounds is yielded. -/
theorem Yields.of_reaches (h : Reaches (tokRound ops chunk) s s') (hkeeps : s.tok.Keeps s'.tok)
    (h' : Yields ops chunk s' v x more) : Yields ops chunk s v x more := by
  obtain ⟨t, obj, hreach, hkeeps', hlevel⟩ := h'
  exact ⟨t, obj, h.trans hreach, hkeeps.trans hkeeps', hlevel⟩

/-! ## Tight loops -/

/-- A tight loop passes what it may and finds the first other character. -/
theorem tightLoop_found (pass : UInt8 → Bool) {a : List UInt8} (ha : ∀ y ∈ a, pass y = true ∧ y ≠ 0) (hc : pass c = false)
    (rest : List UInt8) : tightLoop pass (a ++ c :: rest) = (a, .found c (c :: rest)) := by
  have hpass : ∀ y ∈ a, (pass y && y != 0) = true := fun y hy => by simp [ha y hy]
  have htake : (a ++ c :: rest).takeWhile (fun y => pass y && y != 0) = a := by
    rw [List.takeWhile_append_of_pos hpass, List.takeWhile_cons]
    simp [hc]
  have hdrop : (a ++ c :: rest).dropWhile (fun y => pass y && y != 0) = c :: rest := by
    rw [List.dropWhile_append_of_pos hpass, List.dropWhile_cons]
    simp [hc]
  simp only [tightLoop, htake, hdrop, hc]
  rfl

/-- No space is `NUL`. -/
theorem ne_zero_of_isSpace (h : isSpace c = true) : c ≠ 0 := by
  rintro rfl
  exact absurd h (by decide)

/-- Blanks are passed over, up to a byte that is none and starts no comment. -/
theorem reaches_eatws (hws : Blank ws) (hst : t.state = .eatws) (hc : isSpace c = false) (h47 : c ≠ 47) :
    Reaches (tokRound ops chunk) ⟨t, obj, d, ws ++ c :: rest⟩ ⟨t.setState t.savedState, obj, c, c :: rest⟩ := by
  have hloop := tightLoop_found isSpace (a := ws) (fun y hy => ⟨hws y hy, ne_zero_of_isSpace (hws y hy)⟩) hc rest
  refine Reaches.single (tokRound_of_redo ?_)
  simp [dispatch, hst, onEatws, hloop, h47, TokRun.map]

/-! ## Words -/

/-- A word is spelled from some place on: one round for each of its bytes, and one that meets the byte behind it. -/
theorem reaches_word {st : TokenerState} {word : List UInt8} (hzero : ∀ y ∈ word, y ≠ 0)
    (hnext : ∀ (s : TokRun ρ) (a b : List UInt8), word = a ++ s.c :: b → s.tok.state = st → s.tok.stPos = a.length →
      s.tok.pb = a → dispatch ops chunk s = .next (s.map fun t => { t.append [s.c] with stPos := t.stPos + 1 }))
    (hlast : ∀ s : TokRun ρ, s.tok.state = st → s.tok.stPos = word.length → s.tok.pb = word →
      dispatch ops chunk s = .redo (s.map fun t => (t.append [s.c]).finishWith v))
    (a b : List UInt8) (hword : word = a ++ b) (hst : t.state = st) (hpos : t.stPos = a.length) (hpb : t.pb = a)
    (hfield : t.level.objFieldName = none) (hc : (b ++ x :: more).head? = some c) :
    Yields ops chunk ⟨t, obj, c, b ++ x :: more⟩ v x more := by
  induction b generalizing a t c with
  | nil =>
    obtain rfl : x = c := by simpa using hc
    rw [List.append_nil] at hword
    subst hword
    refine ⟨(t.append [x]).finishWith v, obj, Reaches.single (tokRound_of_redo (hlast _ hst hpos hpb)), ⟨rfl, rfl, rfl, rfl⟩, ?_⟩
    simp [Tokener.finishWith, Tokener.eatThen, Tokener.setState, Tokener.setSaved, Tokener.append, Level.finished, hfield]
  | cons y b ih =>
    obtain rfl : y = c := by simpa using hc
    have hdispatch := hnext ⟨t, obj, y, y :: b ++ x :: more⟩ a b hword hst hpos hpb
    obtain ⟨z, zs, hz⟩ : ∃ z zs, b ++ x :: more = z :: zs := by
      cases b with
      | nil => exact ⟨x, more, rfl⟩
      | cons z b => exact ⟨z, b ++ x :: more, rfl⟩
    have hround := tokRound_of_next hdispatch (hzero y (by rw [hword]; simp)) (congrArg (List.cons y) hz)
    refine Yields.of_reaches (Reaches.single hround) ⟨rfl, rfl, rfl, rfl⟩ ?_
    have hrest := ih (t := { t.append [y] with stPos := t.stPos + 1 }) (c := z) (a ++ [y]) (by simp [hword]) hst (by simp [hpos])
      (by simp [Tokener.append, hpb]) hfield (by rw [hz]; rfl)
    rwa [hz] at hrest

/-- The part of a word that has been spelled is its beginning. -/
theorem spelled_eq_take {word a b : List UInt8} (h : word = a ++ c :: b) : a ++ [c] = word.take (a.length + 1) := by
  have hlen : (a ++ [c]).length = a.length + 1 := by simp
  have hsplit : word = (a ++ [c]) ++ b := by simp [h]
  rw [hsplit, ← hlen, List.take_left]

/-- The beginning of a word matches it. -/
theorem matchesWord_of_take {word buf : List UInt8} {n : Nat} (strict : Bool) (h : buf.take n = word.take n) :
    matchesWord strict word buf n = true := by
  simp [matchesWord, h]

/-- A word matches as far as it is spelled. -/
theorem matchesWord_spelled {word a b : List UInt8} (strict : Bool) (h : word = a ++ c :: b) :
    matchesWord strict word (a ++ [c]) (min (a.length + 1) word.length) = true := by
  have hle : a.length + 1 ≤ word.length := by simp [h]
  refine matchesWord_of_take strict ?_
  rw [Nat.min_eq_left hle, spelled_eq_take h, List.take_take, Nat.min_self]

/-- The whole word matches itself, whatever comes behind. -/
theorem matchesWord_whole (word : List UInt8) (strict : Bool) (x : UInt8) :
    matchesWord strict word (word ++ [x]) (min (word.length + 1) word.length) = true := by
  refine matchesWord_of_take strict ?_
  simp

/-- Within a word the next character is awaited. -/
theorem onWord_next {word : List UInt8} (h : s.tok.stPos < word.length) :
    onWord s word v = .next (s.map fun t => { t with stPos := t.stPos + 1 }) :=
  if_neg (Nat.ne_of_lt h)

/-- At the end of a word its value is there. -/
theorem onWord_last {word : List UInt8} (h : s.tok.stPos = word.length) :
    onWord s word v = .redo (s.map (·.finishWith v)) := if_pos h

/-- A word starts a value. -/
theorem yields_word (st : TokenerState) {word : List UInt8} (hstate : t.state = .start) (hfield : t.level.objFieldName = none)
    (hhead : word.head? = some c)
    (hstart : ∀ s : TokRun ρ, s.c = c → onStart s = .redo (s.map fun t => { (t.setState st).resetPb with stPos := 0 }))
    (hzero : ∀ y ∈ word, y ≠ 0)
    (hnext : ∀ (s : TokRun ρ) (a b : List UInt8), word = a ++ s.c :: b → s.tok.state = st → s.tok.stPos = a.length →
      s.tok.pb = a → dispatch ops chunk s = .next (s.map fun t => { t.append [s.c] with stPos := t.stPos + 1 }))
    (hlast : ∀ s : TokRun ρ, s.tok.state = st → s.tok.stPos = word.length → s.tok.pb = word →
      dispatch ops chunk s = .redo (s.map fun t => (t.append [s.c]).finishWith v)) :
    Yields ops chunk ⟨t, obj, c, word ++ x :: more⟩ v x more := by
  have hdispatch : dispatch ops chunk ⟨t, obj, c, word ++ x :: more⟩ =
      .redo ⟨{ (t.setState st).resetPb with stPos := 0 }, obj, c, word ++ x :: more⟩ := by
    simp only [dispatch, hstate]
    exact hstart _ rfl
  refine Yields.of_reaches (Reaches.single (tokRound_of_redo hdispatch)) ⟨rfl, rfl, rfl, rfl⟩ ?_
  exact reaches_word hzero hnext hlast [] word rfl rfl rfl rfl hfield (by rw [List.head?_append, hhead]; rfl)

/-- A word of a state that compares with it first: it goes on as far as it is spelled, and ends behind it. -/
theorem word_next {word a b : List UInt8} {other : Outcome ρ} (hword : word = a ++ s.c :: b) (hpos : s.tok.stPos = a.length)
    (hpb : s.tok.pb = a) : (if matchesWord s.tok.strict word (s.tok.pb ++ [s.c]) (min (s.tok.stPos + 1) word.length) then
      onWord (s.map (·.append [s.c])) word v else other) =
      .next (s.map fun t => { t.append [s.c] with stPos := t.stPos + 1 }) := by
  have hmatch : matchesWord s.tok.strict word (s.tok.pb ++ [s.c]) (min (s.tok.stPos + 1) word.length) = true := by
    rw [hpos, hpb]
    exact matchesWord_spelled s.tok.strict hword
  have hlt : s.tok.stPos < word.length := by rw [hword, hpos]; simp
  rw [if_pos hmatch]
  exact onWord_next hlt

/-- The character behind a word ends it. -/
theorem word_last {word : List UInt8} {other : Outcome ρ} (hpos : s.tok.stPos = word.length) (hpb : s.tok.pb = word) :
    (if matchesWord s.tok.strict word (s.tok.pb ++ [s.c]) (min (s.tok.stPos + 1) word.length) then
      onWord (s.map (·.append [s.c])) word v else other) = .redo (s.map fun t => (t.append [s.c]).finishWith v) := by
  have hmatch : matchesWord s.tok.strict word (s.tok.pb ++ [s.c]) (min (s.tok.stPos + 1) word.length) = true := by
    rw [hpos, hpb]
    exact matchesWord_whole word s.tok.strict s.c
  rw [if_pos hmatch]
  exact onWord_last hpos

/-- What is tried in the state of `null`. -/
theorem dispatch_null (hst : s.tok.state = .null) : dispatch ops chunk s =
    if matchesWord s.tok.strict jsonNullStr (s.tok.pb ++ [s.c]) (min (s.tok.stPos + 1) jsonNullStr.length) then
      onWord (s.map (·.append [s.c])) jsonNullStr .null
    else if matchesWord s.tok.strict jsonNanStr (s.tok.pb ++ [s.c]) (min (s.tok.stPos + 1) jsonNanStr.length) then
      onWord (s.map (·.append [s.c])) jsonNanStr (.double ops.nan none)
    else (s.map (·.append [s.c])).fail .errorParseNull := by
  simp only [dispatch, hst]
  rfl

/-- What is tried in the state of `true` and `false`. -/
theorem dispatch_boolean (hst : s.tok.state = .boolean) : dispatch ops chunk s =
    if matchesWord s.tok.strict jsonTrueStr (s.tok.pb ++ [s.c]) (min (s.tok.stPos + 1) jsonTrueStr.length) then
      onWord (s.map (·.append [s.c])) jsonTrueStr (.boolean true)
    else if matchesWord s.tok.strict jsonFalseStr (s.tok.pb ++ [s.c]) (min (s.tok.stPos + 1) jsonFalseStr.length) then
      onWord (s.map (·.append [s.c])) jsonFalseStr (.boolean false)
    else (s.map (·.append [s.c])).fail .errorParseBoolean := by
  simp only [dispatch, hst]
  rfl

theorem yields_null (hstate : t.state = .start) (hfield : t.level.objFieldName = none) :
    Yields ops chunk ⟨t, obj, 110, bytesOf "null" ++ x :: more⟩ .null x more := by
  refine yields_word .null hstate hfield rfl (fun s hc => by simp [onStart, hc]) (by simp [bytesOf]) ?_ ?_
  · intro s a b hword hst hpos hpb
    rw [dispatch_null hst]
    exact word_next hword hpos hpb
  · intro s hst hpos hpb
    rw [dispatch_null hst]
    exact word_last hpos hpb

theorem yields_true (hstate : t.state = .start) (hfield : t.level.objFieldName = none) :
    Yields ops chunk ⟨t, obj, 116, bytesOf "true" ++ x :: more⟩ (.boolean true) x more := by
  refine yields_word .boolean hstate hfield rfl (fun s hc => by simp [onStart, hc]) (by simp [bytesOf]) ?_ ?_
  · intro s a b hword hst hpos hpb
    rw [dispatch_boolean hst]
    exact word_next hword hpos hpb
  · intro s hst hpos hpb
    rw [dispatch_boolean hst]
    exact word_last hpos hpb

/-- `false` is not taken for `true`. -/
theorem not_matches_true (strict : Bool) {n : Nat} (hn : n < 5) :
    matchesWord strict jsonTrueStr (jsonFalseStr.take (n + 1)) (min (n + 1) 4) = false := by
  interval_cases n <;> cases strict <;> rfl

theorem yields_false (hstate : t.state = .start) (hfield : t.level.objFieldName = none) :
    Yields ops chunk ⟨t, obj, 102, bytesOf "false" ++ x :: more⟩ (.boolean false) x more := by
  refine yields_word .boolean hstate hfield rfl (fun s hc => by simp [onStart, hc]) (by simp [bytesOf]) ?_ ?_
  · intro s a b hword hst hpos hpb
    have hlt : a.length < 5 := by
      have hlen := congrArg List.length hword
      simp only [bytesOf, List.length_map, List.length_append, List.length_cons] at hlen
      have h5 : "false".toList.length = 5 := rfl
      omega
    have hnot : matchesWord s.tok.strict jsonTrueStr (s.tok.pb ++ [s.c]) (min (s.tok.stPos + 1) jsonTrueStr.length) = false := by
      rw [hpos, hpb, spelled_eq_take hword]
      exact not_matches_true s.tok.strict hlt
    rw [dispatch_boolean hst, if_neg (by simpa using hnot)]
    exact word_next hword hpos hpb
  · intro s hst hpos hpb
    have hnot : matchesWord s.tok.strict jsonTrueStr (s.tok.pb ++ [s.c]) (min (s.tok.stPos + 1) jsonTrueStr.length) = false := by
      rw [hpos, hpb]
      cases s.tok.strict <;> rfl
    rw [dispatch_boolean hst, if_neg (by simpa using hnot)]
    exact word_last hpos hpb

/-- `NaN` may be taken for `null` at its first byte, which changes nothing. -/
theorem yields_nan (hstate : t.state = .start) (hfield : t.level.objFieldName = none) :
    Yields ops chunk ⟨t, obj, 78, bytesOf "NaN" ++ x :: more⟩ (.double ops.nan none) x more := by
  refine yields_word .null hstate hfield rfl (fun s hc => by simp [onStart, hc]) (by simp [bytesOf]) ?_ ?_
  · intro s a b hword hst hpos hpb
    have hlt : s.tok.stPos < jsonNullStr.length := by
      have hlen := congrArg List.length hword
      simp only [bytesOf, List.length_map, List.length_append, List.length_cons] at hlen
      have h3 : "NaN".toList.length = 3 := rfl
      have h4 : jsonNullStr.length = 4 := rfl
      omega
    rw [dispatch_null hst]
    split
    · exact onWord_next hlt
    · exact word_next hword hpos hpb
  · intro s hst hpos hpb
    have hnot : matchesWord s.tok.strict jsonNullStr (s.tok.pb ++ [s.c]) (min (s.tok.stPos + 1) jsonNullStr.length) = false := by
      rw [hpos, hpb]
      cases s.tok.strict <;> simp [matchesWord, bytesOf, jsonNullStr, toLower]
    rw [dispatch_null hst, if_neg (by simpa using hnot)]
    exact word_last hpos hpb

/-- What is tried in the state of `Infinity`, without a sign. -/
theorem dispatch_inf (hst : s.tok.state = .inf) (hneg : (s.tok.pb ++ [s.c]).head? ≠ some 45) : dispatch ops chunk s =
    if matchesWord s.tok.strict jsonInfStr (s.tok.pb ++ [s.c]) (min (s.tok.stPos + 1) jsonInfStr.length) then
      onWord (s.map (·.append [s.c])) jsonInfStr (.double ops.infinity none)
    else (s.map (·.append [s.c])).fail .errorParseUnexpected := by
  simp only [dispatch, hst, onInf, TokRun.map, Tokener.append, hneg, if_false]

theorem yields_infinity (hstate : t.state = .start) (hfield : t.level.objFieldName = none) :
    Yields ops chunk ⟨t, obj, 73, bytesOf "Infinity" ++ x :: more⟩ (.double ops.infinity none) x more := by
  refine yields_word .inf hstate hfield rfl (fun s hc => by simp [onStart, hc]) (by simp [bytesOf]) ?_ ?_
  · intro s a b hword hst hpos hpb
    have hneg : (s.tok.pb ++ [s.c]).head? ≠ some 45 := by
      rw [hpb, spelled_eq_take hword, List.head?_take]
      simp [bytesOf]
    rw [dispatch_inf hst hneg]
    exact word_next hword hpos hpb
  · intro s hst hpos hpb
    rw [dispatch_inf hst (by simp [hpb, bytesOf])]
    exact word_last hpos hpb

/-! ## Numbers -/

/-- No character of a number is `NUL`. -/
theorem ne_zero_of_isNumberChar (h : isNumberChar c = true) : c ≠ 0 := by
  rintro rfl
  exact absurd h (by decide)

/-- A digit or a minus sign starts a number. -/
theorem onStart_number (s : TokRun ρ) (hc : isDigit s.c = true ∨ s.c = 45) :
    onStart s = .redo (s.map fun t => { (t.setState .number).resetPb with isDouble := false }) := by
  have hne : ∀ d : UInt8, isDigit d = false → d ≠ 45 → s.c ≠ d := by
    rintro d hd hd' rfl
    rcases hc with hc | hc
    · exact absurd (hd.symm.trans hc) (by simp)
    · exact hd' hc
  unfold onStart
  split
  case h_13 => rw [if_pos hc]
  all_goals
    rename_i heq
    exact absurd heq (hne _ (by decide) (by decide))

/-- A byte that can follow a number. -/
def EndsNumber (x : UInt8) : Prop := isNumberChar x = false ∧ x ≠ 105 ∧ x ≠ 73

/-- A number is read as the value that its text has. -/
theorem yields_number {ds : List UInt8} (hstate : t.state = .start) (hfield : t.level.objFieldName = none)
    (hc : isDigit c = true ∨ c = 45) (hds : ∀ y ∈ ds, isNumberChar y = true)
    (hvalue : numberValue ops t.strict (ds.any isDoubleChar) ds = some v)
    (hx : EndsNumber x) : Yields ops chunk ⟨t, obj, c, ds ++ x :: more⟩ v x more := by
  have hstart : dispatch ops chunk ⟨t, obj, c, ds ++ x :: more⟩ =
      .redo ⟨{ (t.setState .number).resetPb with isDouble := false }, obj, c, ds ++ x :: more⟩ := by
    simp only [dispatch, hstate]
    exact onStart_number _ hc
  have hloop := tightLoop_found isNumberChar (fun y hy => ⟨hds y hy, ne_zero_of_isNumberChar (hds y hy)⟩) hx.1 more
  have hnumber : dispatch ops chunk ⟨{ (t.setState .number).resetPb with isDouble := false }, obj, c, ds ++ x :: more⟩ =
      .redo ⟨({ (t.setState .number).resetPb with isDouble := ds.any isDoubleChar, pb := ds }).finishWith v, obj, x,
      x :: more⟩ := by
    simp [dispatch, onNumber, hloop, Tokener.state, Tokener.setState, Tokener.resetPb, TokRun.map, Tokener.append, hvalue,
      hx.2.1, hx.2.2]
  refine ⟨_, obj, (Reaches.single (tokRound_of_redo hstart)).trans (Reaches.single (tokRound_of_redo hnumber)),
    ⟨rfl, rfl, rfl, rfl⟩, ?_⟩
  simp [Tokener.finishWith, Tokener.eatThen, Tokener.setState, Tokener.setSaved, Level.finished, hfield, Tokener.resetPb]

/-- A digit is the byte of its number. -/
theorem exists_of_isDigit (h : isDigit c = true) : ∃ k < 10, c = UInt8.ofNat (48 + k) := by
  simp only [isDigit, Bool.and_eq_true, decide_eq_true_eq, UInt8.le_iff_toNat_le] at h
  have h48 : (48 : UInt8).toNat = 48 := rfl
  have h57 : (57 : UInt8).toNat = 57 := rfl
  refine ⟨c.toNat - 48, by omega, ?_⟩
  have hsum : 48 + (c.toNat - 48) = c.toNat := by omega
  rw [hsum, UInt8.ofNat_toNat]

/-- A digit is a character of a number, and not one of doubles alone. -/
theorem isNumberChar_of_isDigit (h : isDigit c = true) : isNumberChar c = true ∧ isDoubleChar c = false := by
  obtain ⟨k, hk, rfl⟩ := exists_of_isDigit h
  interval_cases k <;> exact ⟨rfl, rfl⟩

/-- The bytes of an integer are digits and a minus sign. -/
theorem decimalInt_chars {i : Int} (h : c ∈ decimalInt i) : isNumberChar c = true ∧ isDoubleChar c = false := by
  rcases mem_decimalInt h with rfl | h
  · exact ⟨rfl, rfl⟩
  · exact isNumberChar_of_isDigit h

/-- A natural number has a digit. -/
theorem decimal_ne_nil (n : Nat) : decimal n ≠ [] := by
  rw [decimal, Ne, List.map_eq_nil_iff]
  exact Nat.toDigits_ne_nil

/-- Only zero starts with a zero. -/
theorem eq_zero_of_head_decimal {n : Nat} (h : (decimal n).head? = some 48) : n = 0 := by
  induction n using Nat.strongRecOn with
  | ind n ih =>
    by_cases hn : n < 10
    · rw [decimal, Nat.toDigits_of_lt_base hn] at h
      interval_cases n <;> revert h <;> decide
    · have hsplit : decimal n = decimal (n / 10) ++ [UInt8.ofNat (n % 10).digitChar.toNat] := by
        rw [decimal, Nat.toDigits_of_base_le (by decide) (by omega), List.map_append]
        rfl
      have hhead : (decimal (n / 10)).head? = some 48 := by
        rw [hsplit, List.head?_append] at h
        cases hd : (decimal (n / 10)).head? with
        | none => exact absurd (List.head?_eq_none_iff.mp hd) (decimal_ne_nil _)
        | some d => rwa [hd] at h
      have hzero := ih (n / 10) (by omega) hhead
      omega

/-- The text of an integer is read as that integer. -/
theorem numberValue_decimalInt {i : Int} (hi : Int64 i) (strict : Bool) :
    numberValue ops strict ((decimalInt i).any isDoubleChar) (decimalInt i) = some (.int i) := by
  obtain ⟨hlo, hhi⟩ := hi
  have hnot : (decimalInt i).any isDoubleChar = false := by
    rw [List.any_eq_false]
    intro c hc
    simp [(decimalInt_chars hc).2]
  have hparse : jsonParseInt64 (decimalInt i) = some i := by
    have hscan := scanInt_digits (decide (i < 0)) (decimal_ne_nil i.natAbs) fun c hc => isDigit_of_mem_decimal hc
    rw [digitsVal_decimal] at hscan
    by_cases hneg : i < 0
    · simp only [hneg, decide_true, if_true, List.singleton_append] at hscan
      rw [jsonParseInt64, decimalInt, if_pos hneg, hscan, Option.map_some]
      simp only [if_true, Option.some.injEq]
      omega
    · simp only [hneg, decide_false, Bool.false_eq_true, if_false, List.nil_append] at hscan
      rw [jsonParseInt64, decimalInt, if_neg hneg, hscan, Option.map_some]
      simp only [Bool.false_eq_true, if_false, Option.some.injEq]
      omega
  have hzero : ¬ (i ≠ 0 ∧ (decimalInt i).head? = some 48 ∧ strict = true) := by
    rintro ⟨hne, hhead, -⟩
    unfold decimalInt at hhead
    split at hhead
    · exact absurd hhead (by simp)
    · exact hne (Int.natAbs_eq_zero.mp (eq_zero_of_head_decimal hhead))
  rw [numberValue, hnot, hparse]
  simp [hzero]

/-- An integer begins with a digit or a minus sign. -/
theorem head_decimalInt (i : Int) : ∃ c, (decimalInt i).head? = some c ∧ (isDigit c = true ∨ c = 45) := by
  unfold decimalInt
  split
  · exact ⟨45, rfl, .inr rfl⟩
  · obtain ⟨c, ds, hc⟩ := List.exists_cons_of_ne_nil (decimal_ne_nil i.natAbs)
    exact ⟨c, by rw [hc]; rfl, .inl (isDigit_of_mem_decimal (n := i.natAbs) (by rw [hc]; exact List.mem_cons_self))⟩

/-! ## Quoted strings -/

/-- The states of a quoted text: what follows its quote. -/
def closeQuoted (st : TokenerState) (t : Tokener ρ) : Tokener ρ :=
  if st = .string then t.finishWith (.string t.pb)
  else { t.eatThen .objectFieldEnd with
    level := { (t.eatThen .objectFieldEnd).level with objFieldName := some (t.pb.takeWhile (· != 0)) } }

/-- In a quoted state the characters up to the quote are taken. -/
theorem dispatch_quoted {st : TokenerState} (hst : st = .string ∨ st = .objectField) (hs : s.tok.state = st) :
    dispatch ops chunk s = onQuoted chunk s st (closeQuoted st) := by
  rcases hst with rfl | rfl <;> simp only [dispatch, hs] <;> rfl

/-- Bytes that a quoted text keeps as they are. -/
def Plain (quote : UInt8) (a : List UInt8) : Prop := ∀ y ∈ a, y ≠ quote ∧ y ≠ 92 ∧ y ≠ 0

/-- A quoted text is read up to its quote. -/
theorem quoted_close {st : TokenerState} {a : List UInt8} (hst : st = .string ∨ st = .objectField) (hs : t.state = st)
    (hplain : Plain t.quoteChar a) (hzero : t.quoteChar ≠ 0) :
    Reaches (tokRound ops chunk) ⟨t, obj, d, a ++ t.quoteChar :: x :: more⟩ ⟨closeQuoted st (t.append a), obj, x, x :: more⟩ := by
  have hloop := tightLoop_found (fun c => c != t.quoteChar && c != 92) (a := a) (c := t.quoteChar)
    (fun y hy => ⟨by simp [(hplain y hy).1, (hplain y hy).2.1], (hplain y hy).2.2⟩) (by simp) (x :: more)
  have hdispatch : dispatch ops chunk ⟨t, obj, d, a ++ t.quoteChar :: x :: more⟩ =
      .next ⟨closeQuoted st (t.append a), obj, t.quoteChar, t.quoteChar :: x :: more⟩ := by
    rw [dispatch_quoted hst hs]
    simp [onQuoted, gather, hloop, TokRun.map, Tokener.append]
  exact Reaches.single (tokRound_of_next hdispatch hzero rfl)

/-- A quoted text is read up to an escape. -/
theorem quoted_escape {st : TokenerState} {a : List UInt8} (hst : st = .string ∨ st = .objectField) (hs : t.state = st)
    (hplain : Plain t.quoteChar a) (hquote : t.quoteChar ≠ 92) :
    Reaches (tokRound ops chunk) ⟨t, obj, d, a ++ 92 :: x :: more⟩
      ⟨((t.append a).setSaved st).setState .stringEscape, obj, x, x :: more⟩ := by
  have hloop := tightLoop_found (fun c => c != t.quoteChar && c != 92) (a := a) (c := 92)
    (fun y hy => ⟨by simp [(hplain y hy).1, (hplain y hy).2.1], (hplain y hy).2.2⟩) (by simp) (x :: more)
  have hdispatch : dispatch ops chunk ⟨t, obj, d, a ++ 92 :: x :: more⟩ =
      .next ⟨((t.append a).setSaved st).setState .stringEscape, obj, 92, 92 :: x :: more⟩ := by
    rw [dispatch_quoted hst hs]
    simp [onQuoted, gather, hloop, TokRun.map, Tokener.append, hquote.symm]
  exact Reaches.single (tokRound_of_next hdispatch (show (92 : UInt8) ≠ 0 by decide) rfl)

/-! ## Escapes -/

/-- A digit of a code unit that is no `NUL`. -/
def IsHexDigit (c : UInt8) : Prop := isHexChar c = true ∧ c ≠ 0

/-- The code unit of four digits. -/
def codeUnit (d₁ d₂ d₃ d₄ : UInt8) : Nat := jtHexdigit d₁ * 4096 + jtHexdigit d₂ * 256 + jtHexdigit d₃ * 16 + jtHexdigit d₄

/-- A hexadecimal digit is below 16. -/
theorem jtHexdigit_lt (h : IsHexDigit c) : jtHexdigit c < 16 := by
  obtain ⟨hhex, hne⟩ := h
  simp only [isHexChar, isDigit, Bool.or_eq_true, Bool.and_eq_true, decide_eq_true_eq, UInt8.le_iff_toNat_le, beq_iff_eq] at hhex
  have h48 : (48 : UInt8).toNat = 48 := rfl
  have h57 : (57 : UInt8).toNat = 57 := rfl
  have h65 : (65 : UInt8).toNat = 65 := rfl
  have h70 : (70 : UInt8).toNat = 70 := rfl
  have h97 : (97 : UInt8).toNat = 97 := rfl
  have h102 : (102 : UInt8).toNat = 102 := rfl
  have hpos : c.toNat ≠ 0 := fun h0 => hne (UInt8.toNat_inj.mp h0)
  have hc : (48 ≤ c.toNat ∧ c.toNat ≤ 57) ∨ (97 ≤ c.toNat ∧ c.toNat ≤ 102) ∨ (65 ≤ c.toNat ∧ c.toNat ≤ 70) := by
    rcases hhex with ((h | h) | h) | rfl
    · omega
    · omega
    · omega
    · exact absurd rfl hpos
  simp only [jtHexdigit, UInt8.le_iff_toNat_le]
  split <;> omega

/-- A digit of an escape is added at its place. -/
theorem takeHexdigit_eq {n : Nat} (hpos : t.stPos = n) (hn : n < 4) (hlt : t.ucsChar + jtHexdigit c * 16 ^ (3 - n) < 4294967296) :
    takeHexdigit t c = some { t with ucsChar := t.ucsChar + jtHexdigit c * 16 ^ (3 - n), stPos := n + 1 } := by
  rw [takeHexdigit, hpos, if_pos hn, Nat.mod_eq_of_lt hlt]

/-- A digit that is not the fourth. -/
theorem unicodeLoop_digit {hi n : Nat} (hpos : t.stPos = n) (hn : n < 3) (hc : IsHexDigit c)
    (hlt : t.ucsChar + jtHexdigit c * 16 ^ (3 - n) < 4294967296) (str : List UInt8) (x : UInt8) :
    unicodeLoop chunk hi ⟨t, obj, d, str⟩ (c :: x :: rest) =
      unicodeLoop chunk hi ⟨{ t with ucsChar := t.ucsChar + jtHexdigit c * 16 ^ (3 - n), stPos := n + 1 }, obj, x, str⟩
      (x :: rest) := by
  have hne : n + 1 ≠ 4 := by omega
  rw [unicodeLoop, if_pos hc.1, takeHexdigit_eq hpos (by omega) hlt]
  simp only [if_neg hne, if_neg hc.2]

/-- Four digits are taken together to a code unit. -/
theorem unicodeLoop_digits (chunk : Bool) (hi : Nat) (obj : JsonObject ρ) (d : UInt8) (rest : List UInt8) {d₁ d₂ d₃ d₄ : UInt8}
    (h₁ : IsHexDigit d₁) (h₂ : IsHexDigit d₂) (h₃ : IsHexDigit d₃) (h₄ : IsHexDigit d₄) (hpos : t.stPos = 0)
    (hucs : t.ucsChar = 0) (str : List UInt8) :
    ∃ t', t' = { t with ucsChar := codeUnit d₁ d₂ d₃ d₄, stPos := 4 } ∧ ∃ t3, takeHexdigit t3 d₄ = some t' ∧
      unicodeLoop chunk hi ⟨t, obj, d, str⟩ (d₁ :: d₂ :: d₃ :: d₄ :: rest) =
      unicodeLoop chunk hi ⟨t3, obj, d₄, str⟩ (d₄ :: rest) := by
  have b₁ := jtHexdigit_lt h₁
  have b₂ := jtHexdigit_lt h₂
  have b₃ := jtHexdigit_lt h₃
  have b₄ := jtHexdigit_lt h₄
  refine ⟨_, rfl, { t with ucsChar := jtHexdigit d₁ * 16 ^ 3 + jtHexdigit d₂ * 16 ^ 2 + jtHexdigit d₃ * 16 ^ 1, stPos := 3 },
    ?_, ?_⟩
  · rw [takeHexdigit_eq (n := 3) rfl (by omega) (by simp only; omega)]
    simp only [codeUnit, Nat.reducePow, Nat.reduceSub, Nat.mul_one, Nat.pow_zero, Nat.reduceAdd]
  · rw [unicodeLoop_digit hpos (by omega) h₁ (by rw [hucs]; omega),
      unicodeLoop_digit (n := 1) rfl (by omega) h₂ (by simp only [hucs]; omega),
      unicodeLoop_digit (n := 2) rfl (by omega) h₃ (by simp only [hucs]; omega), hucs]
    simp only [Nat.zero_add, Nat.reduceAdd, Nat.reduceSub]

/-- A code unit that is no high surrogate is put behind the text. -/
theorem unicodeLoop_unit (hi : Nat) {d₁ d₂ d₃ d₄ : UInt8} {bs : List UInt8} (h₁ : IsHexDigit d₁) (h₂ : IsHexDigit d₂)
    (h₃ : IsHexDigit d₃) (h₄ : IsHexDigit d₄) (hpos : t.stPos = 0) (hucs : t.ucsChar = 0)
    (hjoin : joinSurrogates hi { t with ucsChar := codeUnit d₁ d₂ d₃ d₄, stPos := 4 } = t')
    (hbs : unescapedUtf t'.ucsChar = some bs) (str : List UInt8) :
    unicodeLoop chunk hi ⟨t, obj, d, str⟩ (d₁ :: d₂ :: d₃ :: d₄ :: rest) =
      .next ⟨(t'.append bs).setState t'.savedState, obj, d₄, d₄ :: rest⟩ := by
  obtain ⟨t4, ht4, t3, htake, hloop⟩ := unicodeLoop_digits chunk hi obj d rest h₁ h₂ h₃ h₄ hpos hucs str
  rw [hloop, unicodeLoop, if_pos h₄.1, htake]
  subst ht4
  simp only [if_true, hjoin, hbs]

/-- The escapes that the tokener knows by one letter. -/
theorem reaches_letter {e b : UInt8} (hst : t.state = .stringEscape)
    (he : (e, b) ∈ [((34 : UInt8), (34 : UInt8)), (92, 92), (47, 47), (98, 8), (110, 10), (114, 13), (116, 9), (102, 12)]) :
    Reaches (tokRound ops chunk) ⟨t, obj, e, e :: x :: more⟩ ⟨(t.append [b]).setState t.savedState, obj, x, x :: more⟩ := by
  have hdispatch : dispatch ops chunk ⟨t, obj, e, e :: x :: more⟩ =
      .next ⟨(t.append [b]).setState t.savedState, obj, e, e :: x :: more⟩ := by
    simp only [List.mem_cons, Prod.mk.injEq, List.not_mem_nil, or_false] at he
    rcases he with ⟨rfl, rfl⟩ | ⟨rfl, rfl⟩ | ⟨rfl, rfl⟩ | ⟨rfl, rfl⟩ | ⟨rfl, rfl⟩ | ⟨rfl, rfl⟩ | ⟨rfl, rfl⟩ | ⟨rfl, rfl⟩ <;>
      simp only [dispatch, hst] <;> rfl
  have hne : e ≠ 0 := by
    rintro rfl
    simp at he
  exact Reaches.single (tokRound_of_next hdispatch hne rfl)

/-- The escape of a code unit. -/
theorem reaches_unit {d₁ d₂ d₃ d₄ : UInt8} {bs : List UInt8} (hst : t.state = .stringEscape) (h₁ : IsHexDigit d₁)
    (h₂ : IsHexDigit d₂) (h₃ : IsHexDigit d₃) (h₄ : IsHexDigit d₄) (hbs : unescapedUtf (codeUnit d₁ d₂ d₃ d₄) = some bs) :
    ∃ t', Reaches (tokRound ops chunk) ⟨t, obj, 117, 117 :: d₁ :: d₂ :: d₃ :: d₄ :: x :: more⟩ ⟨t', obj, x, x :: more⟩ ∧
      t' = { (t.append bs).setState t.savedState with ucsChar := codeUnit d₁ d₂ d₃ d₄, stPos := 4 } := by
  have hu : dispatch ops chunk ⟨t, obj, 117, 117 :: d₁ :: d₂ :: d₃ :: d₄ :: x :: more⟩ =
      .next ⟨{ t.setState .escapeUnicode with ucsChar := 0, stPos := 0 }, obj, 117,
      117 :: d₁ :: d₂ :: d₃ :: d₄ :: x :: more⟩ := by
    simp only [dispatch, hst]
    rfl
  have hunit : dispatch ops chunk ⟨{ t.setState .escapeUnicode with ucsChar := 0, stPos := 0 }, obj, d₁,
    d₁ :: d₂ :: d₃ :: d₄ :: x :: more⟩ = _ :=
    unicodeLoop_unit 0 h₁ h₂ h₃ h₄ rfl rfl rfl hbs (d₁ :: d₂ :: d₃ :: d₄ :: x :: more)
  exact ⟨_, (Reaches.single (tokRound_of_next hu (show (117 : UInt8) ≠ 0 by decide) rfl)).trans
    (Reaches.single (tokRound_of_next hunit h₄.2 rfl)), rfl⟩

/-- Bytes were put behind the text of the tokener, and nothing else that matters was changed. -/
structure Tokener.Gathers (t t' : Tokener ρ) (bs : List UInt8) : Prop where
  keeps : t.Keeps t'
  pb : t'.pb = t.pb ++ bs
  quoteChar : t'.quoteChar = t.quoteChar
  current : t'.level.current = t.level.current
  objFieldName : t'.level.objFieldName = t.level.objFieldName

/-- Texts that are gathered one after the other. -/
theorem Tokener.Gathers.trans {a b : List UInt8} (h : t.Gathers t' a) (h' : t'.Gathers t'' b) : t.Gathers t'' (a ++ b) :=
  ⟨h.keeps.trans h'.keeps, by rw [h'.pb, h.pb, List.append_assoc], h'.quoteChar.trans h.quoteChar, h'.current.trans h.current,
    h'.objFieldName.trans h.objFieldName⟩

/-- How `json_escape_str` writes a byte: as it is, with a letter, or by its code unit. -/
theorem escapeByte_cases (c : UInt8) :
    (escapeByte c = [c] ∧ c ≠ 34 ∧ c ≠ 92 ∧ c ≠ 0) ∨
      (∃ e, (e, c) ∈ [((34 : UInt8), (34 : UInt8)), (92, 92), (47, 47), (98, 8), (110, 10), (114, 13), (116, 9), (102, 12)] ∧
      escapeByte c = [92, e]) ∨
      c < 32 ∧ escapeByte c = [92, 117, 48, 48, jsonHexChar (c >>> 4), jsonHexChar (c &&& 15)] := by
  unfold escapeByte jsonEscapeCall
  split
  · rename_i call hcall
    right
    split at hcall
    case h_9 =>
      right
      split at hcall
      · rename_i hlt
        obtain rfl := Option.some.inj hcall
        exact ⟨hlt, rfl⟩
      · cases hcall
    case h_1 => exact .inl ⟨98, by simp, by cases hcall; rfl⟩
    case h_2 => exact .inl ⟨110, by simp, by cases hcall; rfl⟩
    case h_3 => exact .inl ⟨114, by simp, by cases hcall; rfl⟩
    case h_4 => exact .inl ⟨116, by simp, by cases hcall; rfl⟩
    case h_5 => exact .inl ⟨102, by simp, by cases hcall; rfl⟩
    case h_6 => exact .inl ⟨34, by simp, by cases hcall; rfl⟩
    case h_7 => exact .inl ⟨92, by simp, by cases hcall; rfl⟩
    case h_8 => exact .inl ⟨47, by simp, by cases hcall; rfl⟩
  · rename_i hcall
    split at hcall
    case h_9 h8 h10 h13 h9 h12 h34 h92 h47 =>
      split at hcall
      · cases hcall
      · rename_i hge
        refine .inl ⟨rfl, h34, h92, ?_⟩
        rintro rfl
        exact hge (by decide)
    all_goals cases hcall

/-- The code unit of a control character. -/
theorem codeUnit_of_lt (h : c < 32) : IsHexDigit (jsonHexChar (c >>> 4)) ∧ IsHexDigit (jsonHexChar (c &&& 15)) ∧
    unescapedUtf (codeUnit 48 48 (jsonHexChar (c >>> 4)) (jsonHexChar (c &&& 15))) = some [c] := by
  have hlt : c.toNat < 32 := UInt8.lt_iff_toNat_lt.mp h
  obtain ⟨k, hk, rfl⟩ : ∃ k < 32, c = UInt8.ofNat k := ⟨c.toNat, hlt, UInt8.ofNat_toNat.symm⟩
  interval_cases k <;> exact ⟨⟨by decide, by decide⟩, ⟨by decide, by decide⟩, by decide⟩

/-- The escape of a byte gives the byte back. -/
theorem reaches_escapeByte {e : UInt8} {es : List UInt8} (hst : t.state = .stringEscape) (he : escapeByte c = 92 :: e :: es)
    (hesc : escapeByte c ≠ [c]) : ∃ t', Reaches (tokRound ops chunk) ⟨t, obj, e, e :: es ++ x :: more⟩ ⟨t', obj, x, x :: more⟩ ∧
      t.Gathers t' [c] ∧ t'.state = t.savedState := by
  rcases escapeByte_cases c with ⟨hplain, -⟩ | ⟨e', hmem, hletter⟩ | ⟨hlt, hunit⟩
  · exact absurd hplain hesc
  · rw [hletter] at he
    cases he
    exact ⟨_, reaches_letter hst hmem, ⟨⟨rfl, rfl, rfl, rfl⟩, rfl, rfl, rfl, rfl⟩, rfl⟩
  · rw [hunit] at he
    cases he
    obtain ⟨h₃, h₄, hbs⟩ := codeUnit_of_lt hlt
    have h48 : IsHexDigit 48 := ⟨rfl, by decide⟩
    obtain ⟨t', hreach, rfl⟩ := reaches_unit hst h48 h48 h₃ h₄ hbs
    exact ⟨_, hreach, ⟨⟨rfl, rfl, rfl, rfl⟩, rfl, rfl, rfl, rfl⟩, rfl⟩

/-- What was written of a string is read up to its quote: `a` are the bytes of it that were passed and stand in front. -/
theorem reaches_escapeText {st : TokenerState} (hst : st = .string ∨ st = .objectField) (s a : List UInt8) (hs : t.state = st)
    (hquote : t.quoteChar = 34) (ha : Plain 34 a) :
      ∃ t', Reaches (tokRound ops chunk) ⟨t, obj, d, a ++ (escapeText s ++ 34 :: x :: more)⟩
      ⟨closeQuoted st t', obj, x, x :: more⟩ ∧ t.Gathers t' (a ++ s) := by
  induction s generalizing t a d with
  | nil =>
    have hclose : Reaches (tokRound ops chunk) ⟨t, obj, d, a ++ t.quoteChar :: x :: more⟩
      ⟨closeQuoted st (t.append a), obj, x, x :: more⟩ :=
      quoted_close hst hs (hquote ▸ ha) (by rw [hquote]; decide)
    rw [hquote] at hclose
    exact ⟨_, hclose, by rw [List.append_nil]; exact ⟨⟨rfl, rfl, rfl, rfl⟩, rfl, rfl, rfl, rfl⟩⟩
  | cons c s ih =>
    have hsplit : escapeText (c :: s) = escapeByte c ++ escapeText s := rfl
    by_cases hplain : escapeByte c = [c]
    · -- the byte is passed with those in front of it
      have hc : c ≠ 34 ∧ c ≠ 92 ∧ c ≠ 0 := by
        rcases escapeByte_cases c with ⟨-, hc⟩ | ⟨e, -, he⟩ | ⟨-, he⟩
        · exact hc
        · rw [hplain] at he
          cases he
        · rw [hplain] at he
          cases he
      have ha' : Plain 34 (a ++ [c]) := fun y hy => (List.mem_append.mp hy).elim (ha y) fun h => List.mem_singleton.mp h ▸ hc
      obtain ⟨t', hreach, hgathers⟩ := ih (t := t) (d := d) (a ++ [c]) hs hquote ha'
      refine ⟨t', ?_, by simpa using hgathers⟩
      rw [hsplit, hplain]
      simpa using hreach
    · -- the bytes in front of it end at the escape
      obtain ⟨e, es, he⟩ : ∃ e es, escapeByte c = 92 :: e :: es := by
        rcases escapeByte_cases c with ⟨hc, -⟩ | ⟨e, -, he⟩ | ⟨-, he⟩
        · exact absurd hc hplain
        · exact ⟨e, [], he⟩
        · exact ⟨_, _, he⟩
      obtain ⟨y, ys, hy⟩ : ∃ y ys, escapeText s ++ 34 :: x :: more = y :: ys := List.exists_cons_of_ne_nil (by simp)
      generalize ht1 : ((t.append a).setSaved st).setState .stringEscape = t1
      have hescape : Reaches (tokRound ops chunk) ⟨t, obj, d, a ++ 92 :: e :: (es ++ y :: ys)⟩ ⟨t1, obj, e, e :: es ++ y :: ys⟩ :=
        ht1 ▸ quoted_escape hst hs (hquote ▸ ha) (by rw [hquote]; decide)
      obtain ⟨t2, hbyte, hgathers2, hstate2⟩ : ∃ t2, Reaches (tokRound ops chunk) ⟨t1, obj, e, e :: es ++ y :: ys⟩
          ⟨t2, obj, y, y :: ys⟩ ∧ t1.Gathers t2 [c] ∧ t2.state = st := ht1 ▸ reaches_escapeByte rfl he hplain
      obtain ⟨t', hrest, hgathers'⟩ :=
        ih (t := t2) (d := y) [] hstate2 (hgathers2.quoteChar.trans (ht1 ▸ hquote)) (List.forall_mem_nil _)
      have hgathers : t.Gathers t1 a := ht1 ▸ ⟨⟨rfl, rfl, rfl, rfl⟩, rfl, rfl, rfl, rfl⟩
      refine ⟨t', ?_, by simpa using hgathers.trans (hgathers2.trans hgathers')⟩
      rw [hsplit, he, List.append_assoc, hy]
      rw [List.nil_append, hy] at hrest
      exact hescape.trans (hbyte.trans hrest)

end Pixel845.Json
