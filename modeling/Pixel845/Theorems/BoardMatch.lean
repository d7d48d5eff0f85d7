import Pixel845.Board.Utils

/-!
# Board matching is exact

Two texts are equal if each of them, deleted from the other, leaves nothing. A word is in a list if it stands between two colons
in the list with its spaces made colons. The second is exact for texts that come out of `eval` as they went in, which a comment
and a reference do not.
-/

namespace Pixel845.Board

/-- What the functions rely on: `empty` and `space` as the build sets them, `colon` as `utils.mk` does. -/
structure Included (vars : Variables) : Prop where
  empty : vars .empty = []
  space : vars .space = [32]
  colon : vars .colon = [58]

/-- A word, as `strip` and lists have it. -/
def IsWord (w : Text) : Prop := w ≠ [] ∧ ∀ c ∈ w, isSpace c = false

/-- A text without a colon and without what `eval` reads as a comment or a reference. -/
structure Plain (text : Text) : Prop where
  colon : 58 ∉ text
  hash : 35 ∉ text
  dollar : 36 ∉ text

instance (text : Text) : Decidable (Plain text) :=
  decidable_of_iff (58 ∉ text ∧ 35 ∉ text ∧ 36 ∉ text) ⟨fun ⟨h1, h2, h3⟩ => ⟨h1, h2, h3⟩, fun ⟨h1, h2, h3⟩ => ⟨h1, h2, h3⟩⟩

/-- `match-word-in-list` is exact on the words and the lists that are `ok`. -/
def ExactInList (reread : Var → Text → Make Unit) (vars : Variables) (ok : Text → Prop) : Prop :=
  ∀ w wlist, IsWord w → ok w → ok wlist →
    (matchWordInList reread w wlist).run' vars = some (if w ∈ words isSpace wlist then yes else [])

namespace BoardAux

variable {vars : Variables} {text w wlist : Text} {c : UInt8}

/-- Including `utils.mk` sets `colon`. -/
theorem included_includeUtils (hempty : vars .empty = []) (hspace : vars .space = [32]) : Included (includeUtils vars) where
  empty := hempty
  space := hspace
  colon := by simp [includeUtils, hempty]

/-- The variables that the lookup sets are not those that the functions rely on. -/
theorem included_update (h : Included vars) {var : Var} (hvar : var = .wl ∨ var = .w ∨ var = .m) (text : Text) :
    Included (Function.update vars var text) := by
  rcases hvar with rfl | rfl | rfl <;> exact ⟨h.empty, h.space, h.colon⟩

/-! ### `strip` -/

/-- White space around a text is stripped. -/
@[simp] theorem strip_cons_space (h : isSpace c = true) : strip (c :: text) = strip text := by
  rw [strip, words_cons_space h, strip]

/-- A space at the end is stripped. -/
@[simp] theorem strip_concat_space (h : isSpace c = true) : strip (text ++ [c]) = strip text := by
  rw [strip, words_concat_space h, strip]

/-- A word has nothing to strip. -/
theorem strip_eq_self (h : IsWord w) : strip w = w := by
  rw [strip, words_eq_singleton h.1 h.2, List.intercalate_singleton]

/-- What is in a stripped text: spaces, and what is in the text. -/
theorem mem_strip (h : c ∈ strip text) : c = 32 ∨ c ∈ text ∧ isSpace c = false := by
  rcases mem_intercalate h with h | ⟨w, hw, hc⟩
  · exact .inl h
  · exact .inr (mem_of_mem_words hw hc)

/-- A plain text is plain without its spaces. -/
theorem plain_strip (h : Plain text) : Plain (strip text) := by
  have hkeep : ∀ c, c ≠ 32 → c ∉ text → c ∉ strip text := by
    intro c hc htext hmem
    rcases mem_strip hmem with h | ⟨h, _⟩
    · exact hc h
    · exact htext h
  exact ⟨hkeep 58 (by decide) h.colon, hkeep 35 (by decide) h.hash, hkeep 36 (by decide) h.dollar⟩

/-! ### `match-word` -/

theorem makeOr_eq_nil_iff (a b : Text) : makeOr a b = [] ↔ a = [] ∧ b = [] := by
  unfold makeOr
  split
  · rename_i ha
    simp [ha]
  · rename_i ha
    simp [not_not.mp ha]

/-- `match-word` compares, and assigns nothing. -/
theorem matchWord_run (h : Included vars) (w1 w2 : Text) :
    (matchWord w1 w2).run vars = some (if w1 = w2 then yes else [], vars) := by
  have hdiffer : makeOr (subst w1 [] w2) (subst w2 [] w1) = [] ↔ w1 = w2 := by
    rw [makeOr_eq_nil_iff, subst_nil_iff]
  have hyes : strip (yes ++ [32]) = yes := rfl
  have hno : strip ([] ++ [32]) = [] := rfl
  have hrun : (matchWord w1 w2).run vars =
      some (strip (makeIf (makeOr (subst w1 (vars .empty) w2) (subst w2 (vars .empty) w1)) [] yes ++ [32]), vars) := rfl
  rw [hrun, h.empty, makeIf]
  by_cases heq : w1 = w2
  · rw [if_neg (not_not.mpr (hdiffer.mpr heq)), if_pos heq, hyes]
  · rw [if_pos (fun hnil => heq (hdiffer.mp hnil)), if_neg heq, hno]

/-! ### `eval` -/

/-- A text without a comment stays as it is. -/
theorem uncommentGo_eq (h : 35 ∉ text) (n : Nat) : uncommentGo text n = List.replicate n 92 ++ text := by
  induction text generalizing n with
  | nil => simp [uncommentGo]
  | cons c text ih =>
    obtain ⟨hc, htext⟩ : 35 ≠ c ∧ 35 ∉ text := by simpa using h
    unfold uncommentGo
    split
    · rename_i hslash
      rw [ih htext, hslash, List.replicate_succ', List.append_assoc, List.singleton_append]
    · rw [if_neg (Ne.symm hc), ih htext]
      rfl

/-- What `eval` reads as it is: no comment, no reference, one line. -/
structure Verbatim (text : Text) : Prop where
  hash : 35 ∉ text
  dollar : 36 ∉ text
  line : 10 ∉ text

/-- A plain text is taken as it stands. -/
theorem verbatim_strip (h : Plain text) : Verbatim (strip text) := by
  refine ⟨(plain_strip h).hash, (plain_strip h).dollar, fun hline => ?_⟩
  rcases mem_strip hline with h | ⟨_, h⟩
  · exact absurd h (by decide)
  · exact absurd h (by decide)

variable (reread : Var → Text → Make Unit) (var : Var)

/-- An assignment of a text that is taken as it stands. -/
theorem evalAssign_run (h : Verbatim text) (hstart : text.dropWhile isSpace = text) :
    (evalAssign reread var text).run vars = some ((), Function.update vars var text) := by
  have huncomment : uncomment text = text := uncommentGo_eq h.hash 0
  rw [evalAssign, if_neg (by simp [h.dollar, h.line]), huncomment, hstart]
  rfl

/-- A text between colons is assigned. -/
theorem evalAssign_delimited (h : Verbatim text) :
    (evalAssign reread var ([58] ++ text ++ [58])).run vars = some ((), Function.update vars var ([58] ++ text ++ [58])) := by
  refine evalAssign_run reread var ⟨?_, ?_, ?_⟩ rfl
  · simpa using h.hash
  · simpa using h.dollar
  · simpa using h.line

/-- So is what `findstring` gives for it. -/
theorem evalAssign_findstring (h : Verbatim text) (list : Text) :
    (evalAssign reread var (findstring ([58] ++ text ++ [58]) list)).run vars =
      some ((), Function.update vars var (findstring ([58] ++ text ++ [58]) list)) := by
  unfold findstring
  split
  · exact evalAssign_delimited reread var h
  · exact evalAssign_run reread var ⟨nofun, nofun, nofun⟩ rfl

/-! ### The lookup -/

/-- The list with its spaces made colons: the words with a colon between them. -/
theorem subst_strip (wlist : Text) : subst [32] [58] (strip wlist) = [58].intercalate (words isSpace wlist) :=
  subst_intercalate (fun _ hw hspace => absurd (mem_of_mem_words hw hspace).2 (by decide))

/-- The words of a plain list are taken as they stand. -/
theorem verbatim_words (h : Plain wlist) : Verbatim ([58].intercalate (words isSpace wlist)) := by
  have hkeep : ∀ c, c ≠ 58 → (c ∈ wlist → isSpace c = true) → c ∉ [58].intercalate (words isSpace wlist) := by
    intro c hc hlist hmem
    rcases mem_intercalate hmem with h | ⟨w, hw, hcw⟩
    · exact hc h
    · obtain ⟨hcl, hspace⟩ := mem_of_mem_words hw hcw
      exact absurd (hlist hcl) (by simp [hspace])
  exact ⟨hkeep 35 (by decide) (fun hc => absurd hc h.hash), hkeep 36 (by decide) (fun hc => absurd hc h.dollar),
    hkeep 10 (by decide) (fun _ => by decide)⟩

/-- The search finds the words of the list. -/
theorem findstring_ne_nil_iff (hw : Plain w) (hne : strip w ≠ []) (hlist : Plain wlist) :
    findstring ([58] ++ strip w ++ [58]) ([58] ++ [58].intercalate (words isSpace wlist) ++ [58]) ≠ [] ↔
      strip w ∈ words isSpace wlist := by
  have hcolon : ∀ part ∈ words isSpace wlist, 58 ∉ part := fun _ hpart hc => hlist.colon (mem_of_mem_words hpart hc).1
  rw [← delimited_intercalate_iff (plain_strip hw).colon hne hcolon]
  simp [findstring]

/-- `find-word-in-list` gives the word back if it is in the list. -/
theorem findWordInList_run (h : Included vars) (hw : Plain w) (hne : strip w ≠ []) (hlist : Plain wlist) :
    ∃ vars', (findWordInList reread w wlist).run vars =
      some (if strip w ∈ words isSpace wlist then strip w else [], vars') ∧ Included vars' := by
  let wlText : Text := [58] ++ [58].intercalate (words isSpace wlist) ++ [58]
  let wText : Text := [58] ++ strip w ++ [58]
  let found : Text := findstring wText wlText
  let vars1 := Function.update vars .wl wlText
  let vars2 := Function.update vars1 .w wText
  let vars3 := Function.update vars2 .m found
  have h1 : Included vars1 := included_update h (.inl rfl) wlText
  have h2 : Included vars2 := included_update h1 (.inr (.inl rfl)) wText
  have h3 : Included vars3 := included_update h2 (.inr (.inr rfl)) found
  have hwl : (evalAssign reread .wl (vars .colon ++ subst (vars .space) (vars .colon) (strip wlist) ++ vars .colon)).run vars =
      some ((), vars1) := by
    rw [h.colon, h.space, subst_strip]
    exact evalAssign_delimited reread .wl (verbatim_words hlist)
  have hwv : (evalAssign reread .w (vars1 .colon ++ strip w ++ vars1 .colon)).run vars1 = some ((), vars2) := by
    rw [h1.colon]
    exact evalAssign_delimited reread .w (verbatim_strip hw)
  have hm : (evalAssign reread .m (findstring (vars2 .w) (vars2 .wl))).run vars2 = some ((), vars3) :=
    evalAssign_findstring reread .m (verbatim_strip hw) wlText
  have hrun : (findWordInList reread w wlist).run vars =
      some (strip ([32, 32, 32] ++ makeIf (vars3 .m) w [] ++ [32]), vars3) := by
    simp only [findWordInList, StateT.run_bind, StateT.run_get, StateT.run_pure, Option.pure_def, Option.bind_eq_bind,
      Option.bind_some, hwl, hwv, hm]
  have hstrip : strip ([32, 32, 32] ++ makeIf (vars3 .m) w [] ++ [32]) = strip (makeIf found w []) := by
    have h32 : isSpace 32 = true := rfl
    rw [strip_concat_space h32, List.cons_append, strip_cons_space h32, List.cons_append, strip_cons_space h32, List.cons_append,
      strip_cons_space h32]
    rfl
  refine ⟨vars3, ?_, h3⟩
  rw [hrun, hstrip, makeIf]
  simp only [wText, wlText, found, findstring_ne_nil_iff hw hne hlist]
  by_cases hmem : strip w ∈ words isSpace wlist
  · rw [if_pos hmem, if_pos hmem]
  · rw [if_neg hmem, if_neg hmem]
    rfl

/-- `match-word-in-list` looks up what the text strips to. -/
theorem matchWordInList_run (h : Included vars) (hw : Plain w) (hlist : Plain wlist) :
    (matchWordInList reread w wlist).run' vars = some (if strip w ∈ words isSpace wlist then yes else []) := by
  have hblank : strip ([32] ++ [32]) = [] := rfl
  have hyes : strip (32 :: yes ++ [32]) = yes := rfl
  by_cases hne : strip w = []
  · have hmem : strip w ∉ words isSpace wlist := fun hmem => ne_nil_of_mem_words hmem hne
    have hrun : (matchWordInList reread w wlist).run' vars = some (strip ([32] ++ [32])) := by
      rw [matchWordInList, makeIf, if_neg (not_not.mpr hne)]
      rfl
    rw [hrun, hblank, if_neg hmem]
  · obtain ⟨vars', hfound, h'⟩ := findWordInList_run reread h hw hne hlist
    have hrun : (matchWordInList reread w wlist).run' vars =
        some (strip (32 :: (if (if strip w ∈ words isSpace wlist then strip w else []) = strip w then yes else []) ++ [32])) := by
      rw [matchWordInList, makeIf, if_pos hne]
      simp only [StateT.run'_eq, StateT.run_bind, StateT.run_pure, Option.pure_def, Option.bind_eq_bind, Option.bind_some,
        Option.map_eq_map, Option.map_some, hfound, matchWord_run h']
    rw [hrun]
    by_cases hmem : strip w ∈ words isSpace wlist
    · rw [if_pos hmem, if_pos hmem, if_pos rfl, hyes]
    · rw [if_neg hmem, if_neg hmem, if_neg (Ne.symm hne)]
      exact congrArg some hblank

end BoardAux

open BoardAux

/-- Board matching is exact: `match-word` for all texts, and `match-word-in-list` for every word and every list that come through
`eval` unchanged. -/
theorem board_matching_exact (reread : Var → Text → Make Unit) {vars : Variables} (h : Included vars) :
    (∀ w1 w2, (matchWord w1 w2).run' vars = some (if w1 = w2 then yes else [])) ∧ ExactInList reread vars Plain := by
  constructor
  · intro w1 w2
    rw [StateT.run'_eq, matchWord_run h]
    rfl
  · intro w wlist hword hw hlist
    have hself := strip_eq_self hword
    rw [matchWordInList_run reread h hw hlist, hself]

/-- The variables after the build's own and `utils.mk`. -/
def built : Variables := includeUtils (fun var => if var = .space then [32] else [])

/-- What `eval` makes of a text where every reference is to a variable with a name of one byte that is not defined. -/
def dropReferences : Text → Text
  | 36 :: _ :: text => dropReferences text
  | c :: text => c :: dropReferences text
  | [] => []

/-- `eval` of such a text. -/
def rereadUndefined (var : Var) (text : Text) : Make Unit :=
  modify (fun vars => Function.update vars var ((dropReferences (uncomment text)).dropWhile isSpace))

/-- The rule for a list of three words. -/
theorem board_matching_exact_built :
    (matchWordInList rereadUndefined [97] [97, 97, 32, 97, 98, 32, 97]).run' built = some yes :=
  (board_matching_exact rereadUndefined (included_includeUtils rfl rfl)).2 [97] [97, 97, 32, 97, 98, 32, 97]
    (by simp [IsWord, isSpace]) (by decide) (by decide)

/-- Without colons alone the lookup is not exact: the word `a#b` is found in the list `a#c`, and the word `a$x` in the list `a` if
`x` is not defined. Neither a text without references nor one without comments is enough. -/
theorem not_exactInList_of_eval :
    ¬ ExactInList rereadUndefined built (fun text => 58 ∉ text) ∧
      ¬ ExactInList rereadUndefined built (fun text => 58 ∉ text ∧ 36 ∉ text) ∧
      ¬ ExactInList rereadUndefined built (fun text => 58 ∉ text ∧ 35 ∉ text) := by
  have hcomment : ¬ ExactInList rereadUndefined built (fun text => 58 ∉ text ∧ 36 ∉ text) := by
    intro hexact
    have hanswer := hexact [97, 35, 98] [97, 35, 99] (by simp [IsWord, isSpace]) (by decide) (by decide)
    exact absurd hanswer (by decide)
  have hreference : ¬ ExactInList rereadUndefined built (fun text => 58 ∉ text ∧ 35 ∉ text) := by
    intro hexact
    have hanswer := hexact [97, 36, 120] [97] (by simp [IsWord, isSpace]) (by decide) (by decide)
    exact absurd hanswer (by decide)
  exact ⟨fun hexact => hcomment (fun w wlist hword hw hlist => hexact w wlist hword hw.1 hlist.1), hcomment, hreference⟩

end Pixel845.Board
