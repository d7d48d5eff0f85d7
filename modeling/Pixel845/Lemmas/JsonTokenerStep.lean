import Pixel845.Lemmas.JsonTokenerInv

/-!
# The states of the tokener, one by one

Each state keeps the invariant of the tokener: one lemma for each, put together in `sound_dispatch` and, with the end of a round,
in `sound_tokRound`.
-/

namespace Pixel845.Json

variable {ρ : Type} {ops : DoubleOps ρ} {chunk : Bool} {t : Tokener ρ} {s s' : TokRun ρ} {st : TokenerState} {max : Nat}

/-- The phase of a level by its state. -/
theorem phase_eq (hst : t.state = st) : t.level.phase = if st.passing then t.savedState else st := by
  rw [← hst]
  rfl

/-- The rank of a level by its state. -/
theorem rank_eq (hst : t.state = st) : t.level.rank = if st = .eatws then t.savedState.rank + 1 else st.rank := by
  rw [← hst]
  rfl

theorem length_le_of_passes {str left : List UInt8} (h : Passes str left) : left.length ≤ str.length := by
  obtain ⟨passed, rfl, -⟩ := h
  rw [List.length_append]
  omega

/-! ## White space and comments -/

theorem sound_onEatws (h : s.Sound ops max) (hst : s.tok.state = .eatws) : (onEatws chunk s).Sound ops max chunk s := by
  have hfits := tightLoop_fits isSpace s.str
  have hphase : s.tok.level.phase = s.tok.savedState := phase_eq hst
  have hsaved := h.tok.level.saved
  unfold onEatws
  split
  · rename_i passed c left heq
    rw [heq] at hfits
    obtain ⟨hstr, hpassed, hhead, -⟩ := hfits
    have hpasses := passes_of_forall hstr hpassed
    simp only
    split
    · refine ⟨h.tok.move ⟨rfl, rfl, rfl, rfl⟩ hsaved ?_ rfl, rfl, hhead, hpasses, rfl, escapeBegins_of_not rfl⟩
      rw [hphase]
      exact TokenerState.follows_refl _
    · have hnew : (s.tok.setState s.tok.savedState).level.phase = s.tok.savedState :=
        phase_of_not_passing (TokenerState.passing_of_resumable hsaved)
      have hresting : (s.tok.setState s.tok.savedState).state.resting = true := TokenerState.resting_of_resumable hsaved
      have hcalm : (s.tok.setState s.tok.savedState).Calm ops max := by
        refine h.tok.move ⟨rfl, rfl, rfl, rfl⟩ hsaved ?_ hresting
        rw [hphase, hnew]
        exact TokenerState.follows_refl _
      refine sound_redo h hcalm rfl hhead hpasses hresting (TokenerState.escaping_of_resumable hsaved) ?_
      have hlen := length_le_of_passes hpasses
      have hrank : s.tok.level.rank = s.tok.savedState.rank + 1 := rank_eq hst
      have hrank' : (s.tok.setState s.tok.savedState).level.rank = s.tok.savedState.rank := by
        refine (rank_eq rfl).trans (if_neg fun heat => ?_)
        have hpassing := TokenerState.passing_of_resumable hsaved
        exact absurd (congrArg TokenerState.passing heat ▸ hpassing) (by decide)
      simp only [TokRun.measure, TokRun.map, hrank, hrank']
      exact Nat.lt_succ_of_le (Nat.add_le_add_right (Nat.add_le_add_right (Nat.mul_le_mul_left _ hlen) _) _)
  · rename_i heq
    rw [heq] at hfits
    cases hfits
  · rename_i passed heq
    rw [heq] at hfits
    obtain ⟨hstr, hpassed⟩ := hfits
    exact sound_atEnd (h.tok.calm (hst ▸ rfl)) rfl fun c hc => (hpassed c (hstr ▸ hc)).2

/-- A state that goes back to the saved one stays on its way there. -/
theorem calm_passing (h : t.Sound ops max) (hst : t.state.passing = true) {t' : Tokener ρ} (hmoves : t.Moves t')
    (hsaved : t'.savedState = t.savedState) (hst' : t'.state.passing = true) : t'.Calm ops max := by
  refine h.move hmoves (hsaved ▸ h.level.saved) ?_ ?_
  · rw [phase_of_passing (l := t.level) hst, phase_of_passing (l := t'.level) hst',
      show t'.level.savedState = t.level.savedState from hsaved]
    exact TokenerState.follows_refl _
  · revert hst'
    cases t'.state <;> simp [TokenerState.passing, TokenerState.resting]

/-- It goes back to the saved state. -/
theorem calm_back (h : t.Sound ops max) (hst : t.state.passing = true) {t' : Tokener ρ} (hmoves : t.Moves t')
    (hsaved : t'.savedState = t.savedState) (hst' : t'.state = t.savedState) : t'.Calm ops max := by
  have hresumable := h.level.saved
  refine h.move hmoves (hsaved ▸ hresumable) ?_ (hst' ▸ TokenerState.resting_of_resumable hresumable)
  have hnot : t'.level.state.passing = false :=
    (congrArg TokenerState.passing hst').trans (TokenerState.passing_of_resumable hresumable)
  have hsame : t'.level.state = t.level.savedState := hst'
  rw [phase_of_passing (l := t.level) hst, phase_of_not_passing hnot, hsame]
  exact TokenerState.follows_refl _

theorem sound_onCommentStart (h : s.Sound ops max) (hst : s.tok.state = .commentStart) :
    (onCommentStart s).Sound ops max chunk s := by
  have hpassing : s.tok.state.passing = true := hst ▸ rfl
  unfold onCommentStart
  split
  · exact sound_next h (calm_passing h.tok hpassing ⟨rfl, rfl, rfl, rfl⟩ rfl rfl) rfl rfl
  · split
    · exact sound_next h (calm_passing h.tok hpassing ⟨rfl, rfl, rfl, rfl⟩ rfl rfl) rfl rfl
    · exact sound_fail (h.tok.calm (hst ▸ rfl)) _

theorem sound_onComment (h : s.Sound ops max) (hst : s.tok.state = .comment) : (onComment chunk s).Sound ops max chunk s :=
  sound_gather h (hst ▸ rfl) fun _ _ _ hpasses hhead _ =>
    ⟨calm_passing h.tok (hst ▸ rfl) ⟨rfl, rfl, rfl, rfl⟩ rfl rfl, rfl, hhead, hpasses, rfl, escapeBegins_of_not rfl⟩

theorem sound_onCommentEol (h : s.Sound ops max) (hst : s.tok.state = .commentEol) :
    (onCommentEol chunk s).Sound ops max chunk s :=
  sound_gather h (hst ▸ rfl) fun _ _ _ hpasses hhead _ =>
    ⟨calm_passing h.tok (hst ▸ rfl) ⟨rfl, rfl, rfl, rfl⟩ rfl rfl, rfl, hhead, hpasses, rfl, escapeBegins_of_not rfl⟩

theorem sound_onCommentEnd (h : s.Sound ops max) (hst : s.tok.state = .commentEnd) : (onCommentEnd s).Sound ops max chunk s := by
  refine sound_next h (calm_passing h.tok (hst ▸ rfl) ⟨rfl, rfl, rfl, rfl⟩ rfl ?_) rfl ?_
  · simp only [Tokener.setState, Tokener.state]
    split <;> rfl
  · simp only [Tokener.setState, Tokener.state]
    split <;> rfl

/-! ## Strings -/

theorem sound_onQuoted (h : s.Sound ops max) (hst : s.tok.state = st) (hresting : st.resting = true)
    (hsaved : st.resumable = true) {close : Tokener ρ → Tokener ρ}
      (hclose : ∀ passed, (close (s.tok.append passed)).Calm ops max ∧ (close (s.tok.append passed)).levels = s.tok.levels ∧
      (close (s.tok.append passed)).state.escaping = false) :
    (onQuoted chunk s st close).Sound ops max chunk s := by
  refine sound_gather h (hst ▸ hresting) fun passed c left hpasses hhead hpass => ?_
  split
  · exact ⟨(hclose passed).1, rfl, hhead, hpasses, (hclose passed).2.1, escapeBegins_of_not (hclose passed).2.2⟩
  · rename_i hquote
    refine ⟨h.tok.move ⟨rfl, rfl, rfl, rfl⟩ hsaved ?_ rfl, rfl, hhead, hpasses, rfl, ⟨fun _ => ?_, (by rintro ⟨⟩)⟩⟩
    · rw [phase_eq hst, TokenerState.passing_of_resumable hsaved]
      exact TokenerState.follows_refl _
    · have hquote : c ≠ s.tok.quoteChar := hquote
      have hbackslash : c = 92 := by simpa [hquote] using hpass
      exact hbackslash

theorem sound_onString (h : s.Sound ops max) (hst : s.tok.state = .string) : (onString chunk s).Sound ops max chunk s := by
  refine sound_onQuoted h hst rfl rfl fun passed => ⟨?_, rfl, rfl⟩
  have hpassed : (s.tok.append passed).Calm ops max :=
    h.tok.move ⟨rfl, rfl, rfl, rfl⟩ h.tok.level.saved (TokenerState.follows_refl _)
      ((congrArg TokenerState.resting hst).trans rfl)
  exact hpassed.sound.finishWith trivial rfl

/-- The name of a field is a C string. -/
theorem sound_onObjectField (h : s.Sound ops max) (hst : s.tok.state = .objectField) :
    (onObjectField chunk s).Sound ops max chunk s := by
  refine sound_onQuoted h hst rfl rfl fun passed => ⟨?_, rfl, rfl⟩
  have hobject := h.tok.level.inObject (by rw [phase_eq hst]; rfl)
  refine h.tok.of_level rfl rfl ?_ rfl
  exact { saved := rfl, wellFormed := h.tok.level.wellFormed, depth := h.tok.level.depth,
          inArray := (by rintro ⟨⟩), inObject := fun _ => hobject, hasKey := fun _ => ⟨_, rfl⟩,
          key := by
            rintro key hkey c hc rfl
            obtain rfl := Option.some.inj hkey
            exact absurd (List.mem_takeWhile_imp hc) (by decide) }

theorem sound_onStringEscape (h : s.Sound ops max) (hst : s.tok.state = .stringEscape) :
    (onStringEscape s).Sound ops max chunk s := by
  have hpassing : s.tok.state.passing = true := hst ▸ rfl
  have hplain : ∀ c, (Outcome.next (s.map fun t => (t.append [c]).setState t.savedState)).Sound ops max chunk s := fun c =>
    sound_next h (calm_back h.tok hpassing ⟨rfl, rfl, rfl, rfl⟩ rfl rfl) rfl
      (TokenerState.escaping_of_resumable h.tok.level.saved)
  unfold onStringEscape
  split
  case h_9 hc =>
    exact ⟨calm_passing h.tok hpassing ⟨rfl, rfl, rfl, rfl⟩ rfl rfl, rfl, h.head, Passes.refl _, rfl, (by rintro ⟨⟩), fun _ =>
      ⟨hc, rfl, hst, rfl⟩⟩
  case h_10 => exact sound_fail (h.tok.calm (hst ▸ rfl)) _
  all_goals exact hplain _

/-! ## Values -/

/-- A level with another value, which waits for a byte behind white space. -/
theorem calm_value (h : t.Sound ops max) {t' : Tokener ρ} {v : JsonObject ρ} {name : Option (List UInt8)}
    (hmax : t'.maxDepth = t.maxDepth) (hlevels : t'.levels = t.levels)
    (hlevel : t'.level = { state := .eatws, savedState := st, current := v, objFieldName := name })
    (hst : st.resumable = true) (hv : v.WellFormed ops) (hdepth : v.depth + t.depth < max)
    (hname : ∀ key, name = some key → ∀ c ∈ key, c ≠ 0)
    (harray : st.inArray = true → ∃ vals, v = .array vals) (hobject : st.inObject = true → ∃ fields, v = .object fields)
    (hkey : st.hasKey = true → ∃ key, name = some key) : t'.Calm ops max := by
  have hphase : t'.level.phase = st := by rw [hlevel]; rfl
  refine h.of_level hmax hlevels ⟨?_, ?_, ?_, ?_, ?_, ?_, ?_⟩ ?_
  · rwa [hlevel]
  · rwa [hlevel]
  · rwa [hlevel]
  · rwa [hlevel]
  · rwa [hphase, hlevel]
  · rwa [hphase, hlevel]
  · rwa [hphase, hlevel]
  · rw [Tokener.state, hlevel]
    rfl

/-- A state that stands for no kind of value may come at any time. -/
theorem calm_free (h : t.Sound ops max) {t' : Tokener ρ} (hmoves : t.Moves t') (hsaved : t'.savedState = t.savedState)
    (hst : t'.state = st) (hpassing : st.passing = false) (hfollows : st.follows .start = true) (hresting : st.resting = true) :
    t'.Calm ops max := by
  refine h.move hmoves (hsaved ▸ h.level.saved) ?_ (hst ▸ hresting)
  have hphase : t'.level.phase = st := by rw [phase_eq hst, hpassing]; rfl
  rw [hphase]
  have hfree := TokenerState.follows_iff.mp hfollows
  exact TokenerState.follows_iff.mpr ⟨fun h => absurd (hfree.1 h) (by rintro ⟨⟩), fun h =>
    absurd (hfree.2.1 h) (by rintro ⟨⟩), fun h => absurd (hfree.2.2 h) (by rintro ⟨⟩)⟩

/-- A word begins with the byte that it is known by. -/
theorem sound_begin (h : s.Sound ops max) (hst : s.tok.state = .start) {f : Tokener ρ → Tokener ρ}
    (hmoves : s.tok.Moves (f s.tok)) (hsaved : (f s.tok).savedState = s.tok.savedState) (hst' : (f s.tok).state = st)
    (hword : st = .inf ∨ st = .null ∨ st = .boolean) :
    (Outcome.redo (s.map f)).Sound ops max chunk s := by
  have hrank : s.tok.level.rank = 7 := rank_eq hst
  have hrank' : (f s.tok).level.rank = 5 := by
    rw [rank_eq hst']
    rcases hword with rfl | rfl | rfl <;> rfl
  refine sound_redo_map h ?_ hmoves.levels (by rw [hst']; rcases hword with rfl | rfl | rfl <;> rfl)
    (by rw [hst']; rcases hword with rfl | rfl | rfl <;> rfl) (by omega)
  rcases hword with rfl | rfl | rfl <;> exact calm_free h.tok hmoves hsaved hst' rfl rfl rfl

theorem sound_onStart (h : s.Sound ops max) (hst : s.tok.state = .start) : (onStart s).Sound ops max chunk s := by
  have hlt : 0 + s.tok.depth < max := by
    rw [Nat.zero_add]
    exact h.tok.level.lt
  have hfail : ∀ err, (s.fail err).Sound ops max chunk s := fun err => sound_fail (h.tok.calm (hst ▸ rfl)) err
  have hstring : ∀ quote, (Outcome.next (s.map fun t => { (t.setState .string).resetPb with quoteChar := quote })).Sound ops max
    chunk s := fun quote =>
    sound_next h (calm_free h.tok ⟨rfl, rfl, rfl, rfl⟩ rfl rfl rfl rfl rfl) rfl rfl
  unfold onStart
  split
  case h_1 =>
    exact sound_next h (calm_value h.tok rfl rfl rfl rfl ⟨List.nodup_nil, trivial⟩ hlt h.tok.level.key (by rintro ⟨⟩)
      (fun _ => ⟨[], rfl⟩) (by rintro ⟨⟩)) rfl rfl
  case h_2 =>
    exact sound_next h (calm_value h.tok rfl rfl rfl rfl trivial hlt h.tok.level.key (fun _ => ⟨[], rfl⟩) (by rintro ⟨⟩)
      (by rintro ⟨⟩)) rfl rfl
  case h_3 | h_4 => exact sound_begin h hst ⟨rfl, rfl, rfl, rfl⟩ rfl rfl (.inl rfl)
  case h_5 | h_6 => exact sound_begin h hst ⟨rfl, rfl, rfl, rfl⟩ rfl rfl (.inr (.inl rfl))
  case h_7 =>
    split
    · exact hfail _
    · exact hstring 39
  case h_8 => exact hstring 34
  case h_9 | h_10 | h_11 | h_12 => exact sound_begin h hst ⟨rfl, rfl, rfl, rfl⟩ rfl rfl (.inr (.inr rfl))
  case h_13 =>
    split
    · rename_i hdigit
      have hmove : (s.tok.setState .number).level.Sound ops max s.tok.depth :=
        h.tok.level.move rfl rfl h.tok.level.saved (by rw [phase_eq hst]; rfl)
      refine ⟨⟨⟨h.tok.maxDepth, hmove, h.tok.levels, fun _ => ⟨(by rintro _ ⟨⟩), rfl, (by rintro _ ⟨⟩)⟩⟩, h.head, h.wellFormed,
        (by rintro (⟨⟨⟩⟩ | ⟨⟨⟩⟩)), fun _ _ => hdigit⟩, Passes.refl _, ?_, rfl⟩
      have hrank : s.tok.level.rank = 7 := rank_eq hst
      have hrank' : (s.tok.setState .number).level.rank = 6 := rfl
      simp only [TokRun.measure, TokRun.map, hrank]
      exact Nat.lt_succ_self _
    · exact hfail _

/-- A value goes to the level below. -/
theorem sound_onFinish (h : s.Sound ops max) (hst : s.tok.state = .finish) : (onFinish s).Sound ops max chunk s := by
  have hcalm := h.tok.calm (hst ▸ rfl)
  unfold onFinish
  split
  · exact ⟨hcalm, id⟩
  · rename_i level levels hlevels
    obtain ⟨hlevel, hwaiting, hbelow⟩ : LevelsSound ops max (level :: levels) := hlevels ▸ h.tok.levels
    have hdepth := h.tok.level.depth
    rw [Tokener.depth, hlevels, List.length_cons] at hdepth
    have hnumber : level.state ≠ .number := by
      intro hnumber
      rw [hnumber] at hwaiting
      cases hwaiting
    refine ⟨⟨⟨h.tok.maxDepth, hlevel, hbelow, fun hst' => absurd hst' hnumber⟩, h.head, h.tok.level.wellFormed, fun _ =>
      ?_, fun hst' => absurd hst' hnumber⟩, Passes.refl _, ?_, ?_⟩
    · simp only [Tokener.depth]
      omega
    · have hrank : s.tok.level.rank = 3 := rank_eq hst
      have hle : level.rank ≤ level.weight + 2 := by
        have hsaved := level.savedState.rank_le
        unfold Level.rank Level.weight
        split
        · omega
        · revert hwaiting
          cases hstate : level.state <;> simp_all [TokenerState.waiting, TokenerState.rank]
      simp only [TokRun.measure, levelsWeight, hlevels, List.map_cons, List.sum_cons, hrank]
      omega
    · have hescaping : level.state.escaping = false := by
        revert hwaiting
        cases level.state <;> simp [TokenerState.waiting, TokenerState.escaping]
      exact hescaping

/-! ## Words -/

/-- A byte that spells a word, or the word's value. -/
theorem sound_onWord (h : s.Sound ops max) (hword : st = .inf ∨ st = .null ∨ st = .boolean) (hst : s.tok.state = st)
    {word : List UInt8} {v : JsonObject ρ} (hv : v.WellFormed ops) (hdepth : v.depth = 0) :
    (onWord (s.map (·.append [s.c])) word v).Sound ops max chunk s := by
  have hresting : st.resting = true := by rcases hword with rfl | rfl | rfl <;> rfl
  have hcalm : ∀ pos, ({ s.tok.append [s.c] with stPos := pos } : Tokener ρ).Calm ops max := fun pos =>
    h.tok.move ⟨rfl, rfl, rfl, rfl⟩ h.tok.level.saved (TokenerState.follows_refl _)
      ((congrArg TokenerState.resting hst).trans hresting)
  unfold onWord
  split
  · have hfinish : ((s.tok.append [s.c]).finishWith v).Calm ops max := (hcalm s.tok.stPos).sound.finishWith hv hdepth
    have hrank : s.tok.level.rank = 5 := by
      rw [rank_eq hst]
      rcases hword with rfl | rfl | rfl <;> rfl
    have hrank' : ((s.tok.append [s.c]).finishWith v).level.rank = 4 := rfl
    exact sound_redo_map (f := fun t => (t.append [s.c]).finishWith v) h hfinish rfl rfl rfl (by rw [hrank, hrank']; decide)
  · have hescaping : s.tok.state.escaping = false := by
      rw [hst]
      rcases hword with rfl | rfl | rfl <;> rfl
    exact sound_next (f := fun t => { t.append [s.c] with stPos := s.tok.stPos + 1 }) h (hcalm _) rfl hescaping

/-- A word that does not match is an error. -/
theorem sound_wordFail (h : s.Sound ops max) (hst : s.tok.state.resting = true) (err : TokenerError) :
    ((s.map (·.append [s.c])).fail err).Sound ops max chunk s := by
  have hcalm : (s.tok.append [s.c]).Calm ops max :=
    h.tok.move ⟨rfl, rfl, rfl, rfl⟩ h.tok.level.saved (TokenerState.follows_refl _) hst
  exact ⟨⟨⟨hcalm.sound.maxDepth, hcalm.sound.level, hcalm.sound.levels, hcalm.sound.number⟩, hcalm.notAdding, hcalm.started⟩, id⟩

theorem sound_onInf (h : s.Sound ops max) (hst : s.tok.state = .inf) : (onInf ops s).Sound ops max chunk s := by
  unfold onInf
  simp only
  have hfail : ((s.map (·.append [s.c])).fail .errorParseUnexpected).Sound ops max chunk s := sound_wordFail h (hst ▸ rfl) _
  -- a sign in the buffer makes the infinity negative
  split
  · split
    · exact sound_onWord h (.inl rfl) hst (v := .double ops.negInfinity none) (.inr (.inr rfl)) rfl
    · exact hfail
  · split
    · exact sound_onWord h (.inl rfl) hst (v := .double ops.infinity none) (.inr (.inl rfl)) rfl
    · exact hfail

theorem sound_onNull (h : s.Sound ops max) (hst : s.tok.state = .null) : (onNull ops s).Sound ops max chunk s := by
  unfold onNull
  simp only
  split
  · exact sound_onWord h (.inr (.inl rfl)) hst trivial rfl
  · split
    · exact sound_onWord h (.inr (.inl rfl)) hst (.inl rfl) rfl
    · exact sound_wordFail h (hst ▸ rfl) _

theorem sound_onBoolean (h : s.Sound ops max) (hst : s.tok.state = .boolean) : (onBoolean s).Sound ops max chunk s := by
  unfold onBoolean
  simp only
  split
  · exact sound_onWord h (.inr (.inr rfl)) hst trivial rfl
  · split
    · exact sound_onWord h (.inr (.inr rfl)) hst trivial rfl
    · exact sound_wordFail h (hst ▸ rfl) _

/-! ## Numbers -/

/-- The value of a number is in range, or has its text. -/
theorem wellFormed_numberValue {buf : List UInt8} {isDouble strict : Bool} {v : JsonObject ρ} (hbuf : NumberText buf isDouble)
    (hne : buf ≠ []) (hv : numberValue ops strict isDouble buf = some v) : v.WellFormed ops ∧ v.depth = 0 := by
  unfold numberValue at hv
  split at hv
  · rename_i hdouble
    obtain ⟨d, hscan, rfl⟩ := Option.map_eq_some_iff.mp hv
    obtain ⟨c, cs, rfl⟩ := List.exists_cons_of_ne_nil hne
    exact ⟨⟨⟨c, cs, rfl, hbuf.head c rfl⟩, hbuf.chars, hbuf.isDouble.symm.trans hdouble, hscan⟩, rfl⟩
  · obtain ⟨n, hn, hv⟩ := Option.bind_eq_some_iff.mp hv
    split at hv
    · cases hv
    · obtain rfl := Option.some.inj hv
      obtain ⟨⟨neg, m⟩, -, rfl⟩ := Option.map_eq_some_iff.mp hn
      refine ⟨?_, rfl⟩
      simp only [JsonObject.WellFormed, Int64]
      split <;> omega

/-- More characters of a number. -/
theorem NumberText.append {pb passed : List UInt8} {isDouble : Bool} (h : NumberText pb isDouble)
    (hpassed : ∀ c ∈ passed, isNumberChar c = true) (hfirst : pb = [] → ∀ c, passed.head? = some c → isDigit c = true ∨ c = 45) :
    NumberText (pb ++ passed) (isDouble || passed.any isDoubleChar) where
  chars := fun c hc => (List.mem_append.mp hc).elim (h.chars c) (hpassed c)
  isDouble := by rw [List.any_append, h.isDouble]
  head := by
    intro c hc
    cases pb with
    | nil => exact hfirst rfl c hc
    | cons d pb => exact h.head c hc

/-- A number and what is passed of it. -/
theorem numberText_passed (h : s.Sound ops max) (hst : s.tok.state = .number) {passed left : List UInt8}
    (hstr : s.str = passed ++ left) (hpassed : ∀ c ∈ passed, isNumberChar c = true ∧ c ≠ 0)
    (hleft : ∀ c, left.head? = some c → isNumberChar c = false) :
    NumberText (s.tok.pb ++ passed) (s.tok.isDouble || passed.any isDoubleChar) ∧ s.tok.pb ++ passed ≠ [] := by
  have hhead := h.head
  rw [hstr] at hhead
  refine ⟨(h.tok.number hst).append (fun c hc => (hpassed c hc).1) fun hpb c hc => ?_, fun hnil => ?_⟩
  · cases passed with
    | nil => cases hc
    | cons d passed =>
      obtain rfl : d = c := by simpa using hc
      obtain rfl : d = s.c := by simpa using hhead
      exact h.digit hst hpb
  · obtain ⟨hpb, rfl⟩ := List.append_eq_nil_iff.mp hnil
    have hfalse := hleft s.c hhead
    rcases h.digit hst hpb with hdigit | hminus
    · rw [(isNumberChar_of_isDigit hdigit).1] at hfalse
      cases hfalse
    · rw [hminus] at hfalse
      exact absurd hfalse (by decide)

theorem sound_onNumber (h : s.Sound ops max) (hst : s.tok.state = .number) : (onNumber ops chunk s).Sound ops max chunk s := by
  have hfits := tightLoop_fits isNumberChar s.str
  have hcalm : ∀ passed, NumberText (s.tok.pb ++ passed) (s.tok.isDouble || passed.any isDoubleChar) ∧ s.tok.pb ++ passed ≠ [] →
      ({ s.tok.append passed with isDouble := s.tok.isDouble || passed.any isDoubleChar } : Tokener ρ).Calm ops max :=
      fun passed hnumber => by
    refine ⟨⟨h.tok.maxDepth, h.tok.level, h.tok.levels, fun _ => hnumber.1⟩, ?_, fun _ => hnumber.2⟩
    have hstate : s.tok.level.state = .number := hst
    constructor <;> (intro hadd; cases hstate.symm.trans hadd)
  have hrank : s.tok.level.rank = 6 := rank_eq hst
  unfold onNumber
  simp only
  split
  · rename_i passed c left heq
    rw [heq] at hfits
    obtain ⟨hstr, hpassed, hhead, hc⟩ := hfits
    have hpasses := passes_of_forall hstr hpassed
    have hlen := length_le_of_passes hpasses
    have hnumber := numberText_passed h hst hstr hpassed fun d hd => by
      obtain rfl := Option.some.inj (hhead.symm.trans hd)
      exact hc
    have hnew := hcalm passed hnumber
    split
    · refine sound_redo h (calm_free hnew.sound ⟨rfl, rfl, rfl, rfl⟩ rfl rfl rfl rfl rfl) rfl hhead hpasses rfl rfl ?_
      have hrank' : ∀ t : Tokener ρ, (t.setState .inf).level.rank = 5 := fun _ => rfl
      simp only [TokRun.measure, TokRun.map, hrank, hrank']
      exact Nat.add_lt_add_of_le_of_lt (Nat.add_le_add_right (Nat.mul_le_mul_left _ hlen) _) (by decide)
    · split
      · rename_i v hv
        obtain ⟨hwell, hdepth⟩ := wellFormed_numberValue hnumber.1 hnumber.2 hv
        refine sound_redo h (hnew.sound.finishWith hwell hdepth) rfl hhead hpasses rfl rfl ?_
        have hrank' : ∀ t : Tokener ρ, (t.finishWith v).level.rank = 4 := fun _ => rfl
        simp only [TokRun.measure, TokRun.map, hrank, hrank']
        exact Nat.add_lt_add_of_le_of_lt (Nat.add_le_add_right (Nat.mul_le_mul_left _ hlen) _) (by decide)
      · exact ⟨⟨⟨hnew.sound.maxDepth, hnew.sound.level, hnew.sound.levels, hnew.sound.number⟩, hnew.notAdding, hnew.started⟩, id⟩
  · rename_i heq
    rw [heq] at hfits
    cases hfits
  · rename_i passed heq
    rw [heq] at hfits
    obtain ⟨hstr, hpassed⟩ := hfits
    exact sound_atEnd (hcalm passed (numberText_passed h hst (hstr.trans (List.append_nil _).symm) hpassed (by rintro _ ⟨⟩))) rfl
      fun c hc => (hpassed c (hstr ▸ hc)).2

/-! ## Arrays and objects -/

/-- A new level is opened soundly. -/
theorem sound_openLevel (h : s.Sound ops max) (hrank : s.tok.level.rank = 9) {st' : TokenerState} (hst : s.tok.state = st)
    (hresting : st.resting = true) (hadd : st' = .arrayAdd ∨ st' = .objectValueAdd) (hfollows : st'.follows st = true)
    (hpassing : st.passing = false) :
    (openLevel s st').Sound ops max chunk s := by
  unfold openLevel
  split
  · exact sound_fail (h.tok.calm (hst ▸ hresting)) _
  · rename_i hroom
    have hnew : (s.tok.setState st').level.phase = st' := by
      rw [phase_eq rfl]
      rcases hadd with rfl | rfl <;> rfl
    have hlevel : (s.tok.setState st').level.Sound ops max s.tok.depth :=
      h.tok.level.move rfl rfl h.tok.level.saved (by rw [hnew, phase_eq hst, hpassing]; exact hfollows)
    have hwaiting : (s.tok.setState st').level.state.waiting = true := by rcases hadd with rfl | rfl <;> rfl
    have hfresh : ((s.tok.setState st').push).level.Sound ops max (s.tok.depth + 1) :=
      level_sound_fresh ops (by have := h.tok.maxDepth; omega)
    have hweight : (s.tok.setState st').level.weight = 0 := by rcases hadd with rfl | rfl <;> rfl
    have hfreshRank : (Level.fresh : Level ρ).rank = 8 := rfl
    refine ⟨⟨⟨h.tok.maxDepth, hfresh, ⟨hlevel, hwaiting, h.tok.levels⟩, (by rintro ⟨⟩)⟩, h.head, h.wellFormed, ?_,
      (by rintro ⟨⟩)⟩, Passes.refl _, ?_, rfl⟩
    · rintro (hst' | hst') <;> cases hst'
    · have hlevels : ((s.tok.setState st').push).levels = (s.tok.setState st').level :: s.tok.levels := rfl
      have htop : ((s.tok.setState st').push).level = .fresh := rfl
      simp only [TokRun.measure, TokRun.map, hlevels, htop, levelsWeight, List.map_cons, List.sum_cons, hweight,
        hfreshRank, hrank]
      omega

/-- A level is closed soundly. -/
theorem sound_closeLevel (h : s.Sound ops max) (hresting : s.tok.state.resting = true) (afterSep : Bool) :
    (closeLevel s afterSep).Sound ops max chunk s := by
  unfold closeLevel
  split
  · exact sound_fail (h.tok.calm hresting) _
  · exact sound_next h (h.tok.move ⟨rfl, rfl, rfl, rfl⟩ rfl rfl rfl) rfl rfl

theorem sound_onArray (h : s.Sound ops max) (hst : s.tok.state = .array ∨ s.tok.state = .arrayAfterSep) (afterSep : Bool) :
    (onArray s afterSep).Sound ops max chunk s := by
  unfold onArray
  rcases hst with hst | hst
  · split
    · exact sound_closeLevel h (hst ▸ rfl) afterSep
    · exact sound_openLevel h (rank_eq hst) hst rfl (.inl rfl) rfl rfl
  · split
    · exact sound_closeLevel h (hst ▸ rfl) afterSep
    · exact sound_openLevel h (rank_eq hst) hst rfl (.inl rfl) rfl rfl

/-- The element has room, as the level that it was read in had. -/
theorem sound_onArrayAdd (h : s.Sound ops max) (hst : s.tok.state = .arrayAdd) : (onArrayAdd s).Sound ops max chunk s := by
  obtain ⟨vals, hvals⟩ := h.tok.level.inArray (by rw [phase_eq hst]; rfl)
  have hwell := h.tok.level.wellFormed
  have hdepth := h.tok.level.depth
  have hobj := h.depth (.inl hst)
  rw [hvals] at hwell hdepth
  rw [JsonObject.depth] at hdepth
  have hwell' : WellFormedVals ops (vals ++ [s.obj]) := by
    refine wellFormedVals_iff.mpr fun v hv => ?_
    rcases List.mem_append.mp hv with hv | hv
    · exact wellFormedVals_iff.mp hwell v hv
    · exact List.mem_singleton.mp hv ▸ h.wellFormed
  have hdepth' : depthVals (vals ++ [s.obj]) ≤ max - s.tok.depth - 1 := by
    refine depthVals_le.mpr fun v hv => ?_
    rcases List.mem_append.mp hv with hv | hv
    · have hlt := depthVals_le.mp (Nat.le_refl _) v hv
      omega
    · rw [List.mem_singleton.mp hv]
      omega
  have hcalm : ({ s.tok.eatThen .arraySep with
      level := { (s.tok.eatThen .arraySep).level with current := .array (vals ++ [s.obj]) } } : Tokener ρ).Calm ops max :=
    calm_value h.tok rfl rfl rfl rfl hwell' (by rw [JsonObject.depth]; omega) h.tok.level.key (fun _ => ⟨_, rfl⟩)
      (by rintro ⟨⟩) (by rintro ⟨⟩)
  unfold onArrayAdd
  simp only [hvals]
  refine sound_redo_map (f := fun t =>
    { t.eatThen .arraySep with level := { (t.eatThen .arraySep).level with current := .array (vals ++ [s.obj]) } }) h hcalm
      rfl rfl rfl ?_
  have hrank : s.tok.level.rank = 2 := rank_eq hst
  rw [hrank]
  exact Nat.lt_succ_self 1

theorem sound_onArraySep (h : s.Sound ops max) (hst : s.tok.state = .arraySep) : (onArraySep s).Sound ops max chunk s := by
  unfold onArraySep
  split
  · exact sound_next h (h.tok.move ⟨rfl, rfl, rfl, rfl⟩ rfl rfl rfl) rfl rfl
  · split
    · exact sound_next h (h.tok.move ⟨rfl, rfl, rfl, rfl⟩ rfl (by rw [phase_eq hst]; rfl) rfl) rfl rfl
    · exact sound_fail (h.tok.calm (hst ▸ rfl)) _

theorem sound_onObjectFieldStart (h : s.Sound ops max)
    (hst : s.tok.state = .objectFieldStart ∨ s.tok.state = .objectFieldStartAfterSep) (afterSep : Bool) :
    (onObjectFieldStart s afterSep).Sound ops max chunk s := by
  have hresting : s.tok.state.resting = true := by rcases hst with hst | hst <;> exact hst ▸ rfl
  have hphase : s.tok.level.phase.inObject = true := by rcases hst with hst | hst <;> rw [phase_eq hst] <;> rfl
  unfold onObjectFieldStart
  split
  · exact sound_closeLevel h hresting afterSep
  · split
    · refine sound_next h (h.tok.move ⟨rfl, rfl, rfl, rfl⟩ h.tok.level.saved ?_ rfl) rfl rfl
      exact TokenerState.follows_iff.mpr ⟨(by rintro ⟨⟩), fun _ => hphase, (by rintro ⟨⟩)⟩
    · exact sound_fail (h.tok.calm hresting) _

theorem sound_onObjectFieldEnd (h : s.Sound ops max) (hst : s.tok.state = .objectFieldEnd) :
    (onObjectFieldEnd s).Sound ops max chunk s := by
  unfold onObjectFieldEnd
  split
  · exact sound_next h (h.tok.move ⟨rfl, rfl, rfl, rfl⟩ rfl (by rw [phase_eq hst]; rfl) rfl) rfl rfl
  · exact sound_fail (h.tok.calm (hst ▸ rfl)) _

/-- The fields behind an addition: the new one, and those that were there. -/
theorem mem_fieldsAdd {fields : List (List UInt8 × JsonObject ρ)} {key : List UInt8} {v : JsonObject ρ}
    {f : List UInt8 × JsonObject ρ} (hf : f ∈ fieldsAdd fields key v) : f = (key, v) ∨ f ∈ fields := by
  unfold fieldsAdd at hf
  split at hf
  · obtain ⟨e, he, rfl⟩ := List.mem_map.mp hf
    split
    · exact .inl rfl
    · exact .inr he
  · rcases List.mem_append.mp hf with hf | hf
    · exact .inr hf
    · exact .inl (List.mem_singleton.mp hf)

/-- A field that is added leaves the keys distinct. -/
theorem nodup_fieldsAdd {fields : List (List UInt8 × JsonObject ρ)} (h : (fields.map Prod.fst).Nodup) (key : List UInt8)
    (v : JsonObject ρ) : ((fieldsAdd fields key v).map Prod.fst).Nodup := by
  unfold fieldsAdd
  split
  · rwa [OrderedMap.map_fst_replace]
  · rename_i hnew
    rw [List.map_append]
    exact List.nodup_append'.mpr ⟨h, List.nodup_singleton _, by simpa using hnew⟩

/-- The field has room, as the level that its value was read in had. -/
theorem sound_onObjectValueAdd (h : s.Sound ops max) (hst : s.tok.state = .objectValueAdd) :
    (onObjectValueAdd s).Sound ops max chunk s := by
  obtain ⟨fields, hfields⟩ := h.tok.level.inObject (by rw [phase_eq hst]; rfl)
  obtain ⟨key, hkey⟩ := h.tok.level.hasKey (by rw [phase_eq hst]; rfl)
  have hwell := h.tok.level.wellFormed
  have hdepth := h.tok.level.depth
  have hobj := h.depth (.inr hst)
  rw [hfields] at hwell hdepth
  rw [JsonObject.depth] at hdepth
  have hwell' : (JsonObject.object (fieldsAdd fields key s.obj)).WellFormed ops := by
    refine ⟨nodup_fieldsAdd hwell.1 key s.obj, wellFormedFields_iff.mpr fun f hf => ?_⟩
    rcases mem_fieldsAdd hf with rfl | hf
    · exact ⟨h.tok.level.key key hkey, h.wellFormed⟩
    · exact wellFormedFields_iff.mp hwell.2 f hf
  have hdepth' : depthFields (fieldsAdd fields key s.obj) ≤ max - s.tok.depth - 1 := by
    refine depthFields_le.mpr fun f hf => ?_
    rcases mem_fieldsAdd hf with rfl | hf
    · simp only
      omega
    · have hlt := depthFields_le.mp (Nat.le_refl _) f hf
      omega
  have hcalm : ({ s.tok.eatThen .objectSep with
      level := { (s.tok.eatThen .objectSep).level with
        current := .object (fieldsAdd fields key s.obj), objFieldName := none } } : Tokener ρ).Calm ops max :=
    calm_value h.tok rfl rfl rfl rfl hwell' (by rw [JsonObject.depth]; omega) (by rintro _ ⟨⟩) (by rintro ⟨⟩) (fun _ => ⟨_, rfl⟩)
      (by rintro ⟨⟩)
  unfold onObjectValueAdd
  simp only [hfields, hkey]
  refine sound_redo_map (f := fun t =>
    { t.eatThen .objectSep with
      level := { (t.eatThen .objectSep).level with
        current := .object (fieldsAdd fields key s.obj), objFieldName := none } }) h hcalm rfl rfl rfl ?_
  have hrank : s.tok.level.rank = 2 := rank_eq hst
  rw [hrank]
  exact Nat.lt_succ_self 1

theorem sound_onObjectSep (h : s.Sound ops max) (hst : s.tok.state = .objectSep) : (onObjectSep s).Sound ops max chunk s := by
  unfold onObjectSep
  split
  · exact sound_next h (h.tok.move ⟨rfl, rfl, rfl, rfl⟩ rfl rfl rfl) rfl rfl
  · split
    · exact sound_next h (h.tok.move ⟨rfl, rfl, rfl, rfl⟩ rfl (by rw [phase_eq hst]; rfl) rfl) rfl rfl
    · exact sound_fail (h.tok.calm (hst ▸ rfl)) _

/-! ## Escapes of code units -/

/-- The tokener is still at an escape. -/
structure Tokener.Escapes (t t' : Tokener ρ) : Prop where
  moves : t.Moves t'
  saved : t'.savedState = t.savedState
  state : t'.state = .escapeUnicode

/-- Parts of an escape one after the other. -/
theorem Tokener.Escapes.trans {t' t'' : Tokener ρ} (h : t.Escapes t') (h' : t'.Escapes t'') : t.Escapes t'' where
  moves :=
    ⟨h'.moves.maxDepth.trans h.moves.maxDepth, h'.moves.levels.trans h.moves.levels, h'.moves.current.trans h.moves.current,
      h'.moves.name.trans h.moves.name⟩
  saved := h'.saved.trans h.saved
  state := h'.state

theorem escapes_takeHexdigit {t' : Tokener ρ} {c : UInt8} (hst : t.state = .escapeUnicode) (h : takeHexdigit t c = some t') :
    t.Escapes t' := by
  unfold takeHexdigit at h
  split at h
  · cases h
    exact ⟨⟨rfl, rfl, rfl, rfl⟩, rfl, hst⟩
  · cases h

theorem escapes_append (hst : t.state = .escapeUnicode) (bs : List UInt8) : t.Escapes (t.append bs) :=
  ⟨⟨rfl, rfl, rfl, rfl⟩, rfl, hst⟩

theorem escapes_joinSurrogates (hst : t.state = .escapeUnicode) (hi : Nat) : t.Escapes (joinSurrogates hi t) := by
  unfold joinSurrogates
  split
  · exact ⟨⟨rfl, rfl, rfl, rfl⟩, rfl, hst⟩
  · split
    · exact ⟨⟨rfl, rfl, rfl, rfl⟩, rfl, hst⟩
    · exact escapes_append hst _

theorem escapes_dropSurrogate (hst : t.state = .escapeUnicode) (hi : Nat) : t.Escapes (dropSurrogate hi t) := by
  unfold dropSurrogate
  split
  · exact ⟨⟨rfl, rfl, rfl, rfl⟩, rfl, hst⟩
  · exact escapes_append hst _

/-- An escape leaves a calm tokener. -/
theorem calm_escapes (h : s.Sound ops max) (hst : s.tok.state = .escapeUnicode) (ht : s.tok.Escapes t) : t.Calm ops max :=
  calm_passing h.tok (hst ▸ rfl) ht.moves ht.saved (ht.state ▸ rfl)

/-- The escape is over: the text goes on in the saved state. -/
theorem sound_escaped (h : s.Sound ops max) (hst : s.tok.state = .escapeUnicode) (ht : s.tok.Escapes t) (bs : List UInt8)
    {obj : JsonObject ρ} (hobj : obj = s.obj) {c : UInt8} {rest : List UInt8} (hpasses : Passes s.str (c :: rest)) :
    (Outcome.next ⟨(t.append bs).setState t.savedState, obj, c, c :: rest⟩).Sound ops max chunk s :=
  ⟨calm_back h.tok (hst ▸ rfl) ⟨ht.moves.maxDepth, ht.moves.levels, ht.moves.current, ht.moves.name⟩ ht.saved ht.saved, hobj, rfl,
    hpasses, ht.moves.levels, escapeBegins_of_not (TokenerState.escaping_of_resumable (ht.saved ▸ h.tok.level.saved))⟩

/-- The end of the text within an escape is sound. -/
theorem sound_escapeEnd (h : s.Sound ops max) (hst : s.tok.state = .escapeUnicode) (ht : s.tok.Escapes s'.tok) :
    (s'.atEnd chunk).Sound ops max chunk s := by
  cases chunk with
  | true => exact ⟨calm_peekErr (calm_escapes h hst ht), fun _ => hst⟩
  | false => exact .inr hst

/-- A character that is passed too. -/
theorem Passes.tail {str left : List UInt8} {c : UInt8} (h : Passes str (c :: left)) (hc : c ≠ 0) : Passes str left := by
  obtain ⟨passed, rfl, hpassed⟩ := h
  refine ⟨passed ++ [c], by simp, fun d hd => ?_⟩
  rcases List.mem_append.mp hd with hd | hd
  · exact hpassed d hd
  · exact List.mem_singleton.mp hd ▸ hc

/-- The loop over the digits of an escape is sound. -/
theorem sound_unicodeLoop (h : s.Sound ops max) (hst : s.tok.state = .escapeUnicode) (hi : Nat) (ht : s.tok.Escapes s'.tok)
    (hobj : s'.obj = s.obj) {str : List UInt8} (hpasses : Passes s.str str) :
    (unicodeLoop chunk hi s' str).Sound ops max chunk s := by
  induction hn : str.length using Nat.strong_induction_on generalizing str s' hi with
  | _ n ih =>
    cases str with
    | nil => exact .inr hst
    | cons c rest =>
      rw [unicodeLoop]
      split
      · split
        · exact .inr hst
        · rename_i t htake
          have ht1 := ht.trans (escapes_takeHexdigit ht.state htake)
          split
          · have ht2 := ht1.trans (escapes_joinSurrogates ht1.state hi)
            simp only
            split
            · exact sound_escaped h hst ht2 _ hobj hpasses
            · split
              · rename_i rest
                have hrest : c ≠ 0 → Passes s.str rest := fun hc => ((hpasses.tail hc).tail (by decide)).tail (by decide)
                split
                · have ht3 := ht2.trans (escapes_append ht2.state utf8ReplacementChar)
                  exact ⟨calm_escapes h hst (ht3.trans (escapes_append ht3.state utf8ReplacementChar)), fun _ => hst⟩
                · rename_i hc
                  split
                  · exact sound_escapeEnd h hst (ht2.trans (escapes_append ht2.state _))
                  · refine ih _ ?_ _ ?_ ?_ (hrest hc) rfl
                    · rw [← hn]
                      simp only [List.length_cons]
                      omega
                    · exact ht2.trans ⟨⟨rfl, rfl, rfl, rfl⟩, rfl, ht2.state⟩
                    · exact hobj
              · split
                · exact sound_escaped h hst ht2 _ hobj hpasses
                · exact .inr hst
              · split
                · exact sound_escaped h hst ht2 _ hobj hpasses
                · exact .inr hst
              · exact sound_escaped h hst ht2 _ hobj hpasses
          · split
            · exact ⟨calm_escapes h hst (ht1.trans (escapes_dropSurrogate ht1.state hi)), fun _ => hst⟩
            · rename_i hc
              split
              · exact sound_escapeEnd h hst (ht1.trans (escapes_dropSurrogate ht1.state hi))
              · refine ih _ ?_ _ ?_ ?_ (hpasses.tail hc) rfl
                · rw [← hn]
                  exact Nat.lt_succ_self _
                · exact ht1
                · exact hobj
      · have hcalm := calm_escapes h hst ht
        exact ⟨⟨⟨hcalm.sound.maxDepth, hcalm.sound.level, hcalm.sound.levels, hcalm.sound.number⟩, hcalm.notAdding,
          hcalm.started⟩, fun _ => hst⟩

theorem sound_onEscapeUnicode (h : s.Sound ops max) (hst : s.tok.state = .escapeUnicode) :
    (onEscapeUnicode chunk s).Sound ops max chunk s :=
  sound_unicodeLoop h hst 0 ⟨⟨rfl, rfl, rfl, rfl⟩, rfl, hst⟩ rfl (Passes.refl _)

/-! ## Rounds -/

/-- Every state handles its character soundly. -/
theorem sound_dispatch (chunk : Bool) (h : s.Sound ops max) : (dispatch ops chunk s).Sound ops max chunk s := by
  unfold dispatch
  split
  case h_1 hst => exact sound_onEatws h hst
  case h_2 hst => exact sound_onStart h hst
  case h_3 hst => exact sound_onFinish h hst
  case h_4 hst => exact sound_onInf h hst
  case h_5 hst => exact sound_onNull h hst
  case h_6 hst => exact sound_onCommentStart h hst
  case h_7 hst => exact sound_onComment h hst
  case h_8 hst => exact sound_onCommentEol h hst
  case h_9 hst => exact sound_onCommentEnd h hst
  case h_10 hst => exact sound_onString h hst
  case h_11 hst => exact sound_onStringEscape h hst
  case h_12 hst => exact sound_onEscapeUnicode h hst
  case h_13 hst => exact sound_onBoolean h hst
  case h_14 hst => exact sound_onNumber h hst
  case h_15 hst => exact sound_onArray h (.inr hst) true
  case h_16 hst => exact sound_onArray h (.inl hst) false
  case h_17 hst => exact sound_onArrayAdd h hst
  case h_18 hst => exact sound_onArraySep h hst
  case h_19 hst => exact sound_onObjectFieldStart h (.inl hst) false
  case h_20 hst => exact sound_onObjectFieldStart h (.inr hst) true
  case h_21 hst => exact sound_onObjectField h hst
  case h_22 hst => exact sound_onObjectFieldEnd h hst
  case h_23 hst => exact sound_openLevel h (rank_eq hst) hst rfl (.inr rfl) rfl rfl
  case h_24 hst => exact sound_onObjectValueAdd h hst
  case h_25 hst => exact sound_onObjectSep h hst

/-- A round that leads to an escape has passed its backslash, or the `u` behind one. -/
structure EscapeStep (s s' : TokRun ρ) : Prop where
  backslash : s'.tok.state = .stringEscape → ∃ passed, s.str = passed ++ 92 :: s'.str
  unit : s'.tok.state = .escapeUnicode → s'.tok.stPos = 0 ∧ s.tok.state = .stringEscape ∧ s.str = 117 :: s'.str

/-- What a round does: it keeps the invariant and makes the measure smaller, or ends with a tokener that is fine. -/
def RoundSound (ops : DoubleOps ρ) (max : Nat) (chunk : Bool) (s : TokRun ρ) : TokRun ρ ⊕ Ending ρ → Prop
  | .inl s' => s'.Sound ops max ∧ Passes s.str s'.str ∧ s'.measure < s.measure ∧ EscapeStep s s'
  | .inr (.out s') =>
    s'.tok.Calm ops max ∧ (s'.tok.state = .escapeUnicode → s'.tok.stPos = 0 ∨ s.tok.state = .escapeUnicode ∧
      dispatch ops chunk s = .out s')
  | .inr .fault => (chunk = false ∧ 0 ∉ s.str) ∨ s.tok.state = .escapeUnicode ∧ dispatch ops chunk s = .fault

/-- Every round is sound. -/
theorem sound_tokRound (chunk : Bool) (h : s.Sound ops max) : RoundSound ops max chunk s (tokRound ops chunk s) := by
  have hdispatch := sound_dispatch chunk h
  unfold tokRound
  cases hout : dispatch ops chunk s with
  | redo s' =>
    rw [hout] at hdispatch
    obtain ⟨hsound, hpasses, hmeasure, hescaping⟩ := hdispatch
    refine ⟨hsound, hpasses, hmeasure, fun hst => ?_, fun hst => ?_⟩
    · rw [hst] at hescaping
      cases hescaping
    · rw [hst] at hescaping
      cases hescaping
  | out s' =>
    rw [hout] at hdispatch
    exact ⟨hdispatch.1, fun hst => .inr ⟨hdispatch.2 hst, hout⟩⟩
  | fault =>
    rw [hout] at hdispatch
    exact hdispatch.imp_right fun hst => ⟨hst, hout⟩
  | next s' =>
    rw [hout] at hdispatch
    obtain ⟨hcalm, hobj, hhead, hpasses, hlevels, hbegins⟩ := hdispatch
    simp only [Outcome.resume]
    split
    · exact ⟨hcalm, fun hst => .inl (hbegins.unit hst).2.1⟩
    · rename_i hc
      obtain ⟨rest, hrest⟩ : ∃ rest, s'.str = s'.c :: rest := List.head?_eq_some_iff.mp hhead
      have htail : Passes s.str rest := (hrest ▸ hpasses).tail hc
      rw [hrest, List.tail_cons]
      cases rest with
      | nil =>
        cases chunk with
        | true => exact ⟨calm_peekErr hcalm, fun hst => .inl (hbegins.unit hst).2.1⟩
        | false =>
          obtain ⟨passed, hstr, hpassed⟩ := htail
          refine .inl ⟨rfl, fun hmem => ?_⟩
          rw [hstr, List.append_nil] at hmem
          exact hpassed 0 hmem rfl
      | cons c rest =>
        refine ⟨⟨hcalm.sound, rfl, hobj ▸ h.wellFormed, fun hadd => absurd hadd (not_or.mpr hcalm.notAdding),
          fun hnum hpb => absurd hpb (hcalm.started hnum)⟩, htail, ?_, fun hst => ?_, fun hst => ?_⟩
        · have hlen := length_le_of_passes hpasses
          have hrank := s'.tok.level.rank_le
          rw [hrest, List.length_cons] at hlen
          simp only [TokRun.measure, hlevels]
          omega
        · obtain ⟨passed, hstr, -⟩ := hpasses
          exact ⟨passed, by rw [hstr, hrest, hbegins.backslash hst]⟩
        · obtain ⟨hc', hpos, hbefore, hsame⟩ := hbegins.unit hst
          exact ⟨hpos, hbefore, by rw [← hsame, hrest, hc']⟩

end Pixel845.Json
