import Pixel845.Json.Spec
import Pixel845.Lemmas.JsonRead

/-!
# What every round of the tokener keeps

The invariant of the tokener: each level has a value that a text can have and that is not too deep for it, of the kind that its
state is about. The state that counts is the `phase`, the one that is gone back to behind white space, a comment or an escape. A
round keeps the invariant and makes a measure smaller: the bytes that are left count most, then what a state still does without a
byte.
-/

namespace Pixel845.Json

/-! ## Kinds of states -/

namespace TokenerState

/-- The states of an array. -/
def inArray : TokenerState → Bool
  | .array | .arrayAdd | .arraySep | .arrayAfterSep => true
  | _ => false

/-- The states of an object. -/
def inObject : TokenerState → Bool
  | .objectFieldStart | .objectField | .objectFieldEnd | .objectValue | .objectValueAdd | .objectSep
    | .objectFieldStartAfterSep => true
  | _ => false

/-- The states of an object between a key and its value. -/
def hasKey : TokenerState → Bool
  | .objectFieldEnd | .objectValue | .objectValueAdd => true
  | _ => false

/-- The states that are kept in `saved_state`. -/
def resumable : TokenerState → Bool
  | .start | .finish | .string | .array | .arraySep | .arrayAfterSep | .objectFieldStart | .objectField | .objectFieldEnd
  | .objectValue
  | .objectSep | .objectFieldStartAfterSep => true
  | _ => false

/-- The states of a level that has another one above it; `eatws` is that of a level that was reset. -/
def waiting : TokenerState → Bool
  | .arrayAdd | .objectValueAdd | .eatws => true
  | _ => false

/-- The states that go back to the saved one. -/
def passing : TokenerState → Bool
  | .eatws | .commentStart | .comment | .commentEol | .commentEnd | .stringEscape | .escapeUnicode => true
  | _ => false

/-- The states in which a tokener can be left: not those that have a value to add, and a number needs its first byte. -/
def resting : TokenerState → Bool
  | .arrayAdd | .objectValueAdd | .number => false
  | _ => true

/-- The states of an escape. -/
def escaping : TokenerState → Bool
  | .stringEscape | .escapeUnicode => true
  | _ => false

/-- A state is about the same value as another one before it, or about no value yet. -/
def follows (st' st : TokenerState) : Bool :=
  (!st'.inArray || st.inArray) && (!st'.inObject || st.inObject) && (!st'.hasKey || st.hasKey)

/-- What a state may still do without a byte. -/
def rank : TokenerState → Nat
  | .arrayAdd | .objectValueAdd => 2
  | .finish => 3
  | .inf | .null | .boolean => 5
  | .number => 6
  | .start => 7
  | .array | .arrayAfterSep | .objectValue => 9
  | _ => 0

/-- No state is ranked above nine. -/
theorem rank_le (st : TokenerState) : st.rank ≤ 9 := by cases st <;> decide

/-- A state follows another if it is in no more than that one. -/
theorem follows_iff {st st' : TokenerState} : st'.follows st = true ↔
    (st'.inArray = true → st.inArray = true) ∧ (st'.inObject = true → st.inObject = true) ∧
      (st'.hasKey = true → st.hasKey = true) := by
  cases h1 : st'.inArray <;> cases h2 : st'.inObject <;> cases h3 : st'.hasKey <;> simp [follows, h1, h2, h3, and_assoc]

theorem follows_refl (st : TokenerState) : st.follows st = true := by cases st <;> rfl

/-- A state that can be resumed is one of rest. -/
theorem resting_of_resumable {st : TokenerState} (h : st.resumable = true) : st.resting = true := by
  cases st <;> first | rfl | cases h

/-- A state that can be resumed is none of an escape. -/
theorem escaping_of_resumable {st : TokenerState} (h : st.resumable = true) : st.escaping = false := by
  cases st <;> first | rfl | cases h

/-- A state that can be resumed passes no spaces. -/
theorem passing_of_resumable {st : TokenerState} (h : st.resumable = true) : st.passing = false := by
  cases st <;> first | rfl | cases h

end TokenerState

variable {ρ : Type} {ops : DoubleOps ρ} {chunk : Bool} {t t' : Tokener ρ} {s s' : TokRun ρ} {l l' : Level ρ} {max k : Nat}

/-- The state that a level goes back to. -/
def Level.phase (l : Level ρ) : TokenerState := if l.state.passing then l.savedState else l.state

/-- What a level may still do without a byte. -/
def Level.rank (l : Level ρ) : Nat := if l.state = .eatws then l.savedState.rank + 1 else l.state.rank

/-- What a level may do without a byte when the one above it is done. -/
def Level.weight (l : Level ρ) : Nat := if l.state = .eatws then 8 else 0

/-- What the levels below the top one may do without a byte. -/
def levelsWeight (levels : List (Level ρ)) : Nat := (levels.map Level.weight).sum

/-- What makes every round smaller. -/
def TokRun.measure (s : TokRun ρ) : Nat := 11 * s.str.length + levelsWeight s.tok.levels + s.tok.level.rank

/-- No level is ranked above ten. -/
theorem Level.rank_le (l : Level ρ) : l.rank ≤ 10 := by
  have hsaved := l.savedState.rank_le
  have hstate := l.state.rank_le
  unfold Level.rank
  split <;> omega

/-! ## The invariant -/

/-- A level with as many levels below it: its value is one that a text can have, with room for it, and fits the state. -/
structure Level.Sound (ops : DoubleOps ρ) (max k : Nat) (l : Level ρ) : Prop where
  saved : l.savedState.resumable = true
  wellFormed : l.current.WellFormed ops
  depth : l.current.depth + k < max
  key : ∀ key, l.objFieldName = some key → ∀ c ∈ key, c ≠ 0
  inArray : l.phase.inArray = true → ∃ vals, l.current = .array vals
  inObject : l.phase.inObject = true → ∃ fields, l.current = .object fields
  hasKey : l.phase.hasKey = true → ∃ key, l.objFieldName = some key

/-- The levels below the top one, which wait for it. -/
def LevelsSound (ops : DoubleOps ρ) (max : Nat) : List (Level ρ) → Prop
  | [] => True
  | l :: levels => l.Sound ops max levels.length ∧ l.state.waiting = true ∧ LevelsSound ops max levels

/-- What is in the print buffer while a number is read. -/
structure NumberText (pb : List UInt8) (isDouble : Bool) : Prop where
  chars : ∀ c ∈ pb, isNumberChar c = true
  isDouble : isDouble = pb.any isDoubleChar
  head : ∀ c, pb.head? = some c → isDigit c = true ∨ c = 45

/-- The invariant of a tokener. -/
structure Tokener.Sound (ops : DoubleOps ρ) (max : Nat) (t : Tokener ρ) : Prop where
  maxDepth : t.maxDepth = max
  level : t.level.Sound ops max t.depth
  levels : LevelsSound ops max t.levels
  number : t.state = .number → NumberText t.pb t.isDouble

/-- What holds besides where a byte is needed: no value waits to be added, and a number has its first byte. -/
structure Tokener.Calm (ops : DoubleOps ρ) (max : Nat) (t : Tokener ρ) : Prop where
  sound : t.Sound ops max
  notAdding : t.state ≠ .arrayAdd ∧ t.state ≠ .objectValueAdd
  started : t.state = .number → t.pb ≠ []

/-- The invariant of a run: the byte at hand is the first one that is left, and a value that is to be added can be. -/
structure TokRun.Sound (ops : DoubleOps ρ) (max : Nat) (s : TokRun ρ) : Prop where
  tok : s.tok.Sound ops max
  head : s.str.head? = some s.c
  wellFormed : s.obj.WellFormed ops
  depth : s.tok.state = .arrayAdd ∨ s.tok.state = .objectValueAdd → s.obj.depth + 1 + s.tok.depth < max
  digit : s.tok.state = .number → s.tok.pb = [] → isDigit s.c = true ∨ s.c = 45

/-- Bytes are passed, none of which is a `NUL`. -/
def Passes (str left : List UInt8) : Prop := ∃ passed, str = passed ++ left ∧ ∀ c ∈ passed, c ≠ 0

/-- Where an escape begins: the byte at hand is the backslash, or the `u` behind one. -/
structure EscapeBegins (s s' : TokRun ρ) : Prop where
  backslash : s'.tok.state = .stringEscape → s'.c = 92
  unit : s'.tok.state = .escapeUnicode → s'.c = 117 ∧ s'.tok.stPos = 0 ∧ s.tok.state = .stringEscape ∧ s'.str = s.str

/-- What a state does to a run: it keeps the invariant, and only goes on with the same byte if there is less to do. -/
def Outcome.Sound (ops : DoubleOps ρ) (max : Nat) (chunk : Bool) (s : TokRun ρ) : Outcome ρ → Prop
  | .redo s' => s'.Sound ops max ∧ Passes s.str s'.str ∧ s'.measure < s.measure ∧ s'.tok.state.escaping = false
  | .next s' =>
    s'.tok.Calm ops max ∧ s'.obj = s.obj ∧ s'.str.head? = some s'.c ∧ Passes s.str s'.str ∧ s'.tok.levels = s.tok.levels ∧
      EscapeBegins s s'
  | .out s' => s'.tok.Calm ops max ∧ (s'.tok.state = .escapeUnicode → s.tok.state = .escapeUnicode)
  | .fault => (chunk = false ∧ 0 ∉ s.str) ∨ s.tok.state = .escapeUnicode

/-- Outside an escape none begins. -/
theorem escapeBegins_of_not (h : s'.tok.state.escaping = false) : EscapeBegins s s' where
  backslash := by
    intro hst
    rw [hst] at h
    cases h
  unit := by
    intro hst
    rw [hst] at h
    cases h

theorem Passes.refl (str : List UInt8) : Passes str str := ⟨[], rfl, (by simp)⟩

/-! ## Levels -/

/-- A level that was reset, where there is room for it. -/
theorem level_sound_fresh (ops : DoubleOps ρ) (h : k < max) : (Level.fresh : Level ρ).Sound ops max k where
  saved := rfl
  wellFormed := trivial
  depth := by simpa [Level.fresh, JsonObject.depth] using h
  key := by rintro _ ⟨⟩
  inArray := by rintro ⟨⟩
  inObject := by rintro ⟨⟩
  hasKey := by rintro ⟨⟩

/-- The state moves on, to one that may follow. -/
theorem Level.Sound.move (h : l.Sound ops max k) (hcurrent : l'.current = l.current) (hname : l'.objFieldName = l.objFieldName)
    (hsaved : l'.savedState.resumable = true) (hphase : l'.phase.follows l.phase = true) : l'.Sound ops max k where
  saved := hsaved
  wellFormed := hcurrent ▸ h.wellFormed
  depth := hcurrent ▸ h.depth
  key := hname ▸ h.key
  inArray := fun harray => hcurrent ▸ h.inArray ((TokenerState.follows_iff.mp hphase).1 harray)
  inObject := fun hobject => hcurrent ▸ h.inObject ((TokenerState.follows_iff.mp hphase).2.1 hobject)
  hasKey := fun hkey => hname ▸ h.hasKey ((TokenerState.follows_iff.mp hphase).2.2 hkey)

/-- While spaces are passed, the phase is the one that was saved. -/
theorem phase_of_passing (h : l.state.passing = true) : l.phase = l.savedState := if_pos h

/-- Otherwise the phase is the state. -/
theorem phase_of_not_passing (h : l.state.passing = false) : l.phase = l.state := by simp [Level.phase, h]

/-- A sound level is below the depth. -/
theorem Level.Sound.lt (h : l.Sound ops max k) : k < max := by
  have hdepth := h.depth
  omega

/-- Levels that were all reset. -/
theorem levelsSound_fresh (levels : List (Level ρ)) (h : levels.length ≤ max) :
    LevelsSound ops max (levels.map fun _ => .fresh) := by
  induction levels with
  | nil => trivial
  | cons l levels ih =>
    rw [List.length_cons] at h
    exact ⟨level_sound_fresh ops (by rw [List.length_map]; omega), rfl, ih (by omega)⟩

/-! ## Tokeners -/

/-- The tokener moves on, and has the value and the levels that it had. -/
structure Tokener.Moves (t t' : Tokener ρ) : Prop where
  maxDepth : t'.maxDepth = t.maxDepth
  levels : t'.levels = t.levels
  current : t'.level.current = t.level.current
  name : t'.level.objFieldName = t.level.objFieldName

/-- A tokener with another top level. -/
theorem Tokener.Sound.of_level (h : t.Sound ops max) (hmax : t'.maxDepth = t.maxDepth) (hlevels : t'.levels = t.levels)
    (hlevel : t'.level.Sound ops max t.depth) (hresting : t'.state.resting = true) : t'.Calm ops max where
  sound := by
    refine ⟨hmax.trans h.maxDepth, ?_, ?_, fun hst => ?_⟩
    · rw [Tokener.depth, hlevels]
      exact hlevel
    · rw [hlevels]
      exact h.levels
    · rw [hst] at hresting
      cases hresting
  notAdding := by constructor <;> (intro hst; rw [hst] at hresting; cases hresting)
  started := by
    intro hst
    rw [hst] at hresting
    cases hresting

/-- A move to a state of rest leaves a calm tokener. -/
theorem Tokener.Sound.move (h : t.Sound ops max) (hmoves : t.Moves t') (hsaved : t'.savedState.resumable = true)
    (hphase : t'.level.phase.follows t.level.phase = true) (hresting : t'.state.resting = true) : t'.Calm ops max :=
  h.of_level hmoves.maxDepth hmoves.levels (h.level.move hmoves.current hmoves.name hsaved hphase) hresting

/-- A sound tokener at rest is calm. -/
theorem Tokener.Sound.calm (h : t.Sound ops max) (hresting : t.state.resting = true) : t.Calm ops max :=
  h.of_level rfl rfl h.level hresting

/-- The level has its value. -/
theorem Tokener.Sound.finishWith (h : t.Sound ops max) {v : JsonObject ρ} (hv : v.WellFormed ops) (hdepth : v.depth = 0) :
    (t.finishWith v).Calm ops max := by
  refine h.of_level rfl rfl ?_ rfl
  exact { saved := rfl, wellFormed := hv, depth := hdepth ▸ (by have := h.level.lt; omega), key := h.level.key,
          inArray := (by rintro ⟨⟩), inObject := (by rintro ⟨⟩), hasKey := (by rintro ⟨⟩) }

/-! ## Outcomes -/

/-- Going on with the next character is sound. -/
theorem sound_next {f : Tokener ρ → Tokener ρ} (h : s.Sound ops max) (hcalm : (f s.tok).Calm ops max)
    (hlevels : (f s.tok).levels = s.tok.levels) (hescaping : (f s.tok).state.escaping = false) :
    (Outcome.next (s.map f)).Sound ops max chunk s :=
  ⟨hcalm, rfl, h.head, Passes.refl _, hlevels, escapeBegins_of_not hescaping⟩

/-- Redoing the character is sound. -/
theorem sound_redo (h : s.Sound ops max) (hcalm : s'.tok.Calm ops max) (hobj : s'.obj = s.obj) (hhead : s'.str.head? = some s'.c)
    (hpasses : Passes s.str s'.str) (hresting : s'.tok.state.resting = true) (hescaping : s'.tok.state.escaping = false)
    (hmeasure : s'.measure < s.measure) :
    (Outcome.redo s').Sound ops max chunk s := by
  refine ⟨⟨hcalm.sound, hhead, hobj ▸ h.wellFormed, fun hadd => ?_, fun hst => ?_⟩, hpasses, hmeasure, hescaping⟩
  · exact absurd hadd (not_or.mpr hcalm.notAdding)
  · rw [hst] at hresting
    cases hresting

/-- The same byte again, in a state with less to do. -/
theorem sound_redo_map {f : Tokener ρ → Tokener ρ} (h : s.Sound ops max) (hcalm : (f s.tok).Calm ops max)
    (hlevels : (f s.tok).levels = s.tok.levels) (hresting : (f s.tok).state.resting = true)
    (hescaping : (f s.tok).state.escaping = false)
    (hrank : (f s.tok).level.rank < s.tok.level.rank) : (Outcome.redo (s.map f)).Sound ops max chunk s := by
  refine sound_redo h hcalm rfl h.head (Passes.refl _) hresting hescaping ?_
  simp only [TokRun.measure, TokRun.map, hlevels]
  omega

/-- An error is sound. -/
theorem sound_fail (h : s.tok.Calm ops max) (err : TokenerError) : (s.fail err).Sound ops max chunk s :=
  ⟨⟨⟨h.sound.maxDepth, h.sound.level, h.sound.levels, h.sound.number⟩, h.notAdding, h.started⟩, id⟩

/-- An error at the end of the text leaves a calm tokener. -/
theorem calm_peekErr (h : t.Calm ops max) : t.peekErr.Calm ops max :=
  ⟨⟨h.sound.maxDepth, h.sound.level, h.sound.levels, h.sound.number⟩, h.notAdding, h.started⟩

/-- The end of the text is sound. -/
theorem sound_atEnd (h : s'.tok.Calm ops max) (hst : s'.tok.state = s.tok.state) (hnul : ∀ c ∈ s.str, c ≠ 0) :
    (s'.atEnd chunk).Sound ops max chunk s := by
  cases chunk with
  | true => exact ⟨calm_peekErr h, fun hescape => hst.symm.trans hescape⟩
  | false => exact .inl ⟨rfl, fun hmem => hnul 0 hmem rfl⟩

/-! ## Tight loops -/

/-- What a tight loop passes, and where it ends. -/
def LoopEnd.Fits (pass : UInt8 → Bool) (str passed : List UInt8) : LoopEnd → Prop
  | .found c left => str = passed ++ left ∧ (∀ y ∈ passed, pass y = true ∧ y ≠ 0) ∧ left.head? = some c ∧ pass c = false
  | .nul _ => pass 0 = true
  | .ended => str = passed ∧ ∀ y ∈ passed, pass y = true ∧ y ≠ 0

/-- A tight loop passes what it may. -/
theorem tightLoop_fits (pass : UInt8 → Bool) (str : List UInt8) :
    (tightLoop pass str).2.Fits pass str (tightLoop pass str).1 := by
  have hsplit := List.takeWhile_append_dropWhile (p := fun c => pass c && c != 0) (l := str)
  have hpassed : ∀ y ∈ str.takeWhile (fun c => pass c && c != 0), pass y = true ∧ y ≠ 0 := by
    intro y hy
    have hy' := List.mem_takeWhile_imp hy
    simpa using hy'
  have hhead : ∀ c left, str.dropWhile (fun c => pass c && c != 0) = c :: left → (pass c && c != 0) = false :=
      fun c left hdrop => by
    have hnot := List.head?_dropWhile_not (fun c => pass c && c != 0) str
    rw [hdrop] at hnot
    simpa using hnot
  rw [tightLoop]
  split
  · rename_i hdrop
    rw [hdrop, List.append_nil] at hsplit
    exact ⟨hsplit.symm, hpassed⟩
  · rename_i c left hdrop
    rw [hdrop] at hsplit
    have hc := hhead c left hdrop
    split
    · rename_i hpass
      obtain rfl : c = 0 := by simpa [hpass] using hc
      exact hpass
    · rename_i hpass
      exact ⟨hsplit.symm, hpassed, rfl, by simpa using hpass⟩

/-- What a tight loop passes has no `NUL`. -/
theorem passes_of_forall {pass : UInt8 → Bool} {str passed left : List UInt8} (hstr : str = passed ++ left)
    (h : ∀ y ∈ passed, pass y = true ∧ y ≠ 0) : Passes str left := ⟨passed, hstr, fun y hy => (h y hy).2⟩

/-- A loop that keeps what it passes, in a state that may be left. -/
theorem sound_gather (h : s.Sound ops max) (hresting : s.tok.state.resting = true) {pass : UInt8 → Bool}
    {found : TokRun ρ → Outcome ρ} (hfound : ∀ passed c left, Passes s.str left → left.head? = some c → pass c = false →
      (found { s.map (·.append passed) with c := c, str := left }).Sound ops max chunk s) :
    (gather chunk s pass found).Sound ops max chunk s := by
  have hcalm : ∀ passed, (s.tok.append passed).Calm ops max := fun passed =>
    h.tok.move ⟨rfl, rfl, rfl, rfl⟩ h.tok.level.saved (TokenerState.follows_refl _) hresting
  have hfits := tightLoop_fits pass s.str
  unfold gather
  split
  · rename_i passed c left heq
    rw [heq] at hfits
    obtain ⟨hstr, hpassed, hhead, hpass⟩ := hfits
    exact hfound passed c left (passes_of_forall hstr hpassed) hhead hpass
  · exact ⟨hcalm _, id⟩
  · rename_i passed heq
    rw [heq] at hfits
    obtain ⟨hstr, hpassed⟩ := hfits
    exact sound_atEnd (hcalm _) rfl fun c hc => (hpassed c (hstr ▸ hc)).2

end Pixel845.Json
