import Pixel845.Datatop.Gen
import Pixel845.Lemmas.DatatopLines
import Pixel845.Lemmas.DatatopStore

/-!
# Polling files with values only

A search registers a data point for each value that it finds on the first line of a file; a later poll cuts the first line again
and uses as many values as there are data points. That is sound exactly when the line has as many fields then
(`values_stored_iff`).
-/

namespace Pixel845.Datatop

/-- The first line of a file, as it is read. -/
def firstLine (content : List UInt8) (rest : Image) : List UInt8 :=
  (cutLine (readFile content valueSize rest) valueLine valueSize 0).getD []

/-- The fields of a line, each up to a terminator. -/
def fields (line : List UInt8) : List (List UInt8) := (line.splitOnP isValueSep).map fun f => f.takeWhile (· != 0)

/-- The sources of gatherers for such files; `gen` with the directory of the file. -/
inductive ValueSource where
  | gen (dir : List UInt8)
  | valueOnly

namespace ValueSource

/-- What is registered for a file. -/
def search : ValueSource → List UInt8 → List UInt8 → Image → Image → Vars → (Nat → DataPoint) → Option (Option Gatherer)
  | gen dir => fun name content rest line priv junk => some (dpgConstruction dir name content rest line priv junk)
  | valueOnly => valueOnlySearch

/-- The poll of what is registered. -/
def poll : ValueSource → List UInt8 → Image → Image → Gatherer → Option (Option Gatherer)
  | gen _ => genPoll
  | valueOnly => valueOnlyPoll

/-- What a poll does with a data point and its field. -/
def store : ValueSource → DataPoint → List UInt8 → DataPoint
  | gen _ => fun dp field => storeDp (if field.head? = some 45 then { dp with type := .long } else dp) field
  | valueOnly => storeDp

/-- The number of data points that is registered for a file. -/
def registers (s : ValueSource) (content : List UInt8) (rest line : Image) : Nat :=
  match s with
  | gen _ => getNumberOfValues content rest line
  | valueOnly => (fields (firstLine content rest)).length

/-- A poll uses no value but those of the line that it has just read: it stores the field of this line into the data point of the
same number, as far as there are fields, and leaves the other data points as they are. A file that is empty has no fields. -/
def UsesOwn (s : ValueSource) (dpg : Gatherer) (content : List UInt8) (rest line : Image) : Prop :=
  ∃ r, s.poll content rest line dpg = some r ∧ (r.getD dpg).dataPoints.length = dpg.dataPoints.length ∧
    ∀ (i : Nat) dp, dpg.dataPoints[i]? = some dp → (r.getD dpg).dataPoints[i]? =
      some ((if content = [] then none else (fields (firstLine content rest))[i]?).elim dp (s.store dp))

/-- What polls make of a gatherer, whatever the file contains at each of them. -/
inductive Polled (s : ValueSource) (dpg : Gatherer) : Gatherer → Prop
  | registered : Polled s dpg dpg
  | poll {dpg' : Gatherer} {r : Option Gatherer} (content : List UInt8) (rest line : Image) (h : Polled s dpg dpg')
    (hr : s.poll content rest line dpg' = some r) : Polled s dpg (r.getD dpg')

end ValueSource

namespace ValuesAux

variable {m : Image} {l : List UInt8} {o size : Nat} {ptrs : List Ptr} {dict : Dict} {vars : Vars} {points : List DataPoint}
  {st : Vars → DataPoint → Ptr → DataPoint}

/-! ### Fields -/

/-- What a line holds after its separators were overwritten. -/
def blanked (l : List UInt8) : List UInt8 := l.map fun c => if isValueSep c then 0 else c

/-- The first byte is blanked if it is a separator. -/
theorem blanked_cons (c : UInt8) (l : List UInt8) : blanked (c :: l) = (if isValueSep c then 0 else c) :: blanked l := rfl

/-- The offsets of the separators of a line that stands at an offset. -/
def sepsAt (o : Nat) : List UInt8 → List Nat
  | [] => []
  | c :: l => if isValueSep c then o :: sepsAt (o + 1) l else sepsAt (o + 1) l

/-- The positions of separators in memory are those in the line. -/
theorem positions_eq (h : m.Has o l) : positions isValueSep m l.length o = sepsAt o l := by
  induction l generalizing o with
  | nil => rfl
  | cons c l ih =>
    obtain ⟨hc, hl⟩ := Image.has_cons.mp h
    rw [List.length_cons, positions, sepsAt, hc, ih hl]

/-- A separator stands in its line. -/
theorem mem_sepsAt {i : Nat} (h : i ∈ sepsAt o l) : o ≤ i ∧ i < o + l.length := by
  induction l generalizing o with
  | nil => cases h
  | cons c l ih =>
    rw [List.length_cons]
    unfold sepsAt at h
    split at h
    · rcases List.mem_cons.mp h with rfl | h
      · omega
      · have hi := ih h
        omega
    · have hi := ih h
      omega

/-- There are no more separators than bytes. -/
theorem sepsAt_length_le (o : Nat) (l : List UInt8) : (sepsAt o l).length ≤ l.length := by
  induction l generalizing o with
  | nil => exact le_rfl
  | cons c l ih =>
    have hl := ih (o + 1)
    unfold sepsAt
    split
    · simpa using hl
    · rw [List.length_cons]
      omega

/-- Overwriting the separators of a line blanks them. -/
theorem terminate_has_blanked {ps : List Nat} (h : m.Has o (l ++ [0])) (hps : ∀ i, o ≤ i → (i ∈ ps ↔ i ∈ sepsAt o l)) :
    (terminate m ps).Has o (blanked l ++ [0]) := by
  induction l generalizing o with
  | nil =>
    obtain ⟨h0, -⟩ := Image.has_cons.mp h
    refine Image.has_cons.mpr ⟨?_, Image.has_nil _ _⟩
    unfold terminate
    rw [h0, ite_self]
  | cons c l ih =>
    obtain ⟨hc, hl⟩ := Image.has_cons.mp h
    rw [blanked_cons, List.cons_append, Image.has_cons]
    refine ⟨?_, ih hl fun i hi => (hps i (by omega)).trans ?_⟩
    · have ho := hps o le_rfl
      unfold terminate
      by_cases hsep : isValueSep c = true
      · have hmem : o ∈ ps := ho.mpr (by simp [sepsAt, hsep])
        rw [if_pos hmem, if_pos hsep]
      · have hmem : o ∉ ps := by
          intro hmem
          have hnext := ho.mp hmem
          rw [sepsAt, if_neg hsep] at hnext
          exact absurd (mem_sepsAt hnext).1 (by omega)
        rw [if_neg hmem, if_neg hsep, hc]
    · have hne : i ≠ o := by omega
      by_cases hsep : isValueSep c = true
      · simp [sepsAt, hsep, hne]
      · simp [sepsAt, hsep]

/-- A string is its first byte and the rest. -/
theorem cstr_step (ho : o < size) : m.cstr size o = if m o = 0 then [] else m o :: m.cstr size (o + 1) := by
  have hsub : size - o = size - (o + 1) + 1 := by omega
  unfold Image.cstr
  rw [hsub, read_succ, List.takeWhile_cons]
  by_cases h0 : m o = 0
  · simp [h0]
  · simp [h0]

/-- At the start of a line and behind its separators stand its fields, each with a terminator. The induction is on the line: a
byte that is no separator belongs to the first field of the rest. -/
theorem has_fields (h : m.Has o (blanked l ++ [0])) :
    List.Forall₂ (fun off f => off + f.length ≤ o + l.length ∧ m.Has off (f ++ [0])) (o :: (sepsAt o l).map (· + 1))
      (l.splitOnP isValueSep) := by
  induction l generalizing o with
  | nil => exact .cons ⟨Nat.le_refl _, h⟩ .nil
  | cons c l ih =>
    rw [blanked_cons, List.cons_append, Image.has_cons] at h
    obtain ⟨hc, hl⟩ := h
    have hrest := ih hl
    rw [show o + 1 + l.length = o + (c :: l).length by rw [List.length_cons]; omega] at hrest
    rw [sepsAt, List.splitOnP_cons_eq_if_modifyHead]
    by_cases hsep : isValueSep c = true
    · rw [if_pos hsep] at hc
      rw [if_pos hsep, if_pos hsep]
      exact .cons ⟨Nat.le_add_right _ _, Image.has_cons.mpr ⟨hc, Image.has_nil _ _⟩⟩ hrest
    · rw [if_neg hsep] at hc
      rw [if_neg hsep, if_neg hsep]
      obtain ⟨f, fs, hsplit⟩ := List.exists_cons_of_ne_nil (List.splitOnP_ne_nil isValueSep l)
      rw [hsplit, List.forall₂_cons] at hrest
      obtain ⟨⟨hle, hf⟩, hrest⟩ := hrest
      rw [hsplit, List.modifyHead_cons]
      refine .cons ⟨?_, Image.has_cons.mpr ⟨hc, hf⟩⟩ hrest
      rw [List.length_cons]
      omega

/-- The strings at the start of a line and behind its separators are the fields. -/
theorem cstr_fields (h : m.Has o (blanked l ++ [0])) (hsize : o + l.length < size) :
    (o :: (sepsAt o l).map (· + 1)).map (m.cstr size) = fields l := by
  have hcstr := (has_fields h).imp fun off f (hf : off + f.length ≤ o + l.length ∧ m.Has off (f ++ [0])) =>
    show m.cstr size off = f.takeWhile (· != 0) from hf.2.cstr_eq (by omega)
  rw [fields, ← List.forall₂_eq_eq_eq, List.forall₂_map_left_iff, List.forall₂_map_right_iff]
  exact hcstr

/-! ### The dictionary -/

/-- The pointers that a line gives. -/
def valuePtrs (l : List UInt8) : List Ptr := ⟨.line 0, 0⟩ :: behind (.line 0) (sepsAt 0 l)

/-- A dictionary and a line after the values of the line were cut. -/
structure Cut (l : List UInt8) (vars : Vars) (dict : Dict) : Prop where
  max : dict.max = some (valuePtrs l).length
  val : ∀ i, dict.val i = (valuePtrs l)[i]?
  text : (valuePtrs l).map vars.cstr = fields l
  inside : ∀ p ∈ valuePtrs l, p.off < vars.lineSize

theorem valuePtrs_length (l : List UInt8) (vars : Vars) (dict : Dict) (h : Cut l vars dict) :
    (valuePtrs l).length = (fields l).length := by
  rw [← h.text, List.length_map]

/-- The parser takes every line that is read. -/
theorem parseValues_cut (content : List UInt8) (rest line : Image) :
    ∃ vars dict, parseValues valueLine valueSize content rest line = some (vars, dict) ∧
      Cut (firstLine content rest) vars dict := by
  have hcut : cutLine (readFile content valueSize rest) valueLine valueSize 0 = some (firstLine content rest) := by
    unfold firstLine cutLine
    rw [if_neg (by decide), Option.getD_some]
  have hlen : (firstLine content rest).length < valueLine := by
    have h := (List.takeWhile_prefix (p := (· != 10))
      (l := ((readFile content valueSize rest).read 0 (valueSize - 0)).take (valueLine - 1))).length_le
    have hline : firstLine content rest =
        (((readFile content valueSize rest).read 0 (valueSize - 0)).take (valueLine - 1)).takeWhile (· != 10) := by
      unfold firstLine cutLine
      rw [if_neg (by decide), Option.getD_some]
    rw [hline]
    rw [List.length_take] at h
    have h2048 : valueLine = 2048 := rfl
    omega
  generalize firstLine content rest = l at hcut hlen
  have hline : (storeLine line (some l)).Has 0 (l ++ [0]) := Image.has_write _ _ _
  have hseps : positions isValueSep (storeLine line (some l)) (lineLen (some l)) 0 = sepsAt 0 l :=
    positions_eq (Image.has_append.mp hline).1
  have hcount := sepsAt_length_le 0 l
  have hdict : ¬dictSize ≤ (sepsAt 0 l).length := by
    have h2048 : valueLine = dictSize := rfl
    omega
  refine ⟨⟨valueLine, 1, fun _ => terminate (storeLine line (some l)) (sepsAt 0 l)⟩,
    { Dict.unset with max := some (valuePtrs l).length, val := setFrom Dict.unset.val 0 (valuePtrs l) }, ?_, rfl, ?_, ?_, ?_⟩
  · simp only [parseValues, readLine_run, hcut, singleLineParse, hseps, hdict, if_false, Option.bind_eq_bind, Option.bind_some]
    simp [valuePtrs, behind]
  · intro i
    simp [setFrom, Dict.unset]
  · have hblank : (terminate (storeLine line (some l)) (sepsAt 0 l)).Has 0 (blanked l ++ [0]) :=
      terminate_has_blanked hline fun _ _ => Iff.rfl
    have htext : (0 :: (sepsAt 0 l).map (· + 1)).map ((terminate (storeLine line (some l)) (sepsAt 0 l)).cstr valueLine) =
      fields l :=
      cstr_fields hblank (by omega)
    rw [← htext, valuePtrs, List.map_cons, List.map_cons, behind, List.map_map, List.map_map]
    rfl
  · intro p hp
    rcases List.mem_cons.mp hp with rfl | hp
    · change 0 < valueLine
      decide
    · obtain ⟨i, hi, rfl⟩ := List.mem_map.mp hp
      have hi := (mem_sepsAt hi).2
      change i + 1 < valueLine
      omega

/-! ### The loop over the data points -/

/-- With enough values, each data point gets the one of its number. -/
theorem storeValues_some (hval : ∀ i, dict.val i = ptrs[i]?) {i : Nat} (h : i + points.length ≤ ptrs.length) :
    ∃ points', storeValues st vars dict i points = some points' ∧ points'.length = points.length ∧
      ∀ (k : Nat) dp, points[k]? = some dp → ∃ p, ptrs[i + k]? = some p ∧ points'[k]? = some (st vars dp p) := by
  induction points generalizing i with
  | nil => exact ⟨[], rfl, rfl, by simp⟩
  | cons dp points ih =>
    rw [List.length_cons] at h
    obtain ⟨points', hrest, hlen, hpoints⟩ := ih (i := i + 1) (by omega)
    have hi : ptrs[i]? = some ptrs[i] := List.getElem?_eq_getElem (by omega)
    refine ⟨st vars dp ptrs[i] :: points', ?_, by simp [hlen], ?_⟩
    · simp [storeValues, hval, hi, hrest]
    · intro k dp' hk
      cases k with
      | zero =>
        rw [List.getElem?_cons_zero, Option.some_inj] at hk
        exact ⟨ptrs[i], hi, by rw [hk]; rfl⟩
      | succ k =>
        obtain ⟨p, hp, hdp⟩ := hpoints k dp' hk
        have hsum : i + (k + 1) = i + 1 + k := by omega
        exact ⟨p, hsum ▸ hp, hdp⟩

/-- With too few values, one is used that was never set. -/
theorem storeValues_none (hval : ∀ i, dict.val i = ptrs[i]?) {i : Nat} (hi : i ≤ ptrs.length)
    (h : ptrs.length < i + points.length) : storeValues st vars dict i points = none := by
  induction points generalizing i with
  | nil =>
    rw [List.length_nil] at h
    omega
  | cons dp points ih =>
    rw [List.length_cons] at h
    rcases Nat.lt_or_eq_of_le hi with hlt | rfl
    · have hrest := ih (i := i + 1) hlt (by omega)
      simp [storeValues, hval, List.getElem?_eq_getElem hlt, hrest]
    · simp [storeValues, hval]

/-! ### Polls and searches -/

/-- What a source does with a data point and a pointer to its value. -/
def stored (s : ValueSource) : Vars → DataPoint → Ptr → DataPoint :=
  match s with
  | .gen _ => genStore
  | .valueOnly => fun vars dp val => storeDp dp (vars.cstr val)

/-- Both sources poll alike. -/
theorem poll_eq (s : ValueSource) : s.poll = pollValues valueLine valueSize (stored s) := by
  cases s <;> rfl

/-- A value is used by its text. -/
theorem stored_eq (s : ValueSource) (dp : DataPoint) {p : Ptr} (h : p.off < vars.lineSize) :
    stored s vars dp p = s.store dp (vars.cstr p) := by
  cases s with
  | valueOnly => rfl
  | gen dir =>
    have hsign : vars.buf p.buf p.off = 45 ↔ (vars.cstr p).head? = some 45 := by
      unfold Vars.cstr
      rw [cstr_step h]
      by_cases h0 : vars.buf p.buf p.off = 0
      · rw [if_pos h0, h0]
        decide
      · rw [if_neg h0, List.head?_cons, Option.some_inj]
    unfold stored genStore ValueSource.store
    simp only [hsign]

/-- A poll that is defined has enough fields, and stores the one of its number into each data point. -/
theorem usesOwn_of_poll {s : ValueSource} {dpg : Gatherer} {content : List UInt8} {rest line : Image} {r : Option Gatherer}
    (h : s.poll content rest line dpg = some r) :
    (content = [] ∨ dpg.dataPoints.length ≤ (fields (firstLine content rest)).length) ∧
      ∀ (i : Nat) dp, dpg.dataPoints[i]? = some dp → (r.getD dpg).dataPoints[i]? =
        some ((if content = [] then none else (fields (firstLine content rest))[i]?).elim dp (s.store dp)) := by
  rw [poll_eq] at h
  unfold pollValues at h
  by_cases h0 : content = []
  · rw [if_pos h0] at h
    cases h
    refine ⟨.inl h0, ?_⟩
    intro i dp hdp
    rw [if_pos h0]
    exact hdp
  rw [if_neg h0] at h
  obtain ⟨vars, dict, hparse, hcut⟩ := parseValues_cut content rest line
  have hcount := valuePtrs_length _ vars dict hcut
  simp only [hparse, Option.bind_eq_bind, Option.bind_some] at h
  have hle : dpg.dataPoints.length ≤ (fields (firstLine content rest)).length := by
    by_contra hfew
    rw [storeValues_none hcut.val (Nat.zero_le _) (by omega)] at h
    cases h
  refine ⟨.inr hle, ?_⟩
  intro i dp hdp
  obtain ⟨points', hstore, hlen, hpoints⟩ : ∃ points', storeValues (stored s) vars dict 0 dpg.dataPoints = some points' ∧ _ :=
    storeValues_some hcut.val (by omega)
  rw [hstore] at h
  cases h
  obtain ⟨p, hp, hdp'⟩ := hpoints i dp hdp
  rw [Nat.zero_add] at hp
  have hfield : (fields (firstLine content rest))[i]? = some (vars.cstr p) := by
    rw [← hcut.text, List.getElem?_map, hp, Option.map_some]
  rw [if_neg h0, hfield]
  change points'[i]? = some (s.store dp (vars.cstr p))
  rw [hdp', stored_eq s dp (hcut.inside p (List.mem_of_getElem? hp))]

/-- With enough fields a poll is defined. -/
theorem poll_isSome (s : ValueSource) {dpg : Gatherer} {content : List UInt8} (rest line : Image)
    (h : content = [] ∨ dpg.dataPoints.length ≤ (fields (firstLine content rest)).length) :
    ∃ r, s.poll content rest line dpg = some r := by
  rw [poll_eq]
  unfold pollValues
  by_cases h0 : content = []
  · exact ⟨none, if_pos h0⟩
  rw [if_neg h0]
  obtain ⟨vars, dict, hparse, hcut⟩ := parseValues_cut content rest line
  have hcount := valuePtrs_length _ vars dict hcut
  have hle := h.resolve_left h0
  obtain ⟨points', hstore, -⟩ : ∃ points', storeValues (stored s) vars dict 0 dpg.dataPoints = some points' ∧ _ :=
    storeValues_some hcut.val (by omega)
  simp only [hparse, Option.bind_eq_bind, Option.bind_some, hstore]
  exact ⟨_, rfl⟩

theorem storeValues_length {points' : List DataPoint} {i : Nat} (h : storeValues st vars dict i points = some points') :
    points'.length = points.length := by
  induction points generalizing i points' with
  | nil =>
    cases h
    rfl
  | cons dp points ih =>
    simp only [storeValues, Option.bind_eq_bind, Option.bind_eq_some_iff, Option.pure_def, Option.some_inj] at h
    obtain ⟨val, -, rest, hrest, rfl⟩ := h
    rw [List.length_cons, List.length_cons, ih hrest]

theorem poll_length {s : ValueSource} {content : List UInt8} {rest line : Image} {dpg : Gatherer} {r : Option Gatherer}
    (h : s.poll content rest line dpg = some r) : (r.getD dpg).dataPoints.length = dpg.dataPoints.length := by
  rw [poll_eq] at h
  unfold pollValues at h
  split at h
  · cases h
    rfl
  · simp only [Option.bind_eq_bind, Option.bind_eq_some_iff, Option.pure_def, Option.some_inj] at h
    obtain ⟨_, -, points', hstore, rfl⟩ := h
    exact storeValues_length hstore

/-- A poll uses its own fields exactly when there are enough. -/
theorem usesOwn_iff (s : ValueSource) (dpg : Gatherer) (content : List UInt8) (rest line : Image) :
    s.UsesOwn dpg content rest line ↔ content = [] ∨ dpg.dataPoints.length ≤ (fields (firstLine content rest)).length := by
  constructor
  · rintro ⟨r, hr, -⟩
    exact (usesOwn_of_poll hr).1
  · intro h
    obtain ⟨r, hr⟩ := poll_isSome s rest line h
    exact ⟨r, hr, poll_length hr, (usesOwn_of_poll hr).2⟩

/-- Polls do not change the number of data points. -/
theorem polled_length {s : ValueSource} {dpg dpg' : Gatherer} (h : s.Polled dpg dpg') :
    dpg'.dataPoints.length = dpg.dataPoints.length := by
  induction h with
  | registered => rfl
  | poll content rest line _ hr ih => exact (poll_length hr).trans ih

theorem registered_length {s : ValueSource} {name content : List UInt8} {rest line : Image} {priv : Vars} {junk : Nat → DataPoint}
    {dpg : Gatherer} (h : s.search name content rest line priv junk = some (some dpg)) :
    dpg.dataPoints.length = s.registers content rest line := by
  cases s with
  | gen dir =>
    simp only [ValueSource.search, dpgConstruction, Option.some_inj] at h
    split at h
    · cases h
      simp [ValueSource.registers]
    · cases h
  | valueOnly =>
    obtain ⟨vars, dict, hparse, hcut⟩ := parseValues_cut content rest line
    change valueOnlySearch name content rest line priv junk = _ at h
    unfold valueOnlySearch at h
    by_cases h0 : content = []
    · rw [if_pos h0] at h
      cases h
    · rw [if_neg h0] at h
      simp only [hparse, hcut.max, Option.bind_eq_bind, Option.bind_some, Option.bind_eq_some_iff, Option.pure_def,
        Option.some_inj] at h
      obtain ⟨points, hpoints, rfl⟩ := h
      have hlen := (mapM_eq_some.mp hpoints).length_eq
      rw [List.length_range] at hlen
      exact hlen.symm.trans (valuePtrs_length _ _ _ hcut)

end ValuesAux

open ValuesAux

/-- For a gatherer that was registered for a file and polled any number of times: a poll uses the values of the line that it
reads, and no others, exactly when the file is empty or its first line has as many fields as data points were registered. -/
theorem values_stored_iff (s : ValueSource) (name content₀ : List UInt8) (rest₀ line₀ : Image) (priv : Vars)
    (junk : Nat → DataPoint) (dpg₀ dpg : Gatherer) (hreg : s.search name content₀ rest₀ line₀ priv junk = some (some dpg₀))
    (hpolled : s.Polled dpg₀ dpg)
    (content : List UInt8) (rest line : Image) :
    s.UsesOwn dpg content rest line ↔ content = [] ∨
      s.registers content₀ rest₀ line₀ ≤ (fields (firstLine content rest)).length := by
  rw [usesOwn_iff, polled_length hpolled, registered_length hreg]

/-- `1 2` and a newline -/
def twoValues : List UInt8 := [49, 32, 50, 10]

/-- Two data points are registered for it, and a poll of `3,4` uses its own two fields. -/
theorem values_stored_two :
    ∃ dpg, (ValueSource.gen [47]).search [97] twoValues .zero .zero (.cleared 2048 1) (fun _ => .blank) = some (some dpg) ∧
      (ValueSource.gen [47]).UsesOwn dpg [51, 44, 52, 10] .zero .zero := by
  have hreg : (dpgConstruction [47] [97] twoValues .zero .zero (.cleared 2048 1) fun _ => .blank).isSome = true := by
    decide +kernel
  obtain ⟨dpg, hdpg⟩ := Option.isSome_iff_exists.mp hreg
  have hcount : (ValueSource.gen [47]).registers twoValues .zero .zero = 2 := by decide +kernel
  have hfields : (fields (firstLine [51, 44, 52, 10] .zero)).length = 2 := by decide +kernel
  have hsearch : (ValueSource.gen [47]).search [97] twoValues .zero .zero (.cleared 2048 1) (fun _ => .blank) = some (some dpg) :=
    congrArg some hdpg
  exact ⟨dpg, hsearch, (values_stored_iff (.gen [47]) [97] twoValues .zero .zero (.cleared 2048 1) (fun _ => .blank)
    dpg dpg hsearch .registered [51, 44, 52, 10] .zero .zero).mpr (.inr (by rw [hcount, hfields]))⟩

/-- A poll of `3` uses a second value that was never set. -/
theorem not_values_stored :
    ¬∀ (s : ValueSource) (name content₀ : List UInt8) (rest₀ line₀ : Image) (priv : Vars) (junk : Nat → DataPoint)
      (dpg₀ dpg : Gatherer), s.search name content₀ rest₀ line₀ priv junk = some (some dpg₀) → s.Polled dpg₀ dpg →
        ∀ (content : List UInt8) (rest line : Image), s.UsesOwn dpg content rest line := by
  intro h
  have hreg : (dpgConstruction [47] [97] twoValues .zero .zero (.cleared 2048 1) fun _ => .blank).isSome = true := by
    decide +kernel
  obtain ⟨dpg, hdpg⟩ := Option.isSome_iff_exists.mp hreg
  have hcount : (ValueSource.gen [47]).registers twoValues .zero .zero = 2 := by decide +kernel
  have hfields : (fields (firstLine [51, 10] .zero)).length = 1 := by decide +kernel
  have hsearch : (ValueSource.gen [47]).search [97] twoValues .zero .zero (.cleared 2048 1) (fun _ => .blank) = some (some dpg) :=
    congrArg some hdpg
  have hown := h _ _ _ _ _ _ _ _ dpg hsearch .registered [51, 10] .zero .zero
  rw [usesOwn_iff, registered_length hsearch, hcount, hfields] at hown
  rcases hown with hnil | hle
  · cases hnil
  · omega

end Pixel845.Datatop
