import Pixel845.Lemmas.DatatopDual
import Pixel845.Lemmas.DatatopDev
import Mathlib.Data.List.DropRight

/-!
# Helpers: what a poll makes of its lines

The dictionary of a file with names and values on the same line, by the text of the lines: each makes an entry with a name, and a
value or none, or no entry at all (`Dict.TakesAll`), and a lookup needs a name in every entry up to the one it looks for, and a
value there (`Searchable`). The parser of /proc/meminfo ends on a line if a space follows its value (`meminfoParse_iff`); a line
of /proc/net/dev is cut behind its name and behind each of its counters (`devCells`).
-/

namespace Pixel845.Datatop

/-! ## Lookups -/

/-- The entries of a dictionary, by what the lines are: none was made, or one with a name, and with a value or without. -/
abbrev Entry := Option (List UInt8 × Bool)

/-- A name is compared with those of the entries up to the first that bears it, which must have a value. -/
def Searchable (s : List UInt8) : List Entry → Prop
  | [] => True
  | none :: _ => False
  | some (name, valued) :: entries => if name = s then valued = true else Searchable s entries

/-- An entry of a dictionary is as the line makes it. -/
def Dict.Holds (dict : Dict) (vars : Vars) (n : Nat) (e : Entry) : Prop :=
  (dict.key n).map vars.cstr = e.map Prod.fst ∧ ∀ x, e = some x → (dict.val n).isSome = x.2

/-- A lookup is defined, and has found an entry with a value if it has found one. -/
def Dict.Answers (dict : Dict) (vars : Vars) (s : List UInt8) : Prop :=
  ∃ r, findDictIdx vars s dict = some r ∧ ∀ i, r = some i → (dict.val i).isSome = true

/-- That is so exactly if the entries can be searched. -/
theorem answers_iff {vars : Vars} {dict : Dict} {entries : List Entry} (hmax : dict.max = some entries.length)
    (hentry : ∀ n e, entries[n]? = some e → dict.Holds vars n e) (s : List UInt8) :
    dict.Answers vars s ↔ Searchable s entries := by
  -- The induction is on the entries that are left.
  have hloop : ∀ es i, entries.drop i = es →
      ((∃ r, findDictIdxLoop vars s dict es.length i = some r ∧ ∀ j, r = some j → (dict.val j).isSome = true) ↔
      Searchable s es) := by
    intro es
    induction es with
    | nil => exact fun i _ => iff_of_true ⟨none, rfl, fun j hj => by cases hj⟩ trivial
    | cons e es ih =>
      intro i hdrop
      have hget : entries[i]? = some e := by rw [← List.head?_drop, hdrop, List.head?_cons]
      have htail : entries.drop (i + 1) = es := by rw [← List.tail_drop, hdrop, List.tail_cons]
      obtain ⟨hkey, hval⟩ := hentry i e hget
      rw [List.length_cons, findDictIdxLoop]
      cases e with
      | none =>
        have hnone : dict.key i = none := by simpa using hkey
        simp [hnone, Searchable]
      | some x =>
        obtain ⟨name, valued⟩ := x
        obtain ⟨p, hp, hname⟩ := Option.map_eq_some_iff.mp hkey
        have hname : vars.cstr p = name := hname
        have hi := (List.getElem?_eq_some_iff.mp hget).1
        simp only [hp, Option.bind_eq_bind, Option.bind_some, hname, Searchable]
        by_cases heq : name = s
        · have hvalued := hval _ rfl
          simp [heq, hvalued]
        · rw [if_neg heq, if_neg heq]
          exact ih (i + 1) htail
  rw [Dict.Answers, findDictIdx, hmax, Option.bind_eq_bind, Option.bind_some]
  exact hloop entries 0 List.drop_zero

/-- A lookup finds an index below the count. -/
theorem findDictIdx_lt {vars : Vars} {dict : Dict} {s : List UInt8} {i n : Nat} (hmax : dict.max = some n)
    (h : findDictIdx vars s dict = some (some i)) : i < n := by
  have hloop : ∀ k j, j + k = n → findDictIdxLoop vars s dict k j = some (some i) → i < n := by
    intro k
    induction k with
    | zero => exact fun j _ h => by cases h
    | succ k ih =>
      intro j hj h
      simp only [findDictIdxLoop, Option.bind_eq_bind, Option.bind_eq_some_iff] at h
      obtain ⟨key, -, h⟩ := h
      split at h
      · obtain rfl := Option.some.inj (Option.some.inj h)
        omega
      · exact ih (j + 1) (by omega) h
  rw [findDictIdx, hmax, Option.bind_eq_bind, Option.bind_some] at h
  exact hloop n 0 (Nat.zero_add n) h

/-! ## Entries -/

/-- The lines that a dictionary counts: those up to the last with content. -/
def counted (lines : List (List UInt8)) : List (List UInt8) := lines.rdropWhile List.isEmpty

/-- A line is counted if it has content or one behind it is counted. -/
theorem counted_cons (line : List UInt8) (lines : List (List UInt8)) :
    counted (line :: lines) = if counted lines = [] then (if line = [] then [] else [line]) else line :: counted lines := by
  simp only [counted, List.rdropWhile, List.reverse_cons, List.dropWhile_append, List.reverse_eq_nil_iff, List.isEmpty_iff]
  by_cases hnil : lines.reverse.dropWhile List.isEmpty = []
  · by_cases hline : line = []
    · simp [hnil, hline]
    · simp [hnil, hline]
  · simp [hnil]

/-- The entries that lines make, from a number on. -/
def entriesFrom (entry : Nat → List UInt8 → Entry) (i : Nat) (lines : List (List UInt8)) : List Entry :=
  (lines.zipIdx i).map fun (line, n) => entry n line

/-- What `dt_parse_proc_same_line_key_and_val` makes of a line: a name before the first space, and a value if anything but
spaces follows. -/
def sameEntry (n : Nat) (line : List UInt8) : Entry :=
  if n < dictSize ∧ 32 ∈ line then some (cText (line.takeWhile (· != 32)), (line.dropWhile (· != 32)).any (· != 32)) else none

/-- The entries of a dictionary from a number on: the names are pointers to the starts of the lines. -/
structure Dict.Filled (dict : Dict) (i : Nat) (entries : List Entry) : Prop where
  key : ∀ k e, entries[k]? = some e → dict.key (i + k) = e.map fun _ => ⟨.line (i + k), 0⟩
  val : ∀ k x, entries[k]? = some (some x) → (dict.val (i + k)).isSome = x.2

/-- Nothing is set from a number on. -/
def Dict.UnsetFrom (dict : Dict) (i : Nat) : Prop := ∀ k, i ≤ k → dict.key k = none ∧ dict.val k = none

/-- What a line does to a dictionary in which nothing is set from its number on. -/
structure Dict.Takes (dict dict' : Dict) (i : Nat) (line : List UInt8) (e : Entry) : Prop where
  max : dict'.max = if line = [] then dict.max else some (i + 1)
  before : ∀ k < i, dict'.key k = dict.key k ∧ dict'.val k = dict.val k
  key : dict'.key i = e.map fun _ => ⟨.line i, 0⟩
  val : ∀ x, e = some x → (dict'.val i).isSome = x.2
  behind : dict'.UnsetFrom (i + 1)

/-- Entries are set from a number on, as many as there are pointers. -/
theorem setFrom_outside (entries : Nat → Option Ptr) {j k : Nat} {ptrs : List Ptr} (h : j < k ∨ k + ptrs.length ≤ j) :
    setFrom entries k ptrs j = entries j := by
  rw [setFrom]
  split
  · rw [List.getElem?_eq_none (by omega), Option.none_or]
  · rfl

/-- A scan finds what it looks for exactly if it is there. -/
theorem scanFor_isSome {test : UInt8 → Bool} {m : Image} {n i : Nat} :
    (scanFor test m n i).isSome ↔ ∃ e, i ≤ e ∧ e < i + n ∧ test (m e) = true := by
  rw [scanFor, Option.isSome_iff_exists]
  constructor
  · rintro ⟨e, he⟩
    exact ⟨e, mem_positions_iff.mp (List.mem_of_mem_head? he)⟩
  · rintro ⟨e, he⟩
    obtain ⟨x, xs, hxs⟩ := List.exists_cons_of_ne_nil (List.ne_nil_of_mem (mem_positions_iff.mpr he))
    exact ⟨x, by rw [hxs, List.head?_cons]⟩

/-- A scan of a text finds what it looks for exactly if the text has it. -/
theorem scanFor_any (test : UInt8 → Bool) {m : Image} {i : Nat} {s : List UInt8} (hm : m.Has i s) :
    (scanFor test m s.length i).isSome = s.any test := by
  rw [Bool.eq_iff_iff, scanFor_isSome, List.any_eq_true]
  constructor
  · rintro ⟨e, hle, hlt, he⟩
    have hget := hm.getElem (i := e - i) (by omega)
    rw [show i + (e - i) = e by omega] at hget
    exact ⟨_, List.getElem_mem _, hget ▸ he⟩
  · rintro ⟨c, hc, htest⟩
    obtain ⟨k, hk, rfl⟩ := List.mem_iff_getElem.mp hc
    exact ⟨i + k, by omega, by omega, by rwa [hm.getElem hk]⟩

/-- Parsing a line takes its entry into the dictionary. -/
theorem parseSameLine_takes {b : Image} {i : Nat} {line : List UInt8} {dict : Dict} (hb : line ≠ [] → b.Has 0 (line ++ [0]))
    (hunset : dict.UnsetFrom i) :
    dict.Takes (parseProcSameLineKeyAndVal b (.line i) line.length i dict).2 i line (sameEntry i line) := by
  by_cases hnil : line = []
  · subst hnil
    have hself : (parseProcSameLineKeyAndVal b (.line i) ([] : List UInt8).length i dict).2 = dict := by
      rw [parseProcSameLineKeyAndVal, if_pos (by decide)]
    rw [hself]
    refine ⟨by rw [if_pos rfl], fun _ _ => ⟨rfl, rfl⟩, ?_, ?_, fun k hk => hunset k (by omega)⟩
    · rw [(hunset i (Nat.le_refl i)).1, sameEntry, if_neg (by simp)]
      rfl
    · intro x hx
      simp [sameEntry] at hx
  have hlen : ¬line.length < 1 := by
    have := List.length_pos_iff.mpr hnil
    omega
  have hhas := (Image.has_append.mp (hb hnil)).1
  rw [parseProcSameLineKeyAndVal, if_neg hlen]
  by_cases hpair : i < dictSize ∧ 32 ∈ line
  · have hentry : sameEntry i line = some (cText (line.takeWhile (· != 32)), (line.dropWhile (· != 32)).any (· != 32)) := by
      rw [sameEntry, if_pos hpair]
    have hhead := positions_head? hhas
    rw [if_pos hpair.2, Nat.zero_add] at hhead
    obtain ⟨ps, hps⟩ := List.head?_eq_some_iff.mp hhead
    rw [if_pos hpair.1, hps, hentry]
    refine ⟨by rw [if_neg hnil], fun k hk => ?_, ?_, ?_, ?_⟩
    · exact ⟨setFrom_single_of_lt _ _ hk, setFrom_outside _ (.inl hk)⟩
    · exact setFrom_single_self _ _ _
    · intro x hx
      obtain rfl := Option.some.inj hx
      obtain ⟨w, rest, rfl, hw⟩ := List.eq_append_cons_of_mem hpair.2
      have htake := takeWhile_ne rest hw
      have hdrop := dropWhile_ne rest hw
      have hrest : b.Has (w.length + 1) rest := by
        rw [Image.has_append, Image.has_cons, Nat.zero_add] at hhas
        exact hhas.2.2
      have hcount : (w ++ 32 :: rest).length - (w.length + 1) = rest.length := by
        rw [List.length_append, List.length_cons]
        omega
      have hscan := scanFor_any (· != 32) hrest
      simp only [htake, hdrop, hcount, List.any_cons, bne_self_eq_false, Bool.false_or]
      rw [← hscan, scanFor]
      cases (positions (· != 32) b rest.length (w.length + 1)).head? with
      | none => simp [setFrom_nil, (hunset i (Nat.le_refl i)).2]
      | some n => simp [setFrom_single_self]
    · intro k hk
      obtain ⟨hkey, hval⟩ := hunset k (by omega)
      refine ⟨(setFrom_outside _ (.inr (by simp; omega))).trans hkey, (setFrom_outside _ (.inr ?_)).trans hval⟩
      generalize (positions (· != 32) b (line.length - ((line.takeWhile (· != 32)).length + 1))
        ((line.takeWhile (· != 32)).length + 1)).head? = found
      cases found with
      | none =>
        simp
        omega
      | some n =>
        simp
        omega
  · have hentry : sameEntry i line = none := by rw [sameEntry, if_neg hpair]
    have hnone : (if i < dictSize then positions (· == 32) b line.length 0 else []) = [] := by
      split
      case isTrue hi =>
        have hhead := positions_head? hhas
        rw [if_neg fun h => hpair ⟨hi, h⟩] at hhead
        exact List.head?_eq_none_iff.mp hhead
      case isFalse => rfl
    rw [hnone, hentry]
    exact ⟨by rw [if_neg hnil], fun _ _ => ⟨rfl, rfl⟩, (hunset i (Nat.le_refl i)).1, fun x hx => (by cases hx),
      fun k hk => hunset k (by omega)⟩

/-! ## All lines -/

/-- The lines that are counted are the first ones. -/
theorem counted_front (lines : List (List UInt8)) : counted lines <+: lines := List.rdropWhile_prefix _ _

/-- The entry of the first line comes first. -/
theorem entriesFrom_cons (entry : Nat → List UInt8 → Entry) (i : Nat) (line : List UInt8) (lines : List (List UInt8)) :
    entriesFrom entry i (line :: lines) = entry i line :: entriesFrom entry (i + 1) lines := rfl

@[simp] theorem entriesFrom_length (entry : Nat → List UInt8 → Entry) (i : Nat) (lines : List (List UInt8)) :
    (entriesFrom entry i lines).length = lines.length := by
  rw [entriesFrom, List.length_map, List.length_zipIdx]

/-- The entry at a place is that of the line there. -/
theorem entriesFrom_getElem? (entry : Nat → List UInt8 → Entry) (i : Nat) (lines : List (List UInt8)) (k : Nat) :
    (entriesFrom entry i lines)[k]? = (lines[k]?).map (entry (i + k)) := by
  rw [entriesFrom, List.getElem?_map, List.getElem?_zipIdx, Option.map_map]
  rfl

/-- What lines do to a dictionary, one after the other. -/
inductive Dict.TakesAll (entry : Nat → List UInt8 → Entry) : Nat → List (List UInt8) → Dict → Dict → Prop
  | nil {i : Nat} {dict : Dict} : TakesAll entry i [] dict dict
  | cons {i : Nat} {line : List UInt8} {lines : List (List UInt8)} {dict dict' dict'' : Dict}
      (hline : dict.Takes dict' i line (entry i line)) (hlines : TakesAll entry (i + 1) lines dict' dict'') :
      TakesAll entry i (line :: lines) dict dict''

variable {entry : Nat → List UInt8 → Entry} {lines : List (List UInt8)}

/-- After all lines the dictionary counts those up to the last with content, and has an entry for each that makes one. -/
theorem Dict.TakesAll.filled {i : Nat} {dict dict' : Dict} (h : Dict.TakesAll entry i lines dict dict') :
    dict'.max = (if counted lines = [] then dict.max else some (i + (counted lines).length)) ∧
      (∀ k < i, dict'.key k = dict.key k ∧ dict'.val k = dict.val k) ∧ dict'.Filled i (entriesFrom entry i lines) := by
  induction h with
  | nil =>
    exact ⟨rfl, fun _ _ => ⟨rfl, rfl⟩, fun k e h => (by simp [entriesFrom] at h), fun k x h => (by simp [entriesFrom] at h)⟩
  | @cons i line lines dict dict1 dict2 hline _ ih =>
    obtain ⟨hmax, hbefore, hkey, hval⟩ := ih
    obtain ⟨hkeyi, hvali⟩ := hbefore i (Nat.lt_succ_self i)
    refine ⟨?_, ?_, ?_, ?_⟩
    · rw [hmax, hline.max, counted_cons]
      by_cases hnil : counted lines = []
      · rw [if_pos hnil, if_pos hnil]
        by_cases hempty : line = []
        · rw [if_pos hempty, if_pos hempty, if_pos rfl]
        · rw [if_neg hempty, if_neg hempty, if_neg (List.cons_ne_nil _ _)]
          rfl
      · rw [if_neg hnil, if_neg hnil, if_neg (List.cons_ne_nil _ _), List.length_cons]
        congr 1
        omega
    · intro k hk
      obtain ⟨hkeyk, hvalk⟩ := hbefore k (by omega)
      obtain ⟨hkeyk', hvalk'⟩ := hline.before k hk
      exact ⟨hkeyk.trans hkeyk', hvalk.trans hvalk'⟩
    · rw [entriesFrom_cons]
      exact forall_getElem?_cons (P := fun n (e : Entry) => dict2.key n = e.map fun _ => ⟨.line n, 0⟩)
        (hkeyi.trans hline.key) hkey
    · intro k x hk
      rw [entriesFrom_cons] at hk
      cases k with
      | zero =>
        rw [Nat.add_zero, hvali]
        exact hline.val x (Option.some.inj hk)
      | succ k =>
        rw [show i + (k + 1) = i + 1 + k by omega]
        exact hval k x (by simpa using hk)

/-- A lookup in the dictionary of lines is defined, and has found a value if it has found the name, exactly if one of the lines
has content and the entries of those that are counted can be searched. -/
theorem Dict.TakesAll.lookup {vars : Vars} {dict : Dict} (h : Dict.TakesAll entry 0 lines .unset dict)
    (hname : ∀ n x, (entriesFrom entry 0 lines)[n]? = some (some x) → vars.cstr ⟨.line n, 0⟩ = x.1) (s : List UInt8) :
    dict.Answers vars s ↔ counted lines ≠ [] ∧ Searchable s (entriesFrom entry 0 (counted lines)) := by
  obtain ⟨hmax, -, hkey, hval⟩ := h.filled
  by_cases hnil : counted lines = []
  · refine iff_of_false ?_ fun h => h.1 hnil
    rintro ⟨r, hr, -⟩
    rw [if_pos hnil] at hmax
    simp [findDictIdx, hmax, Dict.unset] at hr
  rw [and_iff_right hnil]
  rw [if_neg hnil, Nat.zero_add] at hmax
  have hsame : ∀ (n : Nat) (e : Entry), (entriesFrom entry 0 (counted lines))[n]? = some e →
      (entriesFrom entry 0 lines)[n]? = some e := by
    intro n e he
    rw [entriesFrom_getElem?, Option.map_eq_some_iff] at he ⊢
    obtain ⟨line, hline, he⟩ := he
    obtain ⟨tail, htail⟩ := counted_front lines
    refine ⟨line, ?_, he⟩
    rw [← htail, List.getElem?_append_left (List.getElem?_eq_some_iff.mp hline).1, hline]
  have hholds : ∀ n e, (entriesFrom entry 0 (counted lines))[n]? = some e → dict.Holds vars n e := by
    intro n e he
    have he := hsame n e he
    have hk := hkey n e he
    rw [Nat.zero_add] at hk
    refine ⟨?_, fun x hx => ?_⟩
    · rw [hk]
      cases e with
      | none => rfl
      | some x => exact congrArg some (hname n x he)
    · subst hx
      have hv := hval n x he
      rwa [Nat.zero_add] at hv
  exact answers_iff (by rw [entriesFrom_length]; exact hmax) hholds s

/-- It finds the number of a line that is counted. -/
theorem Dict.TakesAll.lookup_lt {vars : Vars} {dict : Dict} (h : Dict.TakesAll entry 0 lines .unset dict)
    {s : List UInt8} {i : Nat} (hfind : findDictIdx vars s dict = some (some i)) : i < lines.length := by
  obtain ⟨hmax, -⟩ := h.filled
  rw [Nat.zero_add] at hmax
  split at hmax
  · simp [findDictIdx, hmax, Dict.unset] at hfind
  · exact Nat.lt_of_lt_of_le (findDictIdx_lt hmax hfind) (counted_front lines).length_le

/-- The loop over lines with name and value. -/
theorem sameLineLoop_takes {i : Nat} {vars : Vars} {dict : Dict} (hb : vars.Holds i lines) (hunset : dict.UnsetFrom i) :
    Dict.TakesAll sameEntry i lines dict (sameLineLoop (lines.map List.length) i vars dict).2 := by
  induction lines generalizing i vars dict with
  | nil => exact .nil
  | cons line lines ih =>
    have htakes := parseSameLine_takes hb.head hunset
    exact .cons htakes (ih (hb.tail _) htakes.behind)

/-! ## A line of /proc/meminfo -/

/-- The text of a line from the value on: behind the blanks that follow the name. -/
def fromValue (line : List UInt8) : List UInt8 := (line.dropWhile (!isBlank ·)).dropWhile isBlank

section MemLine

variable {m : Image} {line : List UInt8}

/-- A line has no blank, or it is a name, a blank, a gap of blanks and what starts with the value. -/
theorem memLine_cases (line : List UInt8) :
    (∀ c ∈ line, isBlank c = false) ∨
      ∃ name b gap, line = name ++ b :: (gap ++ fromValue line) ∧ (∀ c ∈ name, isBlank c = false) ∧ isBlank b = true ∧
        (∀ c ∈ gap, isBlank c = true) ∧ ∀ c ∈ (fromValue line).head?, isBlank c = false := by
  have hsplit := List.takeWhile_append_dropWhile (p := (!isBlank ·)) (l := line)
  have hname : ∀ c ∈ line.takeWhile (!isBlank ·), isBlank c = false := by
    intro c hc
    simpa using List.mem_takeWhile_imp hc
  cases hrest : line.dropWhile (!isBlank ·) with
  | nil =>
    rw [hrest, List.append_nil] at hsplit
    exact .inl (hsplit ▸ hname)
  | cons b rest =>
    have hb : isBlank b = true := by
      have hhead := List.head?_dropWhile_not (!isBlank ·) line
      rw [hrest] at hhead
      simpa using hhead
    have hfrom : fromValue line = rest.dropWhile isBlank := by rw [fromValue, hrest, List.dropWhile_cons, if_pos hb]
    refine .inr ⟨_, b, rest.takeWhile isBlank, ?_, hname, hb, ?_, ?_⟩
    · rw [hfrom, List.takeWhile_append_dropWhile, ← hrest, hsplit]
    · intro c hc
      exact List.mem_takeWhile_imp hc
    · intro c hc
      have hhead := List.head?_dropWhile_not isBlank rest
      rw [hfrom, Option.mem_def] at hc
      rw [hc] at hhead
      exact hhead

/-- The blanks end at the value, or at the terminator if there is no value. -/
theorem scanFor_value {name gap : List UInt8} {b : UInt8} (hm : m.Has 0 (line ++ [0]))
    (hline : line = name ++ b :: (gap ++ fromValue line)) (hgap : ∀ c ∈ gap, isBlank c = true)
    (hvalue : ∀ c ∈ (fromValue line).head?, isBlank c = false) (rounds : Nat)
    (hrounds : gap.length < rounds) :
    scanFor (!isBlank ·) m rounds (name.length + 1) = some (name.length + 1 + gap.length) := by
  rw [hline, List.append_assoc, List.cons_append, List.append_assoc, Image.has_append, Image.has_cons, Nat.zero_add] at hm
  obtain ⟨-, -, hrest⟩ := hm
  have hgap' : ∀ c ∈ gap, (!isBlank c) = false := fun c hc => by simp [hgap c hc]
  cases hval : fromValue line with
  | nil =>
    rw [hval, List.nil_append] at hrest
    exact scanFor_has _ rounds hrest hgap' (by decide) hrounds
  | cons c rest =>
    rw [hval, List.cons_append] at hrest
    exact scanFor_has _ rounds hrest hgap' (by simp [hvalue c (by simp [hval])]) hrounds

/-- The first blank of the line, if the line is cut as above. -/
theorem scanFor_blank {name rest : List UInt8} {b : UInt8} (hm : m.Has 0 (line ++ [0])) (hline : line = name ++ b :: rest)
    (hname : ∀ c ∈ name, isBlank c = false) (hb : isBlank b = true) : scanFor isBlank m line.length 0 = some name.length := by
  have hhas := (Image.has_append.mp hm).1
  rw [hline] at hhas
  have hscan := scanFor_has isBlank line.length hhas hname hb (by simp [hline])
  rwa [Nat.zero_add] at hscan

/-- What is found by the last search, in bytes of the value or behind the line. -/
theorem space_in_value {name gap : List UInt8} {b : UInt8} (hm : m.Has 0 (line ++ [0]))
    (hline : line = name ++ b :: (gap ++ fromValue line)) {q : Nat} (hq : name.length + 1 + gap.length ≤ q)
    (hle : q ≤ line.length) (hspace : m q = 32) : 32 ∈ fromValue line := by
  have hlen : line.length = name.length + 1 + gap.length + (fromValue line).length := by
    conv_lhs => rw [hline]
    simp only [List.length_append, List.length_cons]
    omega
  rw [hline, List.append_assoc, List.cons_append, List.append_assoc, Image.has_append, Image.has_cons, Image.has_append,
    Nat.zero_add] at hm
  obtain ⟨-, -, -, hrest⟩ := hm
  have hget := hrest.getElem (i := q - (name.length + 1 + gap.length)) (by
    rw [List.length_append, List.length_singleton]
    omega)
  rw [show name.length + 1 + gap.length + (q - (name.length + 1 + gap.length)) = q by omega, hspace] at hget
  have hmem : (32 : UInt8) ∈ fromValue line ++ [0] := hget ▸ List.getElem_mem _
  rcases List.mem_append.mp hmem with h | h
  · exact h
  · exact absurd h (by decide)

/-- What `dt_meminfo_parse` makes of a line: a name before the first blank, and a value if there is one. -/
def memEntry (_ : Nat) (line : List UInt8) : Entry :=
  if line = [] then none else some (cText (line.takeWhile (!isBlank ·)), line.any isBlank)

/-- The last search of `dt_meminfo_parse` ends in the line buffer: at a space behind the value, or at one that was left
behind the line. -/
def SpaceFollows (size : Nat) (b : Image) (line : List UInt8) : Prop :=
  32 ∈ fromValue line ∨ ∃ k, line.length < k ∧ k < size ∧ b k = 32

/-- A space is found from the value on. -/
theorem scanFor_space {name gap : List UInt8} {b : UInt8} {size : Nat} (hm : m.Has 0 (line ++ [0]))
    (hline : line = name ++ b :: (gap ++ fromValue line)) (hsize : line.length < size) :
    (scanFor (· == 32) m (size - (name.length + 1 + gap.length)) (name.length + 1 + gap.length)).isSome ↔
      SpaceFollows size m line := by
  have hlen : line.length = name.length + 1 + gap.length + (fromValue line).length := by
    conv_lhs => rw [hline]
    simp only [List.length_append, List.length_cons]
    omega
  rw [scanFor_isSome, SpaceFollows]
  constructor
  · rintro ⟨e, hle, hlt, he⟩
    have he : m e = 32 := by simpa using he
    by_cases hin : e ≤ line.length
    · exact .inl (space_in_value hm hline hle hin he)
    · exact .inr ⟨e, by omega, by omega, he⟩
  · rintro (h | ⟨k, hlt, hk, hspace⟩)
    · obtain ⟨i, hi, hget⟩ := List.mem_iff_getElem.mp h
      have hhas := (Image.has_append.mp hm).1
      rw [hline, Image.has_append, Image.has_cons, Image.has_append, Nat.zero_add] at hhas
      have hbyte := hhas.2.2.2.getElem hi
      exact ⟨name.length + 1 + gap.length + i, by omega, by omega, by rw [hbyte, hget]; rfl⟩
    · exact ⟨k, by omega, by omega, by simp [hspace]⟩

variable {size i : Nat} {dict : Dict}

/-- A line without a blank is a name without a value. -/
theorem meminfoParse_plain (hm : m.Has 0 (line ++ [0])) (hne : line ≠ []) (hi : i < dictSize)
    (hplain : ∀ c ∈ line, isBlank c = false) :
    meminfoParse size m (.line i) line.length i dict =
      some (m, { max := some (i + 1), key := setFrom dict.key i [⟨.line i, 0⟩], val := dict.val }) := by
  have hlen := List.length_pos_iff.mpr hne
  have hscan := scanFor_any isBlank (Image.has_append.mp hm).1
  rw [List.any_eq_false.mpr (by simpa using hplain), Option.isSome_eq_false_iff, Option.isNone_iff_eq_none] at hscan
  rw [meminfoParse, if_neg (by omega), if_neg (by omega), hscan]
  rfl

/-- A line with a blank is a name with a value, if a space follows. -/
theorem meminfoParse_blank {name gap : List UInt8} {b : UInt8} (hm : m.Has 0 (line ++ [0])) (hi : i < dictSize)
    (hline : line = name ++ b :: (gap ++ fromValue line)) (hname : ∀ c ∈ name, isBlank c = false) (hb : isBlank b = true)
    (hgap : ∀ c ∈ gap, isBlank c = true) (hvalue : ∀ c ∈ (fromValue line).head?, isBlank c = false) (hsize : line.length < size) :
    meminfoParse size m (.line i) line.length i dict =
      (scanFor (· == 32) m (size - (name.length + 1 + gap.length)) (name.length + 1 + gap.length)).map fun n =>
        (terminate (terminate m [name.length]) [n],
          { max := some (i + 1)
            key := setFrom dict.key i [⟨.line i, 0⟩]
            val := setFrom dict.val i [⟨.line i, name.length + 1 + gap.length⟩] }) := by
  have hlength : line.length = name.length + 1 + gap.length + (fromValue line).length := by
    conv_lhs => rw [hline]
    simp only [List.length_append, List.length_cons]
    omega
  -- The terminator behind the name is in front of what is searched then.
  have hcut : ∀ test n j, name.length < j → scanFor test (terminate m [name.length]) n j = scanFor test m n j := by
    intro test n j hj
    rw [scanFor, scanFor, positions_congr fun k hk _ => ?_]
    rw [terminate, if_neg (by rw [List.mem_singleton]; omega)]
  have hval := scanFor_value hm hline hgap hvalue (size - (name.length + 1)) (by omega)
  rw [meminfoParse, if_neg (by omega), if_neg (by omega), scanFor_blank hm hline hname hb]
  simp only [hcut _ _ _ (Nat.lt_succ_self _), hval, Option.bind_eq_bind, Option.bind_some,
    hcut _ _ _ (show name.length < name.length + 1 + gap.length by omega), Option.pure_def]
  cases scanFor (· == 32) m (size - (name.length + 1 + gap.length)) (name.length + 1 + gap.length) <;> rfl

/-- A line is parsed to its end exactly if the dictionary has an entry for it and, if there is a blank, a space follows
the value. -/
theorem meminfoParse_iff (hb : line ≠ [] → m.Has 0 (line ++ [0])) (hsize : line ≠ [] → line.length < size) :
    (meminfoParse size m (.line i) line.length i dict).isSome ↔
      (line ≠ [] → i < dictSize ∧ (line.any isBlank = true → SpaceFollows size m line)) := by
  by_cases hne : line = []
  · subst hne
    exact iff_of_true rfl fun h => absurd rfl h
  have hm := hb hne
  by_cases hi : i < dictSize
  case neg =>
    refine iff_of_false ?_ fun h => hi (h hne).1
    rw [meminfoParse, if_neg (by have := List.length_pos_iff.mpr hne; omega), if_pos (by omega)]
    exact Bool.false_ne_true
  rcases memLine_cases line with hplain | ⟨name, b, gap, hline, hname, hblank, hgap, hvalue⟩
  · rw [meminfoParse_plain hm hne hi hplain]
    refine iff_of_true rfl fun _ => ⟨hi, fun hany => ?_⟩
    obtain ⟨c, hc, hcb⟩ := List.any_eq_true.mp hany
    rw [hplain c hc] at hcb
    cases hcb
  · have hany : line.any isBlank = true := List.any_eq_true.mpr ⟨b, by rw [hline]; simp, hblank⟩
    rw [meminfoParse_blank hm hi hline hname hblank hgap hvalue (hsize hne), Option.isSome_map,
      scanFor_space hm hline (hsize hne)]
    exact ⟨fun h _ => ⟨hi, fun _ => h⟩, fun h => (h hne).2 hany⟩

/-- What a line that is parsed to its end does to the dictionary. -/
theorem meminfoParse_takes {m' : Image} {dict' : Dict} (hb : line ≠ [] → m.Has 0 (line ++ [0]))
    (hsize : line ≠ [] → line.length < size) (hunset : dict.UnsetFrom i)
    (h : meminfoParse size m (.line i) line.length i dict = some (m', dict')) :
    dict.Takes dict' i line (memEntry i line) := by
  by_cases hne : line = []
  · subst hne
    obtain ⟨-, rfl⟩ := Prod.mk.inj (Option.some.inj h)
    exact ⟨by rw [if_pos rfl], fun _ _ => ⟨rfl, rfl⟩, (hunset i (Nat.le_refl i)).1, fun x hx => (by simp [memEntry] at hx),
      fun k hk => hunset k (by omega)⟩
  have hm := hb hne
  have hi : i < dictSize := ((meminfoParse_iff hb hsize).mp (by rw [h]; rfl) hne).1
  have hentry : memEntry i line = some (cText (line.takeWhile (!isBlank ·)), line.any isBlank) := by rw [memEntry, if_neg hne]
  have hkey : ∀ k, i + 1 ≤ k → setFrom dict.key i [⟨.line i, 0⟩] k = none := fun k hk =>
    (setFrom_outside _ (.inr (by simpa using hk))).trans (hunset k (by omega)).1
  rcases memLine_cases line with hplain | ⟨name, b, gap, hline, hname, hblank, hgap, hvalue⟩
  · have hany : line.any isBlank = false := List.any_eq_false.mpr (by simpa using hplain)
    rw [meminfoParse_plain hm hne hi hplain] at h
    obtain ⟨-, rfl⟩ := Prod.mk.inj (Option.some.inj h)
    rw [hentry, hany]
    refine ⟨by rw [if_neg hne], fun k hk => ⟨setFrom_outside _ (.inl hk), rfl⟩, setFrom_single_self _ _ _, fun x hx => ?_,
      fun k hk => ⟨hkey k hk, (hunset k (by omega)).2⟩⟩
    obtain rfl := Option.some.inj hx
    rw [(hunset i (Nat.le_refl i)).2]
    rfl
  · have hany : line.any isBlank = true := List.any_eq_true.mpr ⟨b, by rw [hline]; simp, hblank⟩
    rw [meminfoParse_blank hm hi hline hname hblank hgap hvalue (hsize hne), Option.map_eq_some_iff] at h
    obtain ⟨n, -, h⟩ := h
    obtain ⟨-, rfl⟩ := Prod.mk.inj h
    rw [hentry, hany]
    refine ⟨by rw [if_neg hne], fun k hk => ⟨setFrom_outside _ (.inl hk), setFrom_outside _ (.inl hk)⟩, setFrom_single_self _ _ _,
      fun x hx => ?_, fun k hk => ⟨hkey k hk, (setFrom_outside _ (.inr ?_)).trans (hunset k (by omega)).2⟩⟩
    · obtain rfl := Option.some.inj hx
      exact congrArg Option.isSome (setFrom_single_self _ _ _)
    · simpa using hk

/-- The loop over the lines of /proc/meminfo is defined exactly if each of them is parsed to its end. -/
theorem meminfoLoop_iff {lines : List (List UInt8)} {vars : Vars} (hb : vars.Holds i lines)
    (hsize : ∀ line ∈ lines, line ≠ [] → line.length < vars.lineSize) : (meminfoLoop (lines.map List.length) i vars dict).isSome ↔
      ∀ (k : Nat) line, lines[k]? = some line → line ≠ [] → i + k < dictSize ∧
      (line.any isBlank = true → SpaceFollows vars.lineSize (vars.buf (.line (i + k))) line) := by
  induction lines generalizing i vars dict with
  | nil => exact iff_of_true rfl (by simp)
  | cons line lines ih =>
    obtain ⟨hline, hlines⟩ := List.forall_mem_cons.mp hsize
    have hparse : (meminfoParse vars.lineSize (vars.buf (.line i)) (.line i) line.length i dict).isSome ↔ _ :=
      meminfoParse_iff hb.head hline
    rw [List.map_cons, meminfoLoop]
    cases hr : meminfoParse vars.lineSize (vars.buf (.line i)) (.line i) line.length i dict with
    | none =>
      rw [hr] at hparse
      refine iff_of_false (by simp) fun h => ?_
      have h0 := hparse.mpr (h 0 line rfl)
      cases h0
    | some r =>
      rw [hr] at hparse
      have hrest : (meminfoLoop (lines.map List.length) (i + 1) (vars.setBuf (.line i) r.1) r.2).isSome ↔ _ :=
        ih (hb.tail r.1) hlines
      simp only [Option.bind_eq_bind, Option.bind_some, hrest, Vars.setBuf_lineSize]
      have hbuf : ∀ k, (vars.setBuf (.line i) r.1).buf (.line (i + 1 + k)) = vars.buf (.line (i + (k + 1))) := by
        intro k
        rw [Vars.setBuf_buf, Function.update_of_ne (fun h => by have := BufId.line.inj h; omega),
          show i + 1 + k = i + (k + 1) by omega]
      have hshift : ∀ k, i + 1 + k = i + (k + 1) := fun k => by omega
      simp only [hbuf]
      simp only [hshift]
      constructor
      · intro h k l hl
        cases k with
        | zero =>
          obtain rfl := Option.some.inj hl
          exact hparse.mp rfl
        | succ k => exact h k l (by simpa using hl)
      · exact fun h k l hl => h (k + 1) l (by simpa using hl)

/-- The loop takes the entry of each line into the dictionary. -/
theorem meminfoLoop_takes {lines : List (List UInt8)} {vars vars' : Vars} {dict' : Dict} (hb : vars.Holds i lines)
    (hsize : ∀ line ∈ lines, line ≠ [] → line.length < vars.lineSize) (hunset : dict.UnsetFrom i)
    (h : meminfoLoop (lines.map List.length) i vars dict = some (vars', dict')) : Dict.TakesAll memEntry i lines dict dict' := by
  induction lines generalizing i vars dict with
  | nil =>
    obtain ⟨-, rfl⟩ := Prod.mk.inj (Option.some.inj h)
    exact .nil
  | cons line lines ih =>
    obtain ⟨hline, hlines⟩ := List.forall_mem_cons.mp hsize
    simp only [List.map_cons, meminfoLoop, Option.bind_eq_bind, Option.bind_eq_some_iff] at h
    obtain ⟨⟨b, dict1⟩, hparse, h⟩ := h
    have htakes := meminfoParse_takes hb.head hline hunset hparse
    exact .cons htakes (ih (hb.tail _) hlines htakes.behind h)

end MemLine

/-! ## A line of /proc/net/dev -/

/-- A text with a terminator for each byte that ends a word. -/
def endWords : Bool → List UInt8 → List UInt8
  | _, [] => []
  | inWord, c :: s => if endsCounter c then (if inWord then 0 else c) :: endWords false s else c :: endWords true s

/-- A line with terminators behind its name and its counters: the byte behind the first colon is overwritten, and each that ends a
counter behind it. A line without a colon is all counters. -/
def devCells (line : List UInt8) : List UInt8 :=
  if 58 ∈ line then
    line.takeWhile (· != 58) ++ 58 :: match (line.dropWhile (· != 58)).tail with
      | [] => []
      | _ :: s => 0 :: endWords false s
  else endWords false line

theorem endWords_length (inWord : Bool) (s : List UInt8) : (endWords inWord s).length = s.length := by
  induction s generalizing inWord with
  | nil => rfl
  | cons c s ih =>
    rw [endWords]
    split
    · simp [ih]
    · simp [ih]

/-- A text in which no word ends stays as it is. -/
theorem endWords_plain (inWord : Bool) {w : List UInt8} (hw : ∀ c ∈ w, endsCounter c = false) : endWords inWord w = w := by
  induction w generalizing inWord with
  | nil => rfl
  | cons c w ih =>
    obtain ⟨hc, hw⟩ := List.forall_mem_cons.mp hw
    rw [endWords, hc, if_neg (by simp), ih true hw]

/-- The byte that ends a word becomes a terminator, as the one that stands for an empty word is one. -/
theorem endWords_word {inWord : Bool} {w s : List UInt8} {e : UInt8} (hw : ∀ c ∈ w, endsCounter c = false)
    (he : endsCounter e = true) (h : inWord = true ∨ w ≠ [] ∨ e = 0) :
    endWords inWord (w ++ e :: s) = w ++ 0 :: endWords false s := by
  induction w generalizing inWord with
  | nil =>
    rw [List.nil_append, List.nil_append, endWords, if_pos he]
    rcases h with h | h | h
    · rw [if_pos h]
    · exact absurd rfl h
    · rw [h, ite_self]
  | cons c w ih =>
    obtain ⟨hc, hw⟩ := List.forall_mem_cons.mp hw
    rw [List.cons_append, endWords, hc, if_neg (by simp), ih hw (.inl rfl), List.cons_append]

/-- Terminators in front of a text do not change it. -/
theorem terminate_has_behind {m : Image} {ps qs : List Nat} {off : Nat} {s : List UInt8} (h : (terminate m ps).Has off s)
    (hqs : ∀ q ∈ qs, q < off) : (terminate m (qs ++ ps)).Has off s := by
  refine h.congr fun i hi _ => ?_
  have hni : i ∉ qs := by
    intro hmem
    have := hqs i hmem
    omega
  simp only [terminate, List.mem_append, hni, false_or]

/-- A word that is cut, and what the cuts leave of the cells behind it. -/
theorem cells_word {m : Image} {j len : Nat} {w tail : List UInt8} {ws : List (Nat × Nat)} (hw : m.Has j w)
    (hlt : j + w.length < len) (hle : ∀ w' ∈ ws, j + w.length ≤ w'.2)
    (hhas : (terminate m ((ws.map Prod.snd).filter (· < len))).Has (j + w.length + 1) tail) :
    (terminate m ((((j, j + w.length) :: ws).map Prod.snd).filter (· < len))).Has j (w ++ 0 :: tail) := by
  rw [List.map_cons, List.filter_cons, if_pos (by simpa using hlt)]
  have hin : ∀ i ∈ (j + w.length) :: (ws.map Prod.snd).filter (· < len), j + w.length ≤ i := by
    refine List.forall_mem_cons.mpr ⟨Nat.le_refl _, fun i hi => ?_⟩
    obtain ⟨w', hw', rfl⟩ := List.mem_map.mp (List.mem_filter.mp hi).1
    exact hle w' hw'
  have hword := terminate_has hw (fun i hi => .inr (hin i hi)) (.inl List.mem_cons_self)
  have htail := terminate_has_behind hhas (show ∀ q ∈ [j + w.length], q < j + w.length + 1 by simp)
  rw [List.append_cons, Image.has_append]
  refine ⟨hword, ?_⟩
  rw [List.length_append, List.length_singleton]
  exact htail

/-- The words of a text, once each was ended. -/
theorem devWords_cells {m : Image} {size len : Nat} (fuel : Nat) {j : Nat} {s : List UInt8} (hm : m.Has j (s ++ [0]))
    (hlen : j + s.length = len) (hsize : len < size) (hfuel : s.length ≤ fuel) :
    ∃ ws, devWords m size len fuel j = some ws ∧ (∀ w ∈ ws, j ≤ w.2) ∧
      (terminate m ((ws.map Prod.snd).filter (· < len))).Has j (endWords false s) := by
  induction fuel generalizing j s with
  | zero =>
    obtain rfl : s = [] := List.length_eq_zero_iff.mp (by omega)
    exact ⟨[], rfl, by simp, Image.has_nil _ _⟩
  | succ fuel ih =>
    cases s with
    | nil => exact ⟨[], devWords_behind m _ (by simpa using hlen.ge), by simp, Image.has_nil _ _⟩
    | cons c s =>
      rw [List.length_cons] at hlen hfuel
      obtain ⟨hc, hs⟩ := Image.has_cons.mp (List.cons_append ▸ hm)
      rw [devWords, if_pos (by omega), hc]
      by_cases hblank : isBlank c = true
      · -- A blank in front of a word stays.
        have hends : endsCounter c = true := by rw [endsCounter, hblank, Bool.or_true]
        obtain ⟨ws, hws, hle, hhas⟩ := ih hs (by omega) (by omega)
        rw [if_pos hblank, endWords, if_pos hends, if_neg (by simp)]
        refine ⟨ws, hws, fun w hw => by have := hle w hw; omega, Image.has_cons.mpr ⟨?_, hhas⟩⟩
        have hni : j ∉ (ws.map Prod.snd).filter (· < len) := by
          intro hmem
          obtain ⟨w, hw, rfl⟩ := List.mem_map.mp (List.mem_filter.mp hmem).1
          have := hle w hw
          omega
        rw [terminate, if_neg hni, hc]
      · rw [if_neg hblank]
        have hsplit := List.takeWhile_append_dropWhile (p := (!endsCounter ·)) (l := c :: s)
        have hplain : ∀ x ∈ (c :: s).takeWhile (!endsCounter ·), endsCounter x = false := by
          intro x hx
          simpa using List.mem_takeWhile_imp hx
        generalize (c :: s).takeWhile (!endsCounter ·) = w at hsplit hplain
        have hstop : ∀ e r, (c :: s).dropWhile (!endsCounter ·) = e :: r → endsCounter e = true := by
          intro e r h
          have := List.head?_dropWhile_not (!endsCounter ·) (c :: s)
          rw [h] at this
          simpa using this
        generalize (c :: s).dropWhile (!endsCounter ·) = behind at hsplit hstop
        have hlength := congrArg List.length hsplit
        rw [List.length_append, List.length_cons] at hlength
        cases behind with
        | nil =>
          -- The word goes to the end of the line, where a terminator stands.
          rw [List.append_nil] at hsplit
          rw [← hsplit] at hm ⊢
          rw [scanFor_has endsCounter _ hm hplain rfl (by simp at hlength; omega)]
          simp only [List.length_nil, Nat.add_zero] at hlength
          have hnext : devWords m size len fuel (j + w.length + 1) = some [] := devWords_behind m fuel (by omega)
          refine ⟨[(j, j + w.length)], by simp [hnext], by simp, ?_⟩
          have hnone : ([(j, j + w.length)].map Prod.snd).filter (· < len) = [] := by
            simp
            omega
          rw [hnone, terminate_nil, endWords_plain false hplain]
          exact (Image.has_append.mp hm).1
        | cons e r =>
          rw [List.length_cons] at hlength
          rw [← hsplit, List.append_assoc, List.cons_append] at hm
          have hend := hstop e r rfl
          rw [scanFor_has endsCounter _ hm hplain hend (by omega)]
          obtain ⟨hw, hrest⟩ := Image.has_append.mp hm
          obtain ⟨he, hrest⟩ := Image.has_cons.mp hrest
          obtain ⟨ws, hws, hle, hhas⟩ := ih hrest (by omega) (by omega)
          refine ⟨(j, j + w.length) :: ws, by simp [hws], ?_, ?_⟩
          · refine List.forall_mem_cons.mpr ⟨by simp, fun w' hw' => ?_⟩
            have := hle w' hw'
            omega
          -- A word without a byte is a terminator.
          have hempty : w ≠ [] ∨ e = 0 := by
            by_cases hnil : w = []
            · rw [hnil, List.nil_append] at hsplit
              obtain ⟨rfl, -⟩ := List.cons.inj hsplit
              rw [endsCounter, Bool.eq_false_of_not_eq_true hblank, Bool.or_false, beq_iff_eq] at hend
              exact .inr hend
            · exact .inl hnil
          rw [← hsplit, endWords_word hplain hend (.inr hempty)]
          exact cells_word hw (by omega) (fun w' hw' => Nat.le_of_succ_le (hle w' hw')) hhas

theorem devCells_length (line : List UInt8) : (devCells line).length = line.length := by
  rw [devCells]
  split
  case isFalse => exact endWords_length false line
  case isTrue h =>
    obtain ⟨a, rest, rfl, ha⟩ := List.eq_append_cons_of_mem h
    rw [takeWhile_ne rest ha, dropWhile_ne rest ha, List.tail_cons]
    cases rest with
    | nil => rfl
    | cons x s => simp [endWords_length]

/-- What `dt_dev_parse` leaves of a line. -/
theorem devCut_cells {size n : Nat} {lens : List Nat} {b : Image} {line : List UInt8} (hm : b.Has 0 (line ++ [0]))
    (hlen : lens.getD n 0 = line.length) (hsize : line.length < size) (hn : n < dictSize) :
    (devCut size lens n b).Has 0 (devCells line ++ [0]) := by
  obtain ⟨hline, hnul⟩ := Image.has_append.mp hm
  have hnul : b line.length = 0 := by
    have h := (Image.has_cons.mp hnul).1
    rwa [Nat.zero_add] at h
  have hend : ∀ ps, terminate b ps line.length = 0 := fun ps => by rw [terminate, hnul, ite_self]
  rw [devCut_eq (by rw [hlen]; exact hnul) (by omega), hlen, if_pos hn, devCutEnds]
  have hcolon := scanFor_byte 58 hline
  rw [Nat.zero_add] at hcolon
  rw [hcolon, Image.has_append, Image.has_cons, Nat.zero_add, devCells_length]
  refine ⟨?_, hend _, Image.has_nil _ _⟩
  rw [devCells]
  by_cases h : 58 ∈ line
  · rw [if_pos h, if_pos h]
    obtain ⟨a, rest, rfl, ha⟩ := List.eq_append_cons_of_mem h
    rw [takeWhile_ne rest ha, dropWhile_ne rest ha, List.tail_cons]
    simp only [Option.toList_some, List.map_cons, List.map_nil, Option.elim_some]
    rw [List.length_append, List.length_cons] at hsize ⊢
    cases rest with
    | nil =>
      have hnone : devWords (terminate b [a.length + 1]) size (a.length + ([] : List UInt8).length.succ)
          (a.length + ([] : List UInt8).length.succ) (a.length + 2) = some [] := devWords_behind _ _ (by simp)
      simp only [hnone, Option.getD_some, List.map_nil, List.filter_nil, List.append_nil]
      refine hline.congr fun i _ hi => ?_
      rw [List.length_append, List.length_singleton] at hi
      rw [terminate, if_neg (by rw [List.mem_singleton]; omega)]
    | cons x s =>
      rw [List.length_cons] at hsize ⊢
      rw [List.append_assoc, List.cons_append, List.cons_append, Image.has_append, Image.has_cons, Image.has_cons,
        Nat.zero_add] at hm
      obtain ⟨hname, hbyte, -, hs⟩ := hm
      have hs' : (terminate b [a.length + 1]).Has (a.length + 2) (s ++ [0]) := by
        refine hs.congr fun i hi _ => ?_
        rw [terminate, if_neg (by rw [List.mem_singleton]; omega)]
      obtain ⟨ws, hws, hle, hhas⟩ := devWords_cells (a.length + (s.length + 1 + 1)) hs'
        (show a.length + 2 + s.length = a.length + (s.length + 1 + 1) by omega) (show _ < size by omega) (by omega)
      rw [terminate_terminate] at hhas
      simp only [hws, Option.getD_some]
      have hin : ∀ i ∈ [a.length + 1] ++ (ws.map Prod.snd).filter (· < a.length + (s.length + 1 + 1)), a.length + 1 ≤ i := by
        intro i hi
        rcases List.mem_append.mp hi with hi | hi
        · rw [List.mem_singleton] at hi
          omega
        · obtain ⟨w, hw, rfl⟩ := List.mem_map.mp (List.mem_filter.mp hi).1
          have := hle w hw
          omega
      rw [Image.has_append, Image.has_cons, Image.has_cons, Nat.zero_add]
      refine ⟨?_, ?_, ?_, hhas⟩
      · refine hname.congr fun i _ hi => ?_
        rw [terminate, if_neg fun hmem => by have := hin i hmem; omega]
      · rw [terminate, if_neg fun hmem => by have := hin _ hmem; omega, hbyte]
      · rw [terminate, if_pos (by simp)]
  · rw [if_neg h, if_neg h]
    obtain ⟨ws, hws, -, hhas⟩ := devWords_cells line.length hm (Nat.zero_add _) hsize (Nat.le_refl _)
    simpa [terminate_nil, hws] using hhas

/-- What `dt_dev_parse` leaves of a dictionary: the name of the line, which stands in the line if that ends in its buffer. -/
theorem devParse_key {size len index : Nat} {b b' : Image} {id : BufId} {dict dict' : Dict}
    (h : devParse size b id len index dict = some (b', dict')) :
    index < dictSize ∧ ∃ i, dict'.key = setFrom dict.key index [⟨id, i⟩] ∧ (b len = 0 → len < size → i ≤ len) := by
  simp only [devParse, Option.bind_eq_bind, Option.bind_eq_some_iff] at h
  obtain ⟨i, hi, h⟩ := h
  split at h
  · cases h
  · simp only [Option.bind_eq_some_iff, Option.pure_def, Option.some.injEq] at h
    obtain ⟨words, -, heq⟩ := h
    obtain ⟨-, rfl⟩ := Prod.mk.inj heq
    refine ⟨by omega, i, rfl, ?_⟩
    intro hend hsize
    obtain ⟨-, k, hk, -, hle⟩ := scanFor_congr_until (!isBlank ·) (m := b) (n := size) (i := 0) (e := len) (fun _ _ _ => rfl)
      (by rw [hend]; rfl) (Nat.zero_le _) (by omega)
    obtain rfl := Option.some.inj (hi.symm.trans hk)
    exact hle

/-- The names after the loop over the lines: one for each, and those before are kept. -/
theorem devSearchLoop_key {lens : List Nat} {index : Nat} {vars vars' : Vars} {dict dict' : Dict}
    (h : devSearchLoop lens index vars dict = some (vars', dict')) :
    vars'.lineCount = vars.lineCount ∧ (lens ≠ [] → index + lens.length ≤ dictSize) ∧ (∀ k < index, dict'.key k = dict.key k) ∧
      ∀ (j len : Nat), lens[j]? = some len → ∃ i, dict'.key (index + j) = some ⟨.line (index + j + 2), i⟩ ∧
        ((vars.buf (.line (index + j + 2))) len = 0 → len < vars.lineSize → i ≤ len) := by
  induction lens generalizing index vars dict with
  | nil =>
    obtain ⟨rfl, rfl⟩ := Prod.mk.inj (Option.some.inj h)
    exact ⟨rfl, by simp, fun _ _ => rfl, by simp⟩
  | cons len lens ih =>
    simp only [devSearchLoop, Option.bind_eq_bind, Option.bind_eq_some_iff] at h
    obtain ⟨⟨b, dict1⟩, hparse, h⟩ := h
    obtain ⟨hindex, i, hkey, hi⟩ := devParse_key hparse
    obtain ⟨hcount, hlen, hbefore, hkeys⟩ := ih h
    refine ⟨hcount, ?_, ?_, ?_⟩
    · intro _
      rw [List.length_cons]
      by_cases hnil : lens = []
      · subst hnil
        simp only [List.length_nil]
        omega
      · have := hlen hnil
        omega
    · intro k hk
      rw [hbefore k (by omega), hkey, setFrom, if_neg (by omega)]
    · intro j l hl
      cases j with
      | zero =>
        obtain rfl := Option.some.inj hl
        refine ⟨i, ?_, hi⟩
        rw [Nat.add_zero, hbefore index (Nat.lt_succ_self index), hkey, setFrom, if_pos (Nat.le_refl index), Nat.sub_self]
        rfl
      | succ j =>
        obtain ⟨i', hkey', hi'⟩ := hkeys j l hl
        have hne : BufId.line (index + 1 + j + 2) ≠ .line (index + 2) := by
          intro heq
          have := BufId.line.inj heq
          omega
        rw [Vars.setBuf_buf, Function.update_of_ne hne, Vars.setBuf_lineSize] at hi'
        rw [show index + (j + 1) = index + 1 + j by omega]
        exact ⟨i', hkey', hi'⟩

end Pixel845.Datatop
