import Pixel845.Theorems.DatatopMeminfo
import Pixel845.Theorems.DatatopUnparsed

/-!
# Name and value on the same line

`dt_parse_proc_same_line_key_and_val` points one byte behind the first byte that is no space. If that is a tab, the value is what
stands behind it; if it is the number itself, its first byte is lost (`same_line_pair_iff`). In `/proc/net/snmp6` there is a tab
before each number.
-/

namespace Pixel845.Datatop

/-- A line with a name and a number: behind the name stands a space, and maybe more blanks. -/
structure PairLine where
  name : List UInt8
  blanks : List UInt8
  number : List UInt8
  name_ne : name ≠ []
  name_plain : ∀ c ∈ name, c ≠ 0 ∧ c ≠ 10 ∧ c ≠ 32
  blanks_blank : ∀ c ∈ blanks, isBlank c = true
  number_decimal : (decimalValue number).isSome = true

namespace PairLine

def text (l : PairLine) : List UInt8 := l.name ++ 32 :: (l.blanks ++ l.number)

/-- The number on the line. -/
def value (l : PairLine) : Int := (decimalValue l.number).getD 0

end PairLine

/-- The first byte of a number can be left out: a zero with digits behind it, or the sign of a zero. -/
def SpareFirst : List UInt8 → Prop
  | [] => False
  | 45 :: ds => ∀ d ∈ ds, d = 48
  | d :: ds => d = 48 ∧ ds ≠ []

/-- The number is not cut, or nothing is lost by it. -/
def PairLine.Spared (l : PairLine) : Prop := 9 ∈ l.blanks ∨ SpareFirst l.number

/-- The integer that `sscanf` finds in a string, whatever type it is for. -/
def scanned (s : List UInt8) : Option Int := (scanInt s).map fun x => if x.1 then -(x.2 : Int) else x.2

/-- What the parser should make of a line: the name, and a string with the number. -/
structure PairRead (l : PairLine) (id : BufId) (size n : Nat) (r : Image × Dict) : Prop where
  max : r.2.max = some (n + 1)
  key : ∃ off, r.2.key n = some ⟨id, off⟩ ∧ r.1.cstr size off = l.name
  val : ∃ off, r.2.val n = some ⟨id, off⟩ ∧ scanned (r.1.cstr size off) = some l.value

/-- `DTOP_SINGLE_LINE` -/
def singleLineSize : Nat := 2048

/-- The content of a file with these lines. -/
def pairContent (lines : List PairLine) : List UInt8 := (lines.map PairLine.text).flatMap (· ++ [10])

/-- The file fits the buffers. -/
structure PairFile (lines : List PairLine) : Prop where
  fits : ∀ l ∈ lines, l.text.length < singleLineSize
  content : (pairContent lines).length ≤ singleSize

/-- The type of a data point that is signed or not. -/
def signedType (signed : Bool) : DpType := if signed then .long else .ulong

/-- A gatherer as it is registered for `n` lines: a data point for each, named by the start of the line. -/
structure NamedByLines (dpg : Gatherer) (n : Nat) (signed : Nat → Bool) : Prop where
  size : dpg.priv.lineSize = singleLineSize
  count : dpg.priv.lineCount = n
  length : dpg.dataPoints.length = n
  point : ∀ (i : Nat) dp, dpg.dataPoints[i]? = some dp → dp.name = .ptr ⟨.line i, 0⟩ ∧ dp.type = signedType (signed i)

/-- The line is the first with its name. -/
def FirstNamed (lines : List PairLine) (i : Nat) (l : PairLine) : Prop :=
  lines[i]? = some l ∧ (lines.map PairLine.name).idxOf l.name = i

/-- A poll stores for each name the number that follows it, whatever was there before. -/
def StoresNumbers (lines : List PairLine) (signed : Nat → Bool) : Prop :=
  ∀ (dpg : Gatherer) (rest : Image), NamedByLines dpg lines.length signed → ∀ i l, FirstNamed lines i l →
    ∃ dpg' dp, singleLinePoll (pairContent lines) rest dpg = some (some dpg') ∧ dpg'.dataPoints[i]? = some dp ∧
      dpg'.priv.text dp.name = l.name ∧ intOf dp.type dp.data = l.value

namespace PairAux

variable {l : PairLine} {lines : List PairLine} {b : Image} {id : BufId} {size i n : Nat} {dict : Dict} {vars : Vars}
  {signed : Nat → Bool}

/-! ### Numbers -/

/-- A number is digits, or a sign and digits. -/
theorem number_cases (l : PairLine) : ∃ (neg : Bool) (ds : List UInt8), l.number = (if neg then [45] else []) ++ ds ∧ ds ≠ [] ∧
      (∀ c ∈ ds, isDigit c = true) ∧ l.value = if neg then -(digitsVal ds : Int) else digitsVal ds := by
  have hdec := l.number_decimal
  have hnum : ∀ ds, isNumeral ds = true → ds ≠ [] ∧ ∀ c ∈ ds, isDigit c = true := by
    intro ds h
    simpa only [isNumeral, Bool.and_eq_true, decide_eq_true_eq, List.all_eq_true] using h
  obtain ⟨v, hv⟩ := Option.isSome_iff_exists.mp hdec
  have hvalue : l.value = v := by rw [PairLine.value, hv]; rfl
  unfold decimalValue at hv
  split at hv
  case h_1 ds hds =>
    obtain ⟨hds', hv⟩ := Option.ite_none_right_eq_some.mp hv
    refine ⟨true, ds, hds, (hnum ds hds').1, (hnum ds hds').2, ?_⟩
    rw [hvalue, ← Option.some.inj hv]
    rfl
  case h_2 ds _ =>
    obtain ⟨hds', hv⟩ := Option.ite_none_right_eq_some.mp hv
    refine ⟨false, l.number, rfl, (hnum _ hds').1, (hnum _ hds').2, ?_⟩
    rw [hvalue, ← Option.some.inj hv]
    rfl

/-- A digit is no other byte. -/
theorem digit_ne {c d : UInt8} (hc : isDigit c = true) (hd : isDigit d = false) : c ≠ d := by
  rintro rfl
  rw [hc] at hd
  cases hd

/-- A number starts with no blank, and no byte of it is a terminator. -/
theorem number_plain {c : UInt8} (h : c ∈ l.number) : c = 45 ∨ isDigit c = true := by
  obtain ⟨neg, ds, heq, -, hds, -⟩ := number_cases l
  rw [heq] at h
  rcases List.mem_append.mp h with h | h
  · cases neg with
    | true => exact .inl (List.mem_singleton.mp h)
    | false => cases h
  · exact .inr (hds c h)

/-- Digits with or without a sign are scanned as their number. -/
theorem scanned_digits (neg : Bool) {ds : List UInt8} (hne : ds ≠ []) (hds : ∀ c ∈ ds, isDigit c = true) :
    scanned ((if neg then [45] else []) ++ ds) = some (if neg then -(digitsVal ds : Int) else digitsVal ds) := by
  rw [scanned, scanInt_digits neg hne hds]
  rfl

/-- The number of a line is scanned as its value. -/
theorem scanned_number (l : PairLine) : scanned l.number = some l.value := by
  obtain ⟨neg, ds, heq, hne, hds, hvalue⟩ := number_cases l
  rw [heq, scanned_digits neg hne hds, hvalue]

/-- Blanks before a number are skipped. -/
theorem scanned_blanks {s : List UInt8} (t : List UInt8) (hs : ∀ c ∈ s, isBlank c = true) : scanned (s ++ t) = scanned t := by
  have hdrop : (s ++ t).dropWhile isSpace = t.dropWhile isSpace := by
    refine List.dropWhile_append_of_pos fun c hc => ?_
    have hblank := hs c hc
    rw [isBlank, Bool.or_eq_true, beq_iff_eq, beq_iff_eq] at hblank
    rcases hblank with rfl | rfl <;> decide
  rw [scanned, scanned, scanInt, scanInt, hdrop]

/-- A number without its first byte is the same number exactly if that could be left out. -/
theorem scanned_tail_iff (l : PairLine) : scanned l.number.tail = some l.value ↔ SpareFirst l.number := by
  obtain ⟨neg, ds, heq, hne, hds, hvalue⟩ := number_cases l
  rw [heq, hvalue]
  cases neg with
  | true =>
    have hscan := scanned_digits false hne hds
    rw [if_neg Bool.false_ne_true, if_neg Bool.false_ne_true, List.nil_append] at hscan
    rw [if_pos rfl, if_pos rfl, List.singleton_append, List.tail_cons, hscan, SpareFirst, ← digitsVal_eq_zero_iff hds,
      Option.some.injEq]
    omega
  | false =>
    obtain ⟨d, ds, rfl⟩ := List.exists_cons_of_ne_nil hne
    obtain ⟨hd, hds⟩ := List.forall_mem_cons.mp hds
    have h45 : d ≠ 45 := digit_ne hd (by decide)
    have hspare : SpareFirst (d :: ds) ↔ d = 48 ∧ ds ≠ [] := by
      unfold SpareFirst
      split
      · contradiction
      · exact absurd (List.cons.inj ‹_›).1 h45
      · obtain ⟨rfl, rfl⟩ := List.cons.inj ‹_›
        exact Iff.rfl
    rw [if_neg Bool.false_ne_true, if_neg Bool.false_ne_true, List.nil_append, List.tail_cons, hspare]
    by_cases hnil : ds = []
    · subst hnil
      have hnone : scanned [] = none := rfl
      rw [hnone]
      exact iff_of_false (fun h => nomatch h) fun h => h.2 rfl
    · have hscan := scanned_digits false hnil hds
      rw [if_neg Bool.false_ne_true, if_neg Bool.false_ne_true, List.nil_append] at hscan
      rw [hscan, Option.some.injEq, Int.natCast_inj, ← digitsVal_cons_eq_iff hd ds, eq_comm]
      exact (and_iff_left hnil).symm

/-! ### One line -/

/-- What stands behind the first space of the line, from the first byte on that is no space. -/
def behindSpaces (l : PairLine) : List UInt8 := (l.blanks ++ l.number).dropWhile (· == 32)

/-- Where the pointer to the value is set. -/
def valueAt (l : PairLine) : Nat := l.name.length + 1 + ((l.blanks ++ l.number).takeWhile (· == 32)).length + 1

/-- The number is what stands there, or the blanks behind a tab do. -/
theorem behindSpaces_cases (l : PairLine) :
    (9 ∉ l.blanks ∧ behindSpaces l = l.number) ∨
      ∃ blanks, 9 ∈ l.blanks ∧ behindSpaces l = 9 :: (blanks ++ l.number) ∧ ∀ c ∈ blanks, isBlank c = true := by
  have hnumber : l.number.dropWhile (· == 32) = l.number := by
    obtain ⟨neg, ds, heq, hne, hds, -⟩ := number_cases l
    rw [heq]
    cases neg with
    | true => rfl
    | false =>
      obtain ⟨d, ds, rfl⟩ := List.exists_cons_of_ne_nil hne
      have h32 : d ≠ 32 := digit_ne (hds d List.mem_cons_self) (by decide)
      simp [h32]
  have hind : ∀ blanks : List UInt8, (∀ c ∈ blanks, isBlank c = true) →
      (9 ∉ blanks ∧ (blanks ++ l.number).dropWhile (· == 32) = l.number) ∨
        ∃ rest, 9 ∈ blanks ∧ (blanks ++ l.number).dropWhile (· == 32) = 9 :: (rest ++ l.number) ∧
        ∀ c ∈ rest, isBlank c = true := by
    intro blanks
    induction blanks with
    | nil => exact fun _ => .inl ⟨List.not_mem_nil, hnumber⟩
    | cons c blanks ih =>
      intro h
      obtain ⟨hc, hblanks⟩ := List.forall_mem_cons.mp h
      rw [isBlank, Bool.or_eq_true, beq_iff_eq, beq_iff_eq] at hc
      rcases hc with rfl | rfl
      · have hne : (9 : UInt8) ≠ 32 := by decide
        simpa [hne] using ih hblanks
      · exact .inr ⟨blanks, List.mem_cons_self, rfl, hblanks⟩
  exact hind l.blanks l.blanks_blank

/-- Behind the name stands no newline. -/
theorem behindSpaces_plain {c : UInt8} (h : c ∈ l.blanks ++ l.number) : c ≠ 0 ∧ c ≠ 10 := by
  rcases List.mem_append.mp h with h | h
  · have hblank := l.blanks_blank c h
    rw [isBlank, Bool.or_eq_true, beq_iff_eq, beq_iff_eq] at hblank
    rcases hblank with rfl | rfl <;> decide
  · rcases number_plain h with rfl | hd
    · decide
    · exact ⟨digit_ne hd (by decide), digit_ne hd (by decide)⟩

/-- The number that is read is the one on the line exactly if it is spared. -/
theorem scanned_value_iff (l : PairLine) : scanned (behindSpaces l).tail = some l.value ↔ l.Spared := by
  rcases behindSpaces_cases l with ⟨htab, heq⟩ | ⟨blanks, htab, heq, hblanks⟩
  · rw [heq, scanned_tail_iff, PairLine.Spared, or_iff_right htab]
  · rw [heq, List.tail_cons, scanned_blanks _ hblanks, scanned_number]
    exact iff_of_true rfl (.inl htab)

/-- The first byte that is no space, and what is behind it. -/
theorem behindSpaces_cons (l : PairLine) : ∃ c, c ≠ 32 ∧ behindSpaces l = c :: (behindSpaces l).tail := by
  rcases behindSpaces_cases l with ⟨-, heq⟩ | ⟨blanks, -, heq, -⟩
  · obtain ⟨neg, ds, hnum, hne, hds, -⟩ := number_cases l
    rw [heq, hnum]
    cases neg with
    | true => exact ⟨45, by decide, rfl⟩
    | false =>
      obtain ⟨d, ds, rfl⟩ := List.exists_cons_of_ne_nil hne
      exact ⟨d, digit_ne (hds d List.mem_cons_self) (by decide), rfl⟩
  · rw [heq]
    exact ⟨9, by decide, rfl⟩

/-- The line, with the byte in front of the value. -/
theorem text_split (l : PairLine) : ∃ c, c ≠ 32 ∧
    l.text = l.name ++ 32 :: ((l.blanks ++ l.number).takeWhile (· == 32) ++ c :: (behindSpaces l).tail) := by
  obtain ⟨c, hc, heq⟩ := behindSpaces_cons l
  refine ⟨c, hc, ?_⟩
  rw [← heq, behindSpaces, List.takeWhile_append_dropWhile, PairLine.text]

/-- What the parser makes of a line. -/
theorem parse_pair (hb : b.Has 0 (l.text ++ [0])) (hn : n < dictSize) (id : BufId) (dict : Dict) :
    parseProcSameLineKeyAndVal b id l.text.length n dict = (terminate b [l.name.length],
      ⟨some (n + 1), setFrom dict.key n [⟨id, 0⟩], setFrom dict.val n [⟨id, valueAt l⟩]⟩) := by
  obtain ⟨c, hc, htext⟩ := text_split l
  obtain ⟨hline, -⟩ := Image.has_append.mp hb
  have hlen : l.text.length =
      l.name.length + 1 + (((l.blanks ++ l.number).takeWhile (· == 32)).length + 1 + (behindSpaces l).tail.length) := by
    rw [htext]
    simp only [List.length_append, List.length_cons]
    omega
  have hline' := hline
  rw [htext] at hline'
  have hspace :=
    scanFor_has (· == 32) l.text.length hline' (fun x hx => beq_eq_false_iff_ne.mpr (l.name_plain x hx).2.2) rfl (by omega)
  rw [Nat.zero_add] at hspace
  have hbehind : b.Has (l.name.length + 1) ((l.blanks ++ l.number).takeWhile (· == 32) ++ c :: (behindSpaces l).tail) := by
    obtain ⟨-, hrest⟩ := Image.has_append.mp hline'
    rw [Nat.zero_add] at hrest
    exact (Image.has_cons.mp hrest).2
  have hspaces : ∀ x ∈ (l.blanks ++ l.number).takeWhile (· == 32), (x != 32) = false := by
    intro x hx
    simpa using List.mem_takeWhile_imp hx
  have hvalue := scanFor_has (· != 32) (l.text.length - (l.name.length + 1)) hbehind hspaces (bne_iff_ne.mpr hc) (by omega)
  obtain ⟨ps, hps⟩ := List.head?_eq_some_iff.mp hspace
  rw [scanFor] at hvalue
  rw [parseProcSameLineKeyAndVal, if_neg (by omega), if_pos hn, hps]
  simp only [hvalue, Option.toList_some, List.map_cons, List.map_nil]
  rfl

/-- The strings that the dictionary then has. -/
theorem parse_cstr (hb : b.Has 0 (l.text ++ [0])) (hsize : l.text.length < size) :
    (terminate b [l.name.length]).cstr size 0 = l.name ∧ (terminate b [l.name.length]).cstr size (valueAt l) =
      (behindSpaces l).tail := by
  obtain ⟨c, -, htext⟩ := text_split l
  have hlen : l.text.length = valueAt l + (behindSpaces l).tail.length := by
    rw [htext, valueAt]
    simp only [List.length_append, List.length_cons]
    omega
  have hpos : l.name.length < valueAt l := by
    unfold valueAt
    omega
  rw [htext] at hb
  constructor
  · have hname := (Image.has_append.mp (Image.has_append.mp hb).1).1
    have hcut : (terminate b [l.name.length]).Has 0 (l.name ++ [0]) := by
      refine terminate_has hname (fun j hj => ?_) (.inl (by simp))
      rw [List.mem_singleton.mp hj]
      omega
    exact hcut.cstr_plain (fun c hc => (l.name_plain c hc).1) (by omega)
  · have hvalue : b.Has (valueAt l) ((behindSpaces l).tail ++ [0]) := by
      have hsplit : (l.name ++ 32 :: ((l.blanks ++ l.number).takeWhile (· == 32) ++ c :: (behindSpaces l).tail)) ++ [0] =
          (l.name ++ 32 :: ((l.blanks ++ l.number).takeWhile (· == 32) ++ [c])) ++ ((behindSpaces l).tail ++ [0]) := by simp
      rw [hsplit] at hb
      have hrest := (Image.has_append.mp hb).2
      have hoff : 0 + (l.name ++ 32 :: ((l.blanks ++ l.number).takeWhile (· == 32) ++ [c])).length = valueAt l := by
        rw [valueAt]
        simp only [List.length_append, List.length_cons, List.length_nil]
        omega
      rwa [hoff] at hrest
    have hcut : (terminate b [l.name.length]).Has (valueAt l) ((behindSpaces l).tail ++ [0]) := by
      refine hvalue.congr fun j hj _ => ?_
      have hne : j ≠ l.name.length := by omega
      simp [terminate, hne]
    refine hcut.cstr_plain (fun c hc => ?_) (by omega)
    exact (behindSpaces_plain ((List.dropWhile_sublist _).subset (List.mem_of_mem_tail hc))).1

/-- A line is read as it should be exactly if its number is spared. -/
theorem pairRead_iff (hb : b.Has 0 (l.text ++ [0])) (hsize : l.text.length < size) (hn : n < dictSize) (id : BufId)
    (dict : Dict) : PairRead l id size n (parseProcSameLineKeyAndVal b id l.text.length n dict) ↔ l.Spared := by
  obtain ⟨hname, hvalue⟩ := parse_cstr hb hsize
  rw [parse_pair hb hn, ← scanned_value_iff]
  constructor
  · rintro ⟨-, -, off, hval, hscan⟩
    simp only [setFrom_single_self] at hval
    obtain rfl : valueAt l = off := congrArg Ptr.off (Option.some.inj hval)
    rwa [hvalue] at hscan
  · intro h
    refine ⟨rfl, ⟨0, setFrom_single_self _ _ _, hname⟩, valueAt l, setFrom_single_self _ _ _, ?_⟩
    rwa [hvalue]

/-! ### The lines of a file -/

/-- The entries of a line, and their texts in its buffer. -/
structure PairAt (vars : Vars) (dict : Dict) (n : Nat) (l : PairLine) : Prop where
  key : dict.key n = some ⟨.line n, 0⟩
  val : dict.val n = some ⟨.line n, valueAt l⟩
  name : vars.cstr ⟨.line n, 0⟩ = l.name
  value : vars.cstr ⟨.line n, valueAt l⟩ = (behindSpaces l).tail

theorem text_length (l : PairLine) : 3 ≤ l.text.length := by
  have hname := List.length_pos_iff.mpr l.name_ne
  obtain ⟨c, -, htext⟩ := text_split l
  rw [htext]
  simp only [List.length_append, List.length_cons]
  omega

theorem text_ne (l : PairLine) : l.text ≠ [] := List.length_pos_iff.mp (by have := text_length l; omega)

/-- The loop over the lines. -/
theorem loop_pairs (hfits : ∀ l ∈ lines, l.text.length < vars.lineSize) (hn : i + lines.length ≤ dictSize)
    (hb : vars.Holds i (lines.map PairLine.text)) (dict : Dict) :
    ∃ vars' dict', sameLineLoop ((lines.map PairLine.text).map List.length) i vars dict = (vars', dict') ∧
      (lines ≠ [] → dict'.max = some (i + lines.length)) ∧ vars'.lineSize = vars.lineSize ∧ vars'.lineCount = vars.lineCount ∧
      (∀ j < i, dict'.key j = dict.key j ∧ dict'.val j = dict.val j ∧ vars'.buf (.line j) = vars.buf (.line j)) ∧
      ∀ (k : Nat) l, lines[k]? = some l → PairAt vars' dict' (i + k) l := by
  induction lines generalizing i vars dict with
  | nil => exact ⟨vars, dict, rfl, fun h => absurd rfl h, rfl, rfl, fun j _ => ⟨rfl, rfl, rfl⟩, by simp⟩
  | cons l lines ih =>
    obtain ⟨hfit, hfits⟩ := List.forall_mem_cons.mp hfits
    rw [List.length_cons] at hn
    have hhead := hb.head (text_ne l)
    have hparse := parse_pair (n := i) hhead (by omega) (.line i) dict
    obtain ⟨hname, hvalue⟩ := parse_cstr hhead hfit
    have hfits' : ∀ l' ∈ lines, l'.text.length <
      (vars.setBuf (.line i) (terminate (vars.buf (.line i)) [l.name.length])).lineSize := hfits
    obtain ⟨vars', dict', hloop, hmax, hsize, hcount, hold, hpairs⟩ := ih (i := i + 1) hfits' (by omega) (hb.tail _)
      ⟨some (i + 1), setFrom dict.key i [⟨.line i, 0⟩], setFrom dict.val i [⟨.line i, valueAt l⟩]⟩
    obtain ⟨hkeyi, hvali, hbufi⟩ := hold i (by omega)
    rw [Vars.setBuf_buf, Function.update_self] at hbufi
    refine ⟨vars', dict', ?_, ?_, hsize, hcount, ?_, ?_⟩
    · simp only [List.map_cons, sameLineLoop, hparse]
      exact hloop
    · intro _
      cases lines with
      | nil =>
        cases hloop
        rfl
      | cons l' lines =>
        rw [hmax (by simp)]
        simp only [List.length_cons]
        congr 1
        omega
    · intro j hj
      obtain ⟨hkeyj, hvalj, hbufj⟩ := hold j (by omega)
      have hne : BufId.line j ≠ .line i := by
        intro h
        have := BufId.line.inj h
        omega
      rw [Vars.setBuf_buf, Function.update_of_ne hne] at hbufj
      exact ⟨hkeyj.trans (setFrom_single_of_lt _ _ hj), hvalj.trans (setFrom_single_of_lt _ _ hj), hbufj⟩
    · refine forall_getElem?_cons (P := PairAt vars' dict') ?_ hpairs
      refine ⟨hkeyi.trans (setFrom_single_self _ _ _), hvali.trans (setFrom_single_self _ _ _), ?_, ?_⟩
      · rw [Vars.cstr, hbufi, hsize]
        exact hname
      · rw [Vars.cstr, hbufi, hsize]
        exact hvalue

/-! ### Reading the file -/

theorem plain_texts (lines : List PairLine) : ∀ t ∈ lines.map PairLine.text, 10 ∉ t := by
  intro t ht hmem
  obtain ⟨l, -, rfl⟩ := List.mem_map.mp ht
  rcases List.mem_append.mp hmem with hmem | hmem
  · exact (l.name_plain _ hmem).2.1 rfl
  · rcases List.mem_cons.mp hmem with h | hmem
    · exact absurd h (by decide)
    · exact (behindSpaces_plain hmem).2 rfl

/-- A file that fits has no more lines than a dictionary has entries. -/
theorem lines_le (h : PairFile lines) : lines.length ≤ dictSize := by
  have hlong : ∀ t ∈ lines.map PairLine.text, 3 ≤ t.length := by
    intro t ht
    obtain ⟨l, -, rfl⟩ := List.mem_map.mp ht
    exact text_length l
  have hle : 4 * (lines.map PairLine.text).length ≤ (pairContent lines).length := length_ended_le hlong
  rw [List.length_map] at hle
  have hcontent := h.content
  have hsize : singleSize = 8192 := rfl
  have hdict : dictSize = 2048 := rfl
  omega

theorem content_ne (hne : lines ≠ []) : pairContent lines ≠ [] := ended_ne_nil (by simpa using hne)

/-- What search and poll read and parse. -/
theorem read_pairs (h : PairFile lines) (hne : lines ≠ []) (rest : Image) (hsize : vars.lineSize = singleLineSize)
    (hcount : vars.lineCount = lines.length) :
    ∃ lens vars' dict', (readLines .line singleSize vars).run (readFile (pairContent lines) singleSize rest).load =
        (vars.store .line 0 ((lines.map PairLine.text).map some), lens) ∧ lens.length = lines.length ∧
      sameLineLoop lens 0 (vars.store .line 0 ((lines.map PairLine.text).map some)) .unset = (vars', dict') ∧
      dict'.max = some lines.length ∧ vars'.lineSize = vars.lineSize ∧ vars'.lineCount = vars.lineCount ∧
      ∀ (k : Nat) l, lines[k]? = some l → PairAt vars' dict' k l := by
  have hfits : ∀ l ∈ lines, l.text.length < vars.lineSize := by
    intro l hl
    rw [hsize]
    exact h.fits l hl
  have htexts : ∀ t ∈ lines.map PairLine.text, t.length < vars.lineSize := by
    intro t ht
    obtain ⟨l, hl, rfl⟩ := List.mem_map.mp ht
    exact hfits l hl
  obtain ⟨hread, hholds⟩ := readLines_ended (plain_texts lines) htexts h.content (by rw [hcount, List.length_map]) rest
  have hstored : ∀ l ∈ lines, l.text.length < (vars.store .line 0 ((lines.map PairLine.text).map some)).lineSize := by
    rw [Vars.store_lineSize]
    exact hfits
  obtain ⟨vars', dict', hloop, hmax, hsize', hcount', -, hpairs⟩ :=
    loop_pairs (i := 0) hstored (by have := lines_le h; omega) hholds .unset
  rw [Vars.store_lineSize] at hsize'
  rw [Vars.store_lineCount] at hcount'
  have hmax' := hmax hne
  simp only [Nat.zero_add] at hmax' hpairs
  exact ⟨_, vars', dict', hread, by simp, hloop, hmax', hsize', hcount', hpairs⟩

/-! ### The poll -/

/-- The string of the first line with the name of line `j`. -/
def firstValue (lines : List PairLine) (j : Nat) : Ptr :=
  let q := (lines.map PairLine.name).idxOf (((lines[j]?).map PairLine.name).getD [])
  ⟨.line q, ((lines[q]?).map valueAt).getD 0⟩

/-- The value of the first line with a name. -/
theorem firstValue_eq {i : Nat} {l : PairLine} (h : FirstNamed lines i l) : firstValue lines i = ⟨.line i, valueAt l⟩ := by
  obtain ⟨hi, hfirst⟩ := h
  simp [firstValue, hi, hfirst]

/-- Each data point is given the value of the first line with its name. -/
theorem call_first (hmax : dict.max = some lines.length) (hpairs : ∀ (k : Nat) l, lines[k]? = some l → PairAt vars dict k l)
    {dp : DataPoint} {j : Nat} (hj : j < lines.length) (hname : dp.name = .ptr ⟨.line j, 0⟩) :
    singleCall vars dict j dp = some [(j, firstValue lines j)] := by
  have hline : lines[j]? = some lines[j] := List.getElem?_eq_getElem hj
  have htext : vars.text dp.name = lines[j].name := by
    rw [hname]
    exact (hpairs j _ hline).name
  have hmem : lines[j].name ∈ lines.map PairLine.name := List.mem_map_of_mem (List.getElem_mem hj)
  have hfind : findDictIdx vars lines[j].name dict = some (some ((lines.map PairLine.name).idxOf lines[j].name)) := by
    refine findDictIdx_idxOf (by rw [hmax, List.length_map]) (fun q name hq => ?_) hmem
    rw [List.getElem?_map, Option.map_eq_some_iff] at hq
    obtain ⟨l, hl, rfl⟩ := hq
    exact ⟨_, (hpairs q l hl).key, (hpairs q l hl).name⟩
  have hlt := List.idxOf_lt_length_of_mem hmem
  rw [List.length_map] at hlt
  have hq := List.getElem?_eq_getElem hlt
  rw [singleCall, htext, hfind]
  simp only [Option.bind_eq_bind, Option.bind_some, (hpairs _ _ hq).val, Option.pure_def, firstValue, hline, hq, Option.map_some,
    Option.getD_some]

/-- A poll stores for the first line with a name what the parser has made of its number. -/
theorem poll_pairs (h : PairFile lines) (hne : lines ≠ []) {dpg : Gatherer} (hdpg : NamedByLines dpg lines.length signed)
    (rest : Image) : ∃ dpg', singleLinePoll (pairContent lines) rest dpg = some (some dpg') ∧ ∀ i l, FirstNamed lines i l →
      ∃ dp, dpg.dataPoints[i]? = some dp ∧ dpg'.dataPoints[i]? = some (storeDp dp (behindSpaces l).tail) ∧
      dpg'.priv.text dp.name = l.name := by
  obtain ⟨lens, vars', dict', hread, hlens, hloop, hmax, -, -, hpairs⟩ := read_pairs h hne rest hdpg.size hdpg.count
  have hcall : ∀ x ∈ dpg.dataPoints.zipIdx, singleCall vars' dict' x.2 x.1 = some [(x.2, firstValue lines x.2)] := by
    intro x hx
    have hget := List.mem_zipIdx_iff_getElem?.mp hx
    have hlt := (List.getElem?_eq_some_iff.mp hget).1
    rw [hdpg.length] at hlt
    exact call_first hmax hpairs hlt (hdpg.point _ _ hget).1
  have hcalls := mapM_some (g := fun x : DataPoint × Nat => [(x.2, firstValue lines x.2)]) hcall
  have hlt : ∀ call ∈ (dpg.dataPoints.zipIdx.map fun x => [(x.2, firstValue lines x.2)]).flatten,
      call.1 < dpg.dataPoints.length := by
    intro call hmem
    obtain ⟨cs, hcs, hmem⟩ := List.mem_flatten.mp hmem
    obtain ⟨x, hx, rfl⟩ := List.mem_map.mp hcs
    rw [List.mem_singleton.mp hmem]
    exact (List.getElem?_eq_some_iff.mp (List.mem_zipIdx_iff_getElem?.mp hx)).1
  obtain ⟨points, hpoints⟩ := storeAll_isSome vars' hlt
  refine ⟨{ dpg with dataPoints := points, priv := vars' }, ?_, ?_⟩
  · rw [singleLinePoll, if_neg (content_ne hne), hread]
    simp only [List.take_of_length_le (show lens.length ≤ dpg.dataPoints.length by rw [hlens, hdpg.length]), hloop,
      hcalls, hpoints, Option.bind_eq_bind, Option.bind_some, Option.pure_def]
  · intro i l hfirst
    have hi := hfirst.1
    have hindex : i < dpg.dataPoints.length := by
      rw [hdpg.length]
      exact (List.getElem?_eq_some_iff.mp hi).1
    obtain ⟨dp, hdp⟩ : ∃ dp, dpg.dataPoints[i]? = some dp := ⟨_, List.getElem?_eq_getElem hindex⟩
    have hat : callsAt (dpg.dataPoints.zipIdx.map fun x => [(x.2, firstValue lines x.2)]).flatten i = [firstValue lines i] := by
      rw [callsAt_zipIdx (fun x _ call hmem => by rw [List.mem_singleton.mp hmem]), hdp]
      rfl
    refine ⟨_, hdp, ?_, ?_⟩
    · rw [storeAll_single hpoints hat, hdp, Option.map_some, firstValue_eq hfirst, (hpairs i l hi).value]
    · rw [(hdpg.point i _ hdp).1]
      exact (hpairs i l hi).name

/-! ### What is stored -/

/-- Both types are integers. -/
theorem signedType_integer (b : Bool) : (signedType b).integer = true := by
  cases b <;> rfl

/-- Any other integer is of the type as well. -/
theorem exists_other (b : Bool) (v : Int) : ∃ u, intOf (signedType b) u ≠ v := by
  by_cases hv : v = 0
  · refine ⟨DataUnion.setUlong .zero 1, ?_⟩
    have h1 : intOf (signedType b) (DataUnion.setUlong .zero 1) = 1 := by
      cases b with
      | true => simp only [signedType, if_true, intOf, DataUnion.dLong, DataUnion.dUlong_setUlong]; rfl
      | false => simp only [signedType, Bool.false_eq_true, if_false, intOf, DataUnion.dUlong_setUlong]; rfl
    rw [h1, hv]
    decide
  · refine ⟨.zero, ?_⟩
    have h0 : intOf (signedType b) .zero = 0 := by
      cases b <;> rfl
    rw [h0]
    exact Ne.symm hv

/-- What a data point holds is of its type. -/
theorem intOf_inRange (b : Bool) (u : DataUnion) : InRange (signedType b) (intOf (signedType b) u) := by
  cases b with
  | true => exact ⟨Int64.le_toInt _, Int64.toInt_lt _⟩
  | false =>
    have hlt := (DataUnion.dUlong u).toNat_lt
    exact ⟨Int.natCast_nonneg _, by simp only [signedType, intOf, Bool.false_eq_true, if_false]; omega⟩

/-- A number of the type is stored as it is. -/
theorem stored_of_scanned {b : Bool} {s : List UInt8} {v : Int} (hscan : scanned s = some v) (hv : InRange (signedType b) v)
    (u : DataUnion) : intOf (signedType b) (sscanf (signedType b) s u) = v := by
  obtain ⟨⟨neg, m⟩, hs, rfl⟩ := Option.map_eq_some_iff.mp hscan
  refine UnparsedAux.intOf_sscanf (signedType_integer b) ?_ u
  rw [parsedInt, hs, Option.map_some]
  cases b with
  | true => exact congrArg some (SnapshotAux.toLong_toInt hv)
  | false => exact congrArg some (SnapshotAux.toUlong_toNat hv)

/-- A number without a sign is stored as one that is not greater. -/
theorem stored_le {b : Bool} {s : List UInt8} {m : Nat} (hscan : scanInt s = some (false, m)) (u : DataUnion) :
    0 ≤ intOf (signedType b) (sscanf (signedType b) s u) ∧ intOf (signedType b) (sscanf (signedType b) s u) ≤ m := by
  by_cases hm : InRange (signedType b) m
  · rw [stored_of_scanned (by rw [scanned, hscan]; rfl) hm]
    omega
  · cases b with
    | true =>
      simp only [signedType, if_true, InRange] at hm ⊢
      have hge : 2 ^ 63 ≤ m := by omega
      have hlong : intOf .long (sscanf .long s u) = 2 ^ 63 - 1 := by
        simp only [intOf, sscanf, hscan, Option.elim_some, DataUnion.dLong_setLong, toLong, Bool.false_eq_true,
          if_false, if_pos hge]
        rfl
      rw [hlong]
      omega
    | false =>
      simp only [signedType, Bool.false_eq_true, if_false, InRange] at hm ⊢
      have hge : 2 ^ 64 ≤ m := by omega
      have hulong : intOf .ulong (sscanf .ulong s u) = 2 ^ 64 - 1 := by
        simp only [intOf, sscanf, hscan, Option.elim_some, DataUnion.dUlong_setUlong, toUlong, if_pos hge]
        rfl
      rw [hulong]
      omega

/-- What is left of a number that is not spared is none, or a smaller one, or one without the sign. -/
theorem tail_of_not_spared (h : ¬l.Spared) : scanInt (behindSpaces l).tail = none ∨
    ∃ m, scanInt (behindSpaces l).tail = some (false, m) ∧ ((m : Int) < l.value ∨ l.value < 0) := by
  have hne := mt (scanned_value_iff l).mp h
  rcases behindSpaces_cases l with ⟨-, heq⟩ | ⟨blanks, htab, -, -⟩
  · obtain ⟨neg, ds, hnum, hnil, hds, hvalue⟩ := number_cases l
    rw [heq, hnum] at hne ⊢
    cases neg with
    | true =>
      have hscan := scanInt_digits false hnil hds
      rw [if_neg Bool.false_ne_true, List.nil_append] at hscan
      rw [if_pos rfl, List.singleton_append, List.tail_cons] at hne ⊢
      refine .inr ⟨_, hscan, .inr ?_⟩
      rw [scanned, hscan, hvalue] at hne
      rw [hvalue]
      have hzero : digitsVal ds ≠ 0 := by
        intro hzero
        exact hne (by simp [hzero])
      simp only [if_true]
      omega
    | false =>
      obtain ⟨d, ds, rfl⟩ := List.exists_cons_of_ne_nil hnil
      obtain ⟨hd, hds⟩ := List.forall_mem_cons.mp hds
      rw [if_neg Bool.false_ne_true, List.nil_append, List.tail_cons] at hne ⊢
      by_cases hnil : ds = []
      · subst hnil
        exact .inl rfl
      · have hscan := scanInt_digits false hnil hds
        rw [if_neg Bool.false_ne_true, List.nil_append] at hscan
        refine .inr ⟨_, hscan, .inl ?_⟩
        rw [scanned, hscan, hvalue] at hne
        have h48 : d ≠ 48 := by
          intro h48
          refine hne ?_
          rw [← (digitsVal_cons_eq_iff hd ds).mpr h48]
          rfl
        have hlt := digitsVal_lt_cons hd h48 ds
        rw [hvalue, if_neg Bool.false_ne_true]
        omega
  · exact absurd (.inl htab) h

/-- The number is stored, over any data, exactly if it is spared and of the type. -/
theorem stored_iff (b : Bool) (l : PairLine) :
    (∀ u, intOf (signedType b) (sscanf (signedType b) (behindSpaces l).tail u) = l.value) ↔ l.Spared ∧
      InRange (signedType b) l.value := by
  constructor
  · intro h
    refine ⟨?_, h .zero ▸ intOf_inRange b _⟩
    by_contra hspared
    rcases tail_of_not_spared hspared with hnone | ⟨m, hscan, hm⟩
    · obtain ⟨u, hu⟩ := exists_other b l.value
      have hstored := h u
      rw [UnparsedAux.sscanf_none (signedType_integer b) hnone] at hstored
      exact hu hstored
    · have hle := stored_le (b := b) hscan .zero
      rw [h .zero] at hle
      omega
  · rintro ⟨hspared, hv⟩ u
    exact stored_of_scanned ((scanned_value_iff l).mpr hspared) hv u

/-- A gatherer for some lines whose data points all hold the same. -/
def gathererOf (n : Nat) (signed : Nat → Bool) (u : DataUnion) : Gatherer :=
  ⟨[], [], (List.range n).map fun i =>
    { DataPoint.blank with name := .ptr ⟨.line i, 0⟩, type := signedType (signed i), data := u }, .cleared singleLineSize n⟩

/-- A gatherer with a data point for each line. -/
theorem gathererOf_named (n : Nat) (signed : Nat → Bool) (u : DataUnion) : NamedByLines (gathererOf n signed u) n signed := by
  refine ⟨rfl, rfl, by simp [gathererOf], ?_⟩
  intro i dp hdp
  simp only [gathererOf, List.getElem?_map, Option.map_eq_some_iff] at hdp
  obtain ⟨j, hj, rfl⟩ := hdp
  obtain ⟨hlt, hij⟩ := List.getElem?_eq_some_iff.mp hj
  rw [List.getElem_range] at hij
  subst hij
  exact ⟨rfl, rfl⟩

/-- The numbers are stored exactly if none loses its first digit and all are in range. -/
theorem storesNumbers_iff (h : PairFile lines) (signed : Nat → Bool) :
    StoresNumbers lines signed ↔ ∀ i l, FirstNamed lines i l → l.Spared ∧ InRange (signedType (signed i)) l.value := by
  constructor
  · intro hstores i l hfirst
    have hne : lines ≠ [] := by
      rintro rfl
      cases hfirst.1
    refine (stored_iff (signed i) l).mp fun u => ?_
    have hnamed := gathererOf_named lines.length signed u
    obtain ⟨dpg', dp, hpoll, hdp, -, hvalue⟩ := hstores _ .zero hnamed i l hfirst
    obtain ⟨dpg'', hpoll', hpoints⟩ := poll_pairs h hne hnamed .zero
    obtain rfl := Option.some.inj (Option.some.inj (hpoll'.symm.trans hpoll))
    obtain ⟨dp₀, hdp₀, hdp', -⟩ := hpoints i l hfirst
    obtain rfl := Option.some.inj (hdp'.symm.trans hdp)
    have hdata : dp₀.data = u := by
      have hmem := List.mem_of_getElem? hdp₀
      obtain ⟨j, -, rfl⟩ := List.mem_map.mp hmem
      rfl
    rwa [storeDp_type, storeDp_data, (hnamed.point i _ hdp₀).2, hdata] at hvalue
  · intro hcond dpg rest hdpg i l hfirst
    have hne : lines ≠ [] := by
      rintro rfl
      cases hfirst.1
    obtain ⟨dpg', hpoll, hpoints⟩ := poll_pairs h hne hdpg rest
    obtain ⟨dp, hdp, hdp', hname⟩ := hpoints i l hfirst
    refine ⟨dpg', _, hpoll, hdp', ?_, ?_⟩
    · have hfixed : (storeDp dp (behindSpaces l).tail).name = dp.name := congrArg (·.1) (storeDp_fixed dp (behindSpaces l).tail)
      rw [hfixed]
      exact hname
    · rw [storeDp_type, storeDp_data, (hdpg.point i dp hdp).2]
      exact (stored_iff (signed i) l).mpr (hcond i l hfirst) _

end PairAux

open PairAux in
/-- The search registers a file of such lines with a data point for each, named by the start of its line. -/
theorem singleLineSearch_named (lines : List PairLine) (h : PairFile lines) (hne : lines ≠ []) (name : List UInt8)
    (rest : Image) (vars : Vars) (junk : Nat → DataPoint) (hsize : vars.lineSize = singleLineSize)
    (hcount : vars.lineCount = lines.length) :
    ∃ dpg signed, singleLineSearch name (pairContent lines) rest vars junk = some (some dpg) ∧
      NamedByLines dpg lines.length signed := by
  obtain ⟨lens, vars', dict', hread, -, hloop, hmax, hsize', hcount', hpairs⟩ := read_pairs h hne rest hsize hcount
  -- whether the byte at the pointer to the value is a sign
  let signed : Nat → Bool := fun i => vars'.buf (.line i) (((lines[i]?).map valueAt).getD 0) = 45
  let point : Nat → DataPoint := fun i => { junk i with type := signedType (signed i), name := .ptr ⟨.line i, 0⟩, pfx := none }
  have hpoint : ∀ i ∈ List.range vars'.lineCount, singlePoint vars' dict' junk i = some (point i) := by
    intro i hi
    have hlt : i < lines.length := by
      rw [List.mem_range] at hi
      omega
    have hline := List.getElem?_eq_getElem hlt
    have hat := hpairs i _ hline
    simp only [singlePoint, hmax, hat.val, hat.key, Option.bind_eq_bind, Option.bind_some, if_pos hlt, Option.pure_def,
      point, signed, signedType, hline, Option.map_some, Option.getD_some, decide_eq_true_eq]
  refine ⟨⟨name, name, (List.range vars'.lineCount).map point, vars'⟩, signed, ?_, ?_⟩
  · rw [singleLineSearch, if_neg (content_ne hne), hread]
    simp only [hloop, hmax, mapM_some hpoint, Option.bind_eq_bind, Option.bind_some, Option.pure_def]
  · refine ⟨hsize'.trans hsize, hcount'.trans hcount, by simp [hcount', hcount], ?_⟩
    intro i dp hdp
    rw [List.getElem?_map, Option.map_eq_some_iff] at hdp
    obtain ⟨j, hj, rfl⟩ := hdp
    obtain ⟨hlt, hij⟩ := List.getElem?_eq_some_iff.mp hj
    rw [List.getElem_range] at hij
    subst hij
    exact ⟨rfl, rfl⟩

open PairAux in
/-- A line with a name and a number, read at an index that the dictionary has, gives the name and the number if and only if there
is a tab before the number or its first byte makes no difference. And for a file that fits the buffers: a poll stores for each
name the number that follows it if and only if all of these are so, and of the type of their data points. -/
theorem same_line_pair_iff (l : PairLine) (lines : List PairLine) (signed : Nat → Bool) :
    (∀ (b : Image) (id : BufId) (size n : Nat) (dict : Dict), b.Has 0 (l.text ++ [0]) → l.text.length < size → n < dictSize →
      (PairRead l id size n (parseProcSameLineKeyAndVal b id l.text.length n dict) ↔ l.Spared)) ∧
    (PairFile lines →
      (StoresNumbers lines signed ↔ ∀ i l, FirstNamed lines i l → l.Spared ∧ InRange (signedType (signed i)) l.value)) := by
  constructor
  · intro b id size n dict hb hsize hn
    exact pairRead_iff hb hsize hn id dict
  · intro h
    exact storesNumbers_iff h signed

/-- There are no blanks. -/
theorem PairAux.no_blanks : ∀ c ∈ ([] : List UInt8), isBlank c = true := fun _ h => absurd h List.not_mem_nil

/-- The line `a` with the number `5`, behind a space and a tab, or behind a space alone. -/
def tabLine : PairLine := ⟨[97], [9], [53], by decide, by simp, by simp [isBlank], by decide⟩

/-- A line `a 5`. -/
def spaceLine : PairLine := ⟨[97], [], [53], by decide, by simp, PairAux.no_blanks, by decide⟩

/-- The line `bc` with `-7` behind a tab, and the line `d` with `08` behind a space. -/
def negativeLine : PairLine := ⟨[98, 99], [32, 9], [45, 55], by decide, by simp, by simp [isBlank], by decide⟩

/-- A line `d 08`. -/
def zeroLine : PairLine := ⟨[100], [], [48, 56], by decide, by simp, PairAux.no_blanks, by decide⟩

/-- The rule for a line with a tabulator, and for three lines. -/
theorem same_line_pair_iff_tab :
    PairRead tabLine (.line 0) 2048 0
        (parseProcSameLineKeyAndVal (Image.zero.write 0 (tabLine.text ++ [0])) (.line 0) tabLine.text.length 0 .unset) ∧
      StoresNumbers [tabLine, negativeLine, zeroLine] fun i => i == 1 := by
  have hspared : tabLine.Spared := .inl List.mem_cons_self
  refine ⟨((same_line_pair_iff tabLine [] fun _ => false).1 _ _ 2048 0 .unset (Image.has_write _ _ _) (by decide) (by decide)).mpr
    hspared, ((same_line_pair_iff tabLine [tabLine, negativeLine, zeroLine] fun i => i == 1).2 ⟨by decide, by decide⟩).mpr ?_⟩
  rintro i l ⟨hi, -⟩
  rcases i with _ | _ | _ | i
  · obtain rfl := Option.some.inj hi
    exact ⟨hspared, by decide⟩
  · obtain rfl := Option.some.inj hi
    exact ⟨.inl (by decide), by decide⟩
  · obtain rfl := Option.some.inj hi
    exact ⟨.inr ⟨rfl, by decide⟩, by decide⟩
  · cases hi

/-- Of the line `a 5` no number is left, and what the data point holds stays. -/
theorem not_same_line_pair :
    (¬∀ (l : PairLine) (b : Image) (id : BufId) (size n : Nat) (dict : Dict), b.Has 0 (l.text ++ [0]) → l.text.length < size →
      n < dictSize → PairRead l id size n (parseProcSameLineKeyAndVal b id l.text.length n dict)) ∧
    ¬∀ (lines : List PairLine) (signed : Nat → Bool), PairFile lines →
      (∀ i l, FirstNamed lines i l → InRange (signedType (signed i)) l.value) → StoresNumbers lines signed := by
  have hlost : ¬spaceLine.Spared := by
    rintro (h | h)
    · cases h
    · exact absurd h.1 (by decide)
  constructor
  · intro h
    exact hlost
      ((PairAux.pairRead_iff (l := spaceLine) (Image.has_write .zero 0 _) (by decide : _ < 2048) (by decide) (.line 0) .unset).mp
      (h spaceLine _ _ _ 0 _ (Image.has_write _ _ _) (by decide) (by decide)))
  · intro h
    have hstores := h [spaceLine] (fun _ => false) ⟨by decide, by decide⟩ (by
      rintro i l ⟨hi, -⟩
      obtain rfl := List.mem_singleton.mp (List.mem_of_getElem? hi)
      decide)
    exact hlost ((PairAux.storesNumbers_iff ⟨by decide, by decide⟩ _).mp hstores 0 spaceLine ⟨rfl, by decide⟩).1

end Pixel845.Datatop
