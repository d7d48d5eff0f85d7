import Pixel845.Lemmas.DatatopDual
import Pixel845.Lemmas.DatatopStat
import Pixel845.Theorems.DatatopNames
import Pixel845.Theorems.DatatopSnapshot
import Mathlib.Data.List.Nodup

/-!
# Values of /proc/meminfo in bytes

A poll looks for the space behind the value of each line, and multiplies every value with 1024. Both are right for a line that
ends with a unit; behind a line without one the search runs on into what the buffer held before. Lines are counted up to the first
byte of `0xff`, which the counting takes for the end of the file (`meminfo_in_bytes_iff`).
-/

namespace Pixel845.Datatop

/-- A line of the file: a name and a colon, blanks, a number in decimal, and the unit or none. -/
structure MemLine where
  name : List UInt8
  blanks : List UInt8
  digits : List UInt8
  unit : Bool
  name_plain : ∀ c ∈ name, c ≠ 0 ∧ c ≠ 9 ∧ c ≠ 10 ∧ c ≠ 32
  blanks_ne : blanks ≠ []
  blanks_blank : ∀ c ∈ blanks, isBlank c = true
  digits_numeral : isNumeral digits = true

namespace MemLine

/-- What is looked up for the line. -/
def key (l : MemLine) : List UInt8 := l.name ++ [58]

/-- The unit, with the space before it. -/
def unitText (l : MemLine) : List UInt8 := if l.unit then [32, 107, 66] else []

def text (l : MemLine) : List UInt8 := l.key ++ (l.blanks ++ (l.digits ++ l.unitText))

/-- The number of bytes that the line stands for. -/
def bytes (l : MemLine) : Nat := if l.unit then digitsVal l.digits * 1024 else digitsVal l.digits

/-- Where the value stands. -/
def valueAt (l : MemLine) : Nat := l.key.length + l.blanks.length

end MemLine

/-- The content of a file with these lines. -/
def memContent (lines : List MemLine) : List UInt8 := (lines.map MemLine.text).flatMap (· ++ [10])

/-- `DTOP_MEM_LINE` -/
def memLineSize : Nat := 2048

/-- The names are distinct, the file fits the buffers, and the numbers of bytes fit 64 bits. -/
structure MemFile (lines : List MemLine) : Prop where
  names : (lines.map MemLine.key).Nodup
  fits : ∀ l ∈ lines, l.text.length < memLineSize
  content : (memContent lines).length ≤ singleSize
  values : ∀ l ∈ lines, digitsVal l.digits * 1024 < 2 ^ 64

/-- Whatever memory is allocated for it: the search registers the file and the poll stores for each name the bytes of its line. -/
def InBytes (lines : List MemLine) : Prop :=
  ∀ (name : List UInt8) (rest rest' : Image) (vars : Vars) (junk : Nat → DataPoint),
    vars.lineSize = memLineSize → vars.lineCount = getFileLineAmount (memContent lines) →
      ∀ (i : Nat) l, lines[i]? = some l → ∃ dpg dpg' dp, meminfoSearch name (memContent lines) rest vars junk = some (some dpg) ∧
        meminfoPoll (memContent lines) rest' dpg = some (some dpg') ∧ dpg'.dataPoints[i]? = some dp ∧
        dpg'.priv.text dp.name = l.key ∧ dp.type = .ulong ∧ (DataUnion.dUlong dp.data).toNat = l.bytes

namespace MeminfoAux

variable {l : MemLine} {lines : List MemLine} {b : Image} {size i n : Nat} {dict : Dict} {vars : Vars}

/-! ### Lines -/

/-- A digit is none of the bytes that the parser looks for. -/
theorem digit_plain {c : UInt8} (h : c ∈ l.digits) : c ≠ 0 ∧ c ≠ 10 ∧ c ≠ 32 ∧ c ≠ 255 ∧ isBlank c = false := by
  have hnum := l.digits_numeral
  simp only [isNumeral, Bool.and_eq_true, List.all_eq_true] at hnum
  have hd := hnum.2 c h
  simp only [isDigit, Bool.and_eq_true, decide_eq_true_eq, UInt8.le_iff_toNat_le] at hd
  refine ⟨?_, ?_, ?_, ?_, ?_⟩
  · rintro rfl
    exact absurd hd (by decide)
  · rintro rfl
    exact absurd hd (by decide)
  · rintro rfl
    exact absurd hd (by decide)
  · rintro rfl
    exact absurd hd (by decide)
  · by_contra hblank
    rw [Bool.not_eq_false, isBlank, Bool.or_eq_true, beq_iff_eq, beq_iff_eq] at hblank
    rcases hblank with rfl | rfl <;> exact absurd hd (by decide)

/-- A value has a digit. -/
theorem digits_ne (l : MemLine) : l.digits ≠ [] := by
  have hnum := l.digits_numeral
  simp only [isNumeral, Bool.and_eq_true, decide_eq_true_eq] at hnum
  exact hnum.1

/-- A name has no blank and no newline in it. -/
theorem key_plain {c : UInt8} (h : c ∈ l.key) : c ≠ 0 ∧ c ≠ 10 ∧ isBlank c = false := by
  rcases List.mem_append.mp h with h | h
  · obtain ⟨h0, h9, h10, h32⟩ := l.name_plain c h
    exact ⟨h0, h10, by simp [isBlank, h9, h32]⟩
  · obtain rfl := List.mem_singleton.mp h
    decide

/-- What a byte of a line is that is none of its name. -/
theorem text_byte {c : UInt8} (h : c ∈ l.text) (hname : c ∉ l.name) : c ≠ 10 ∧ c ≠ 255 := by
  simp only [MemLine.text, MemLine.key, List.mem_append] at h
  rcases h with (h | h) | h | h | h
  · exact absurd h hname
  · rw [List.mem_singleton.mp h]
    decide
  · have hblank := l.blanks_blank c h
    rw [isBlank, Bool.or_eq_true, beq_iff_eq, beq_iff_eq] at hblank
    rcases hblank with rfl | rfl <;> decide
  · exact ⟨(digit_plain h).2.1, (digit_plain h).2.2.2.1⟩
  · unfold MemLine.unitText at h
    split at h
    · simp only [List.mem_cons, List.not_mem_nil, or_false] at h
      rcases h with rfl | rfl | rfl <;> decide
    · cases h

theorem text_plain (l : MemLine) : 10 ∉ l.text := by
  intro h
  refine (text_byte h fun hname => ?_).1 rfl
  exact (l.name_plain 10 hname).2.2.1 rfl

/-! ### One line of a poll -/

/-- Where the value of a line is found, in its buffer with the terminator behind the name. -/
theorem scan_value (hb : b.Has 0 (l.text ++ [0])) (hsize : l.text.length < size) :
    scanFor isBlank b l.text.length 0 = some l.key.length ∧
      scanFor (!isBlank ·) (terminate b [l.key.length]) (size - (l.key.length + 1)) (l.key.length + 1) = some l.valueAt ∧
      (terminate b [l.key.length]).Has l.valueAt (l.digits ++ (l.unitText ++ [0])) := by
  obtain ⟨c, blanks, hblanks⟩ := List.exists_cons_of_ne_nil l.blanks_ne
  obtain ⟨d, digits, hdigits⟩ := List.exists_cons_of_ne_nil (digits_ne l)
  have hc : isBlank c = true := l.blanks_blank c (by rw [hblanks]; exact List.mem_cons_self)
  have hd : isBlank d = false := (digit_plain (l := l) (c := d) (by rw [hdigits]; exact List.mem_cons_self)).2.2.2.2
  have hlen : l.text.length = l.key.length + (blanks.length + 1 + (l.digits ++ l.unitText).length) := by
    rw [MemLine.text, List.length_append, List.length_append, hblanks, List.length_cons]
  have hdlen : 1 ≤ (l.digits ++ l.unitText).length := by
    rw [hdigits]
    simp
  have htext : l.text ++ [0] = l.key ++ c :: (blanks ++ (l.digits ++ (l.unitText ++ [0]))) := by
    simp [MemLine.text, hblanks]
  have hvalue : l.valueAt = l.key.length + 1 + blanks.length := by
    rw [MemLine.valueAt, hblanks, List.length_cons]
    omega
  rw [htext] at hb
  have hscan := scanFor_has isBlank l.text.length hb (fun x hx => (key_plain hx).2.2) hc (by omega)
  rw [Nat.zero_add] at hscan
  have hbehind : (terminate b [l.key.length]).Has (l.key.length + 1) (blanks ++ (l.digits ++ (l.unitText ++ [0]))) := by
    obtain ⟨-, hrest⟩ := Image.has_append.mp hb
    rw [Nat.zero_add] at hrest
    refine (Image.has_cons.mp hrest).2.congr ?_
    intro j hj _
    have hne : j ≠ l.key.length := by omega
    simp [terminate, hne]
  obtain ⟨-, hvaluehas⟩ := Image.has_append.mp hbehind
  rw [← hvalue] at hvaluehas
  refine ⟨hscan, ?_, hvaluehas⟩
  rw [hvalue]
  rw [hdigits, List.cons_append] at hbehind
  refine scanFor_has _ _ hbehind (fun x hx => ?_) (by rw [hd]; rfl) (by omega)
  rw [l.blanks_blank x (by rw [hblanks]; exact List.mem_cons_of_mem c hx)]
  rfl

/-- A line with a unit is cut behind its name and behind its value. -/
theorem parse_unit (hu : l.unit = true) (hb : b.Has 0 (l.text ++ [0])) (hsize : l.text.length < size) (hn : n < dictSize)
    (dict : Dict) : ∃ b', meminfoParse size b (.line n) l.text.length n dict =
        some (b', ⟨some (n + 1), setFrom dict.key n [⟨.line n, 0⟩], setFrom dict.val n [⟨.line n, l.valueAt⟩]⟩) ∧
      b'.cstr size 0 = l.key ∧ b'.cstr size l.valueAt = l.digits := by
  obtain ⟨hname, hvalue, hhas⟩ := scan_value hb hsize
  have hunit : l.unitText = [32, 107, 66] := if_pos hu
  have hlen : l.text.length = l.valueAt + l.digits.length + 3 := by
    simp only [MemLine.text, MemLine.valueAt, hunit, List.length_append, List.length_cons, List.length_nil]
    omega
  have hpos : l.key.length < l.valueAt := by
    have hblanks := List.length_pos_iff.mpr l.blanks_ne
    unfold MemLine.valueAt
    omega
  rw [hunit] at hhas
  have hcut : (terminate b [l.key.length]).Has l.valueAt (l.digits ++ 32 :: [107, 66, 0]) := hhas
  have hspace := scanFor_has (· == 32) (size - l.valueAt) hcut
    (fun x hx => beq_eq_false_iff_ne.mpr (digit_plain hx).2.2.1) rfl (by omega)
  have hkey : b.Has 0 l.key := by
    rw [MemLine.text, List.append_assoc] at hb
    exact (Image.has_append.mp hb).1
  refine ⟨terminate (terminate b [l.key.length]) [l.valueAt + l.digits.length], ?_, ?_, ?_⟩
  · rw [meminfoParse, if_neg (by omega), if_neg (by omega)]
    simp only [hname, hvalue, hspace, Option.bind_eq_bind, Option.bind_some, Option.pure_def]
  · have hcut : (terminate (terminate b [l.key.length]) [l.valueAt + l.digits.length]).Has 0 (l.key ++ [0]) := by
      rw [terminate_terminate]
      refine terminate_has hkey (fun j hj => ?_) (.inl (by simp))
      simp only [List.cons_append, List.nil_append, List.mem_cons, List.not_mem_nil, or_false] at hj
      omega
    exact hcut.cstr_plain (fun c hc => (key_plain hc).1) (by omega)
  · have hcut : (terminate (terminate b [l.key.length]) [l.valueAt + l.digits.length]).Has l.valueAt (l.digits ++ [0]) := by
      refine terminate_has (Image.has_append.mp hhas).1 (fun j hj => ?_) (.inl (by simp))
      rw [List.mem_singleton.mp hj]
      exact .inr (Nat.le_refl _)
    exact hcut.cstr_plain (fun c hc => (digit_plain hc).1) (by omega)

/-- A line without a unit is not left, if nothing in its buffer is a space behind it. -/
theorem parse_bare (hu : l.unit = false) (hb : b.Has 0 (l.text ++ [0])) (hsize : l.text.length < size) (hn : n < dictSize)
    (hzero : ∀ j, l.text.length < j → j < size → b j = 0) (dict : Dict) :
    meminfoParse size b (.line n) l.text.length n dict = none := by
  obtain ⟨hname, hvalue, hhas⟩ := scan_value hb hsize
  have hunit : l.unitText = [] := if_neg (by rw [hu]; exact Bool.false_ne_true)
  have hlen : l.text.length = l.valueAt + l.digits.length := by
    simp only [MemLine.text, MemLine.valueAt, hunit, List.length_append, List.length_nil]
    omega
  have hne := List.length_pos_iff.mpr (digits_ne l)
  rw [hunit, List.nil_append] at hhas
  have hspace : scanFor (· == 32) (terminate b [l.key.length]) (size - l.valueAt) l.valueAt = none := by
    refine scanFor_none fun j hj hj' => beq_eq_false_iff_ne.mpr ?_
    by_cases hin : j < l.valueAt + l.digits.length
    · obtain ⟨k, rfl⟩ := Nat.exists_eq_add_of_le hj
      rw [(Image.has_append.mp hhas).1.getElem (i := k) (by omega)]
      exact (digit_plain (List.getElem_mem _)).2.2.1
    · have hj0 : terminate b [l.key.length] j = 0 := by
        by_cases hend : j = l.text.length
        · obtain ⟨-, hend0⟩ := Image.has_append.mp hhas
          rw [hend, hlen]
          exact (Image.has_cons.mp hend0).1
        · unfold terminate
          rw [hzero j (by omega) (by omega), ite_self]
      rw [hj0]
      decide
  rw [meminfoParse, if_neg (by omega), if_neg (by omega)]
  simp only [hname, hvalue, hspace, Option.bind_eq_bind, Option.bind_some, Option.bind_none]

/-! ### The loops over the lines -/

theorem text_ne (l : MemLine) : l.text ≠ [] := by
  simp [MemLine.text, MemLine.key]

/-- What the loop of a poll leaves: for each line its name and its value in the dictionary, and their texts in its buffer. -/
structure Parsed (lines : List MemLine) (i size : Nat) (vars : Vars) (dict : Dict) : Prop where
  key : ∀ (k : Nat) l, lines[k]? = some l → dict.key (i + k) = some ⟨.line (i + k), 0⟩
  val : ∀ (k : Nat) l, lines[k]? = some l → dict.val (i + k) = some ⟨.line (i + k), l.valueAt⟩
  name : ∀ (k : Nat) l, lines[k]? = some l → (vars.buf (.line (i + k))).cstr size 0 = l.key
  value : ∀ (k : Nat) l, lines[k]? = some l → (vars.buf (.line (i + k))).cstr size l.valueAt = l.digits

/-- The loop over lines that all have a unit. -/
theorem loop_units (hunits : ∀ l ∈ lines, l.unit = true) (hfits : ∀ l ∈ lines, l.text.length < vars.lineSize)
    (hn : i + lines.length ≤ dictSize) (hb : vars.Holds i (lines.map MemLine.text)) (dict : Dict) :
    ∃ vars' dict', meminfoLoop ((lines.map MemLine.text).map List.length) i vars dict = some (vars', dict') ∧
      vars'.lineSize = vars.lineSize ∧ (lines ≠ [] → dict'.max = some (i + lines.length)) ∧
      (∀ j < i, dict'.key j = dict.key j ∧ dict'.val j = dict.val j ∧ vars'.buf (.line j) = vars.buf (.line j)) ∧
      Parsed lines i vars.lineSize vars' dict' := by
  induction lines generalizing i vars dict with
  | nil => exact ⟨vars, dict, rfl, rfl, fun h => absurd rfl h, fun j _ => ⟨rfl, rfl, rfl⟩, by constructor <;> simp⟩
  | cons l lines ih =>
    obtain ⟨hunit, hunits⟩ := List.forall_mem_cons.mp hunits
    obtain ⟨hfit, hfits⟩ := List.forall_mem_cons.mp hfits
    rw [List.length_cons] at hn
    obtain ⟨b', hparse, hname, hvalue⟩ := parse_unit (n := i) hunit (hb.head (text_ne l)) hfit (by omega) dict
    have hfits' : ∀ l ∈ lines, l.text.length < (vars.setBuf (.line i) b').lineSize := hfits
    obtain ⟨vars', dict', hloop, hsize, hmax, hold, hparsed⟩ := ih (i := i + 1) hunits hfits' (by omega)
      (hb.tail b') ⟨some (i + 1), setFrom dict.key i [⟨.line i, 0⟩], setFrom dict.val i [⟨.line i, l.valueAt⟩]⟩
    obtain ⟨hkeyi, hvali, hbufi⟩ := hold i (by omega)
    rw [Vars.setBuf_buf, Function.update_self] at hbufi
    refine ⟨vars', dict', ?_, hsize, ?_, ?_, ?_⟩
    · simp only [List.map_cons, meminfoLoop, hparse, Option.bind_eq_bind, Option.bind_some]
      exact hloop
    · intro _
      cases lines with
      | nil =>
        cases hloop
        rfl
      | cons l' lines =>
        rw [hmax (by simp)]
        simp only [List.length_cons]
        congr 1
        omega
    · intro j hj
      obtain ⟨hkeyj, hvalj, hbufj⟩ := hold j (by omega)
      have hne : BufId.line j ≠ .line i := by
        intro h
        have := BufId.line.inj h
        omega
      rw [Vars.setBuf_buf, Function.update_of_ne hne] at hbufj
      exact ⟨hkeyj.trans (setFrom_single_of_lt _ _ hj), hvalj.trans (setFrom_single_of_lt _ _ hj), hbufj⟩
    · constructor
      · exact forall_getElem?_cons (P := fun n _ => dict'.key n = some ⟨.line n, 0⟩)
          (hkeyi.trans (setFrom_single_self _ _ _)) hparsed.key
      · exact forall_getElem?_cons (P := fun n (l : MemLine) => dict'.val n = some ⟨.line n, l.valueAt⟩)
          (hvali.trans (setFrom_single_self _ _ _)) hparsed.val
      · exact forall_getElem?_cons (P := fun n (l : MemLine) => (vars'.buf (.line n)).cstr vars.lineSize 0 = l.key)
          (by rw [hbufi, hname]) hparsed.name
      · exact forall_getElem?_cons (P := fun n (l : MemLine) => (vars'.buf (.line n)).cstr vars.lineSize l.valueAt = l.digits)
          (by rw [hbufi, hvalue]) hparsed.value

/-- The loop over lines of which one has no unit, in buffers that were cleared. -/
theorem loop_bare (hbare : ∃ l ∈ lines, l.unit = false) (hfits : ∀ l ∈ lines, l.text.length < vars.lineSize)
    (hn : i + lines.length ≤ dictSize) (hb : vars.Holds i (lines.map MemLine.text))
    (hzero : ∀ (k : Nat) l, lines[k]? = some l → ∀ j, l.text.length < j → (vars.buf (.line (i + k))) j = 0) (dict : Dict) :
    meminfoLoop ((lines.map MemLine.text).map List.length) i vars dict = none := by
  induction lines generalizing i vars dict with
  | nil => simp at hbare
  | cons l lines ih =>
    obtain ⟨hfit, hfits⟩ := List.forall_mem_cons.mp hfits
    rw [List.length_cons] at hn
    simp only [List.map_cons, meminfoLoop, Option.bind_eq_bind]
    cases hu : l.unit with
    | false =>
      rw [parse_bare hu (hb.head (text_ne l)) hfit (by omega) (fun j hj _ => hzero 0 l rfl j hj), Option.bind_none]
    | true =>
      obtain ⟨b', hparse, -⟩ := parse_unit (n := i) hu (hb.head (text_ne l)) hfit (by omega) dict
      rw [hparse, Option.bind_some]
      have hfits' : ∀ l ∈ lines, l.text.length < (vars.setBuf (.line i) b').lineSize := hfits
      refine ih (i := i + 1) ?_ hfits' (by omega) (hb.tail b') (fun k l' hk j hj => ?_) _
      · obtain ⟨l', hmem, hu'⟩ := hbare
        rcases List.mem_cons.mp hmem with rfl | hmem
        · rw [hu] at hu'
          cases hu'
        · exact ⟨l', hmem, hu'⟩
      · have hne : BufId.line (i + 1 + k) ≠ .line i := by
          intro h
          have := BufId.line.inj h
          omega
        rw [Vars.setBuf_buf, Function.update_of_ne hne, show i + 1 + k = i + (k + 1) by omega]
        exact hzero (k + 1) l' (by simpa using hk) j hj

/-- The loop of the search sets the name of each line with a space. -/
theorem sameLineLoop_keys (hspace : ∀ l ∈ lines, 32 ∈ l.text) (hn : i + lines.length ≤ dictSize)
    (hb : vars.Holds i (lines.map MemLine.text)) (dict : Dict) :
    (lines ≠ [] → (sameLineLoop ((lines.map MemLine.text).map List.length) i vars dict).2.max = some (i + lines.length)) ∧
      (∀ j < i, (sameLineLoop ((lines.map MemLine.text).map List.length) i vars dict).2.key j = dict.key j) ∧
      ∀ (k : Nat) l, lines[k]? = some l →
        (sameLineLoop ((lines.map MemLine.text).map List.length) i vars dict).2.key (i + k) = some ⟨.line (i + k), 0⟩ := by
  induction lines generalizing i vars dict with
  | nil => exact ⟨fun h => absurd rfl h, fun j _ => rfl, by simp⟩
  | cons l lines ih =>
    obtain ⟨hsp, hspace⟩ := List.forall_mem_cons.mp hspace
    rw [List.length_cons] at hn
    have hlen : ¬l.text.length < 1 := by
      have := List.length_pos_iff.mpr (text_ne l)
      omega
    have hhead := positions_head? (Image.has_append.mp (hb.head (text_ne l))).1
    rw [if_pos hsp] at hhead
    obtain ⟨ps, hps⟩ := List.head?_eq_some_iff.mp hhead
    obtain ⟨b', val, hparse⟩ : ∃ b' val, parseProcSameLineKeyAndVal (vars.buf (.line i)) (.line i) l.text.length i dict =
        (b', ⟨some (i + 1), setFrom dict.key i [⟨.line i, 0⟩], val⟩) := by
      rw [parseProcSameLineKeyAndVal, if_neg hlen, if_pos (by omega : i < dictSize), hps]
      exact ⟨_, _, rfl⟩
    obtain ⟨hmax, hold, hkeys⟩ := ih (i := i + 1) hspace (by omega) (hb.tail b')
      ⟨some (i + 1), setFrom dict.key i [⟨.line i, 0⟩], val⟩
    simp only [List.map_cons, sameLineLoop, hparse]
    refine ⟨?_, ?_, ?_⟩
    · intro _
      cases lines with
      | nil => rfl
      | cons l' lines =>
        rw [hmax (by simp)]
        simp only [List.length_cons]
        congr 1
        omega
    · intro j hj
      rw [hold j (by omega)]
      exact setFrom_single_of_lt _ _ hj
    · have hkeyi := (hold i (by omega)).trans (setFrom_single_self _ _ _)
      generalize (sameLineLoop ((lines.map MemLine.text).map List.length) (i + 1) (vars.setBuf (.line i) b')
        ⟨some (i + 1), setFrom dict.key i [⟨.line i, 0⟩], val⟩).2.key = key at hkeyi hkeys ⊢
      exact forall_getElem?_cons (P := fun n (_ : MemLine) => key n = some ⟨.line n, 0⟩) hkeyi hkeys

/-! ### Reading the file -/

theorem plain_texts (lines : List MemLine) : ∀ t ∈ lines.map MemLine.text, 10 ∉ t := by
  intro t ht
  obtain ⟨l, -, rfl⟩ := List.mem_map.mp ht
  exact text_plain l

/-- All lines are counted if no name has a byte of `0xff`. -/
theorem lineAmount (hnames : ∀ l ∈ lines, 255 ∉ l.name) : getFileLineAmount (memContent lines) = lines.length := by
  have hall : (memContent lines).takeWhile (· != 0xff) = memContent lines := by
    refine List.takeWhile_eq_self_iff.mpr fun c hc => bne_iff_ne.mpr ?_
    rintro rfl
    obtain ⟨t, ht, hc⟩ := List.mem_flatMap.mp hc
    obtain ⟨l, hl, rfl⟩ := List.mem_map.mp ht
    rcases List.mem_append.mp hc with hc | hc
    · exact (text_byte hc (hnames l hl)).2 rfl
    · exact absurd (List.mem_singleton.mp hc) (by decide)
  rw [getFileLineAmount, hall, memContent, count_ended_of_not_mem (plain_texts lines), List.length_map]

/-- The count ends before a line that has one. -/
theorem lineAmount_le (hi : lines[i]? = some l) (hname : 255 ∈ l.name) : getFileLineAmount (memContent lines) ≤ i := by
  obtain ⟨hlt, rfl⟩ := List.getElem?_eq_some_iff.mp hi
  have htext : (255 : UInt8) ∈ lines[i].text := List.mem_append_left _ (List.mem_append_left _ hname)
  obtain ⟨before, behind, htext, -⟩ := List.eq_append_cons_of_mem htext
  have hbefore : 10 ∉ before := fun h => text_plain lines[i] (by rw [htext]; exact List.mem_append_left _ h)
  have hsplit : memContent lines = (((lines.take i).map MemLine.text).flatMap (· ++ [10]) ++ before) ++
      255 :: (behind ++ [10] ++ ((lines.drop (i + 1)).map MemLine.text).flatMap (· ++ [10])) := by
    have hlines : lines = lines.take i ++ lines[i] :: lines.drop (i + 1) := by
      rw [← List.drop_eq_getElem_cons hlt, List.take_append_drop]
    conv_lhs => rw [memContent, hlines]
    simp only [List.map_append, List.map_cons, List.flatMap_append, List.flatMap_cons, htext, List.append_assoc, List.cons_append]
  have hfront : ∀ X Y : List UInt8, ((X ++ 255 :: Y).takeWhile (· != 0xff)).count 10 ≤ X.count 10 := by
    intro X Y
    have hend : (255 :: Y).takeWhile (· != (0xff : UInt8)) = [] := rfl
    rw [List.takeWhile_append, hend, List.append_nil]
    split
    · exact Nat.le_refl _
    · exact (List.takeWhile_sublist _).count_le _
  have hcount := count_ended_of_not_mem (plain_texts (lines.take i))
  rw [getFileLineAmount, hsplit]
  refine Nat.le_trans (hfront _ _) ?_
  rw [List.count_append, hcount, List.count_eq_zero_of_not_mem hbefore, List.length_map, List.length_take]
  omega

/-- A file that fits has no more lines than a dictionary has entries. -/
theorem lines_le (h : MemFile lines) : lines.length ≤ dictSize := by
  have hlong : ∀ t ∈ lines.map MemLine.text, 3 ≤ t.length := by
    intro t ht
    obtain ⟨l, -, rfl⟩ := List.mem_map.mp ht
    have hblanks := List.length_pos_iff.mpr l.blanks_ne
    have hdigits := List.length_pos_iff.mpr (digits_ne l)
    simp only [MemLine.text, MemLine.key, List.length_append, List.length_cons, List.length_nil]
    omega
  have hle : 4 * (lines.map MemLine.text).length ≤ (memContent lines).length := length_ended_le hlong
  rw [List.length_map] at hle
  have hcontent := h.content
  have hsize : singleSize = 8192 := rfl
  have hdict : dictSize = 2048 := rfl
  omega

/-- What search and poll read: the lines in the buffers, and their lengths. -/
theorem read_content (h : MemFile lines) (rest : Image) (hsize : vars.lineSize = memLineSize)
    (hcount : vars.lineCount = lines.length) :
        (readLines .line singleSize vars).run (readFile (memContent lines) singleSize rest).load =
        (vars.store .line 0 ((lines.map MemLine.text).map some), (lines.map MemLine.text).map List.length) ∧
      (vars.store .line 0 ((lines.map MemLine.text).map some)).Holds 0 (lines.map MemLine.text) := by
  refine readLines_ended (plain_texts lines) (fun t ht => ?_) h.content (by rw [hcount, List.length_map]) rest
  obtain ⟨l, hl, rfl⟩ := List.mem_map.mp ht
  rw [hsize]
  exact h.fits l hl

/-- The lines fit into their buffers. -/
theorem lines_fit (h : MemFile lines) (hsize : vars.lineSize = memLineSize) (texts : List (Option (List UInt8))) :
    ∀ l ∈ lines, l.text.length < (vars.store .line 0 texts).lineSize := by
  intro l hl
  rw [Vars.store_lineSize, hsize]
  exact h.fits l hl

theorem content_ne (hne : lines ≠ []) : memContent lines ≠ [] := ended_ne_nil (by simpa using hne)

/-! ### The search -/

/-- What a search that succeeds registers: a data point for each line, and the buffers as the loop leaves them. -/
theorem search_some (h : MemFile lines) (hne : lines ≠ []) {name : List UInt8} {rest : Image}
    (hsize : vars.lineSize = memLineSize) (hcount : vars.lineCount = lines.length) {junk : Nat → DataPoint} {dpg : Gatherer}
    (hsearch : meminfoSearch name (memContent lines) rest vars junk = some (some dpg)) :
    dpg.dataPoints.length = lines.length ∧ dpg.priv =
      (sameLineLoop ((lines.map MemLine.text).map List.length) 0
      (vars.store .line 0 ((lines.map MemLine.text).map some)) .unset).1 ∧
      dpg.priv.lineSize = memLineSize ∧ dpg.priv.lineCount = lines.length := by
  rw [meminfoSearch, if_neg (content_ne hne), (read_content h rest hsize hcount).1] at hsearch
  simp only [Option.bind_eq_bind, Option.bind_eq_some_iff, Option.pure_def, Option.some.injEq] at hsearch
  obtain ⟨max, -, rfl⟩ := hsearch
  have hvars := sameLineLoop_vars ((lines.map MemLine.text).map List.length) (i := 0) List.drop_zero
    (vars.store .line 0 ((lines.map MemLine.text).map some)) .unset
  have hlineSize := congrArg Vars.lineSize hvars
  have hlineCount := congrArg Vars.lineCount hvars
  rw [Vars.rewrite_lineSize, Vars.store_lineSize] at hlineSize
  rw [Vars.rewrite_lineCount, Vars.store_lineCount] at hlineCount
  refine ⟨?_, rfl, hlineSize.trans hsize, hlineCount.trans hcount⟩
  simp only [List.length_map, List.length_range]
  exact hlineCount.trans hcount

/-- If each line has a space, the search succeeds and the name of each data point is the start of its line. -/
theorem search_names (h : MemFile lines) (hne : lines ≠ []) (hspace : ∀ l ∈ lines, 32 ∈ l.text) (name : List UInt8) (rest : Image)
    (hsize : vars.lineSize = memLineSize) (hcount : vars.lineCount = lines.length) (junk : Nat → DataPoint) :
    ∃ dpg, meminfoSearch name (memContent lines) rest vars junk = some (some dpg) ∧
      ∀ i < lines.length, ∃ dp, dpg.dataPoints[i]? = some dp ∧ dp.name = .ptr ⟨.line i, 0⟩ ∧ dp.type = .ulong := by
  obtain ⟨hread, hholds⟩ := read_content h rest hsize hcount
  obtain ⟨hmax, -, hkeys⟩ := sameLineLoop_keys (i := 0) hspace (by have := lines_le h; omega) hholds .unset
  rw [Nat.zero_add] at hmax
  have hvars := congrArg Vars.lineCount (sameLineLoop_vars ((lines.map MemLine.text).map List.length) (i := 0) List.drop_zero
    (vars.store .line 0 ((lines.map MemLine.text).map some)) .unset)
  rw [Vars.rewrite_lineCount, Vars.store_lineCount, hcount] at hvars
  rw [meminfoSearch, if_neg (content_ne hne), hread]
  simp only [Option.bind_eq_bind, Option.pure_def]
  generalize sameLineLoop ((lines.map MemLine.text).map List.length) 0
    (vars.store .line 0 ((lines.map MemLine.text).map some)) .unset = r at hmax hkeys hvars ⊢
  rw [hmax hne, Option.bind_some, hvars]
  refine ⟨_, rfl, ?_⟩
  intro i hi
  have hkey := hkeys i lines[i] (List.getElem?_eq_getElem hi)
  rw [Nat.zero_add] at hkey
  refine ⟨meminfoPoint r.2 junk lines.length i, by simp [hi], ?_, ?_⟩
  · rw [meminfoPoint, if_pos hi, hkey]
    rfl
  · rw [meminfoPoint, if_pos hi]

/-! ### Storing -/

/-- What storing a value in bytes leaves. -/
theorem storeKb_digits (l : MemLine) (hfit : digitsVal l.digits * 1024 < 2 ^ 64) (dp : DataPoint) :
    (DataUnion.dUlong (storeKb dp l.digits).data).toNat = digitsVal l.digits * 1024 := by
  have hnum := l.digits_numeral
  simp only [isNumeral, Bool.and_eq_true, decide_eq_true_eq, List.all_eq_true] at hnum
  have hscan : scanInt l.digits = some (false, digitsVal l.digits) := scanInt_digits false hnum.1 hnum.2
  have hdata : (storeKb dp l.digits).data = DataUnion.setUlong (sscanf .ulong l.digits dp.data)
      (DataUnion.dUlong (sscanf .ulong l.digits dp.data) * 1024) := by
    unfold storeKb
    simp only
    split <;> rfl
  have hlt : ¬2 ^ 64 ≤ digitsVal l.digits := by omega
  rw [hdata, DataUnion.dUlong_setUlong]
  simp only [sscanf, hscan, Option.elim_some, DataUnion.dUlong_setUlong, toUlong, if_neg hlt, Bool.false_eq_true, if_false]
  rw [UInt64.toNat_mul, UInt64.toNat_ofNat']
  change digitsVal l.digits % 2 ^ 64 * 1024 % 2 ^ 64 = _
  omega

/-- Storing by name, where each data point is found at its own number. -/
theorem stores_own {points : List DataPoint} {vals : Nat → Ptr} (hown : ∀ (j : Nat) dp, points[j]? = some dp →
      findDictIdx vars (vars.text dp.name) dict = some (some j) ∧ dict.val j = some (vals j)) {k : Nat} (hk : k ≤ points.length) :
    ∃ points', (List.range k).foldlM (meminfoStore vars dict) points = some points' ∧
      ∀ j : Nat, points'[j]? = (points[j]?).map fun dp => if j < k then storeKb dp (vars.cstr (vals j)) else dp := by
  induction k with
  | zero => exact ⟨points, rfl, fun j => by simp⟩
  | succ k ih =>
    obtain ⟨points', hfold, hget⟩ := ih (by omega)
    have hpoint : points[k]? = some points[k] := List.getElem?_eq_getElem (by omega)
    have hk' : points'[k]? = some points[k] := by
      rw [hget, hpoint, Option.map_some, if_neg (Nat.lt_irrefl k)]
    obtain ⟨hfind, hval⟩ := hown k _ hpoint
    refine ⟨points'.set k (storeKb points[k] (vars.cstr (vals k))), ?_, ?_⟩
    · rw [List.range_succ, List.foldlM_append, hfold]
      simp [meminfoStore, hk', hfind, hval]
    · intro j
      rw [List.getElem?_set]
      by_cases hj : k = j
      · subst hj
        obtain ⟨hlt, -⟩ := List.getElem?_eq_some_iff.mp hk'
        rw [if_pos rfl, if_pos hlt, hpoint, Option.map_some, if_pos (Nat.lt_succ_self k)]
      · rw [if_neg hj, hget]
        have hiff : j < k ↔ j < k + 1 := by omega
        simp only [hiff]

/-! ### The poll -/

/-- A name is found at the number of its line. -/
theorem find_own (h : MemFile lines) (hparsed : Parsed lines 0 vars.lineSize vars dict) (hmax : dict.max = some lines.length)
    (hi : lines[i]? = some l) : findDictIdx vars l.key dict = some (some i) := by
  have hname : ∀ (q : Nat) name, (lines.map MemLine.key)[q]? = some name → ∃ p, dict.key q = some p ∧ vars.cstr p = name := by
    intro q name hq
    rw [List.getElem?_map, Option.map_eq_some_iff] at hq
    obtain ⟨l', hl', rfl⟩ := hq
    have hkey := hparsed.key q l' hl'
    have htext := hparsed.name q l' hl'
    rw [Nat.zero_add] at hkey htext
    exact ⟨_, hkey, htext⟩
  obtain ⟨hlt, rfl⟩ := List.getElem?_eq_some_iff.mp hi
  have hmem : lines[i].key ∈ lines.map MemLine.key := List.mem_map_of_mem (List.getElem_mem hlt)
  have hfirst := List.Nodup.idxOf_getElem h.names i (by rwa [List.length_map])
  rw [List.getElem_map] at hfirst
  rw [findDictIdx_idxOf (by rw [hmax, List.length_map]) hname hmem, hfirst]

/-- A poll of a file whose lines all have a unit stores the bytes of each. -/
theorem poll_units (h : MemFile lines) (hne : lines ≠ []) (hunits : ∀ l ∈ lines, l.unit = true) (rest : Image) {dpg : Gatherer}
    (hlen : dpg.dataPoints.length = lines.length) (hsize : dpg.priv.lineSize = memLineSize)
    (hcount : dpg.priv.lineCount = lines.length)
    (hpoints : ∀ i < lines.length, ∃ dp, dpg.dataPoints[i]? = some dp ∧ dp.name = .ptr ⟨.line i, 0⟩ ∧ dp.type = .ulong) :
    ∃ dpg', meminfoPoll (memContent lines) rest dpg = some (some dpg') ∧ ∀ (i : Nat) l, lines[i]? = some l →
      ∃ dp, dpg'.dataPoints[i]? = some dp ∧ dpg'.priv.text dp.name = l.key ∧ dp.type = .ulong ∧
        (DataUnion.dUlong dp.data).toNat = digitsVal l.digits * 1024 := by
  obtain ⟨hread, hholds⟩ := read_content h rest hsize hcount
  have hfits := lines_fit h hsize ((lines.map MemLine.text).map some)
  obtain ⟨vars', dict', hloop, hsize', hmax, -, hparsed⟩ :=
    loop_units (i := 0) hunits hfits (by have := lines_le h; omega) hholds .unset
  rw [← hsize'] at hparsed
  have hmax' := hmax hne
  rw [Nat.zero_add] at hmax'
  -- where the value of each line stands, as a pointer for each number
  have hvals : ∀ (j : Nat) l, lines[j]? = some l →
      dict'.val j = some ((fun j : Nat => (⟨.line j, ((lines[j]?).map MemLine.valueAt).getD 0⟩ : Ptr)) j) := by
    intro j l hj
    have hval := hparsed.val j l hj
    rw [Nat.zero_add] at hval
    simp only [hval, hj, Option.map_some, Option.getD_some]
  have hown : ∀ (j : Nat) dp, dpg.dataPoints[j]? = some dp → findDictIdx vars' (vars'.text dp.name) dict' = some (some j) ∧
      dict'.val j = some ((fun j : Nat => (⟨.line j, ((lines[j]?).map MemLine.valueAt).getD 0⟩ : Ptr)) j) := by
    intro j dp hdp
    have hj : j < lines.length := by
      have := (List.getElem?_eq_some_iff.mp hdp).1
      omega
    have hline : lines[j]? = some lines[j] := List.getElem?_eq_getElem hj
    obtain ⟨dp', hdp', hname, -⟩ := hpoints j hj
    obtain rfl := Option.some.inj (hdp.symm.trans hdp')
    have htext := hparsed.name j _ hline
    rw [Nat.zero_add] at htext
    refine ⟨?_, hvals j _ hline⟩
    rw [hname, Vars.text, Vars.cstr, htext]
    exact find_own h hparsed hmax' hline
  obtain ⟨points', hfold, hget⟩ := stores_own hown (Nat.le_refl _)
  refine ⟨{ dpg with dataPoints := points', priv := vars' }, ?_, ?_⟩
  · rw [meminfoPoll, if_neg (content_ne hne), hread]
    simp only [List.take_of_length_le (show ((lines.map MemLine.text).map List.length).length ≤
      dpg.dataPoints.length by simp [hlen]), hloop, hfold, Option.bind_eq_bind, Option.bind_some, Option.pure_def]
  · intro i l hi
    obtain ⟨hlt, -⟩ := List.getElem?_eq_some_iff.mp hi
    obtain ⟨dp, hdp, hname, htype⟩ := hpoints i hlt
    have htext := hparsed.name i l hi
    have hvalue := hparsed.value i l hi
    rw [Nat.zero_add] at htext hvalue
    have hpoint := hget i
    rw [hdp, Option.map_some, if_pos (by omega)] at hpoint
    have hfixed := NamesAux.storeKb_fixed dp (vars'.cstr ⟨.line i, ((lines[i]?).map MemLine.valueAt).getD 0⟩)
    refine ⟨_, hpoint, ?_, (congrArg (·.2.2.1) hfixed).trans htype, ?_⟩
    · have hsame : (storeKb dp (vars'.cstr ⟨.line i, ((lines[i]?).map MemLine.valueAt).getD 0⟩)).name = dp.name :=
        congrArg (·.1) hfixed
      rw [hsame, hname]
      exact htext
    · have hcstr : vars'.cstr ⟨.line i, ((lines[i]?).map MemLine.valueAt).getD 0⟩ = l.digits := by
        rw [hi]
        exact hvalue
      rw [hcstr]
      exact storeKb_digits l (h.values l (List.mem_of_getElem? hi)) dp

/-- A poll of a file with a line that has no unit is not defined in buffers that were cleared. -/
theorem poll_bare (h : MemFile lines) (hne : lines ≠ []) (hbare : ∃ l ∈ lines, l.unit = false) (rest : Image) {dpg : Gatherer}
    (hlen : dpg.dataPoints.length = lines.length) (hsize : dpg.priv.lineSize = memLineSize)
    (hcount : dpg.priv.lineCount = lines.length)
    (hzero : ∀ (k : Nat) l, lines[k]? = some l → ∀ j, l.text.length < j → dpg.priv.buf (.line k) j = 0) :
    meminfoPoll (memContent lines) rest dpg = none := by
  obtain ⟨hread, hholds⟩ := read_content h rest hsize hcount
  have hfits := lines_fit h hsize ((lines.map MemLine.text).map some)
  have hloop := loop_bare (i := 0) hbare hfits (by have := lines_le h; omega) hholds (fun k l hk j hj => ?_) .unset
  · rw [meminfoPoll, if_neg (content_ne hne), hread]
    simp only [List.take_of_length_le (show ((lines.map MemLine.text).map List.length).length ≤
      dpg.dataPoints.length by simp [hlen]), hloop, Option.bind_eq_bind, Option.bind_none]
  · have hstored : (dpg.priv.store .line 0 ((lines.map MemLine.text).map some)).buf (.line (0 + k)) =
        storeLine (dpg.priv.buf (.line (0 + k))) (some l.text) :=
      Vars.store_buf dpg.priv (fun _ _ h => BufId.line.inj h) (by simp [hk])
    rw [hstored, storeLine, Option.elim_some, Image.write_outside (.inr (by simp; omega)), Nat.zero_add]
    exact hzero k l hk j hj

/-- Cutting a line leaves zeros where they are. -/
theorem parse_zero {id : BufId} {len l j : Nat} (h : b j = 0) : (parseProcSameLineKeyAndVal b id len l dict).1 j = 0 := by
  unfold parseProcSameLineKeyAndVal
  split
  · exact h
  · split
    · exact h
    · simp [terminate, h]

/-- The loop leaves the bytes that are zero. -/
theorem sameLineLoop_zero (lens : List Nat) {id : BufId} {j : Nat} (h : vars.buf id j = 0) :
    (sameLineLoop lens i vars dict).1.buf id j = 0 := by
  induction lens generalizing i vars dict with
  | nil => exact h
  | cons len lens ih =>
    rw [sameLineLoop]
    refine ih ?_
    rw [Vars.setBuf_buf]
    by_cases hid : id = .line i
    · subst hid
      rw [Function.update_self]
      exact parse_zero h
    · rw [Function.update_of_ne hid]
      exact h

/-- A line with its unit has a space. -/
theorem space_of_unit (hu : l.unit = true) : 32 ∈ l.text := by
  simp [MemLine.text, MemLine.unitText, hu]

end MeminfoAux

open MeminfoAux in
/-- For a file with distinct names that fits the buffers: the poll stores the bytes of each line, whatever memory is allocated, if
and only if each line has its unit and no name has a byte of `0xff`. -/
theorem meminfo_in_bytes_iff (lines : List MemLine) (h : MemFile lines) :
    InBytes lines ↔ ∀ l ∈ lines, l.unit = true ∧ 255 ∉ l.name := by
  constructor
  · intro hbytes
    -- A line that is not counted has no data point.
    have hnames : ∀ l ∈ lines, 255 ∉ l.name := by
      intro l hl hname
      obtain ⟨i, hi⟩ := List.getElem?_of_mem hl
      obtain ⟨dpg, dpg', dp, hsearch, hpoll, hdp, -⟩ :=
        hbytes [] .zero .zero (.cleared memLineSize (getFileLineAmount (memContent lines))) (fun _ => .blank) rfl rfl i l hi
      have hlen : dpg.dataPoints.length = getFileLineAmount (memContent lines) :=
        (NamesAux.meminfo_shaped (fun _ => rfl) hsearch).points
      have hfixed := congrArg List.length (NamesAux.meminfo_polled hpoll).fixed
      rw [List.length_map, List.length_map, hlen] at hfixed
      have hle := lineAmount_le hi hname
      have hlt := (List.getElem?_eq_some_iff.mp hdp).1
      omega
    have hcount := lineAmount hnames
    refine fun l hl => ⟨?_, hnames l hl⟩
    by_contra hbare
    have hu : l.unit = false := by simpa using hbare
    have hne : lines ≠ [] := List.ne_nil_of_mem hl
    obtain ⟨i, hi⟩ := List.getElem?_of_mem hl
    obtain ⟨dpg, dpg', dp, hsearch, hpoll, -⟩ :=
      hbytes [] .zero .zero (.cleared memLineSize lines.length) (fun _ => .blank) rfl hcount.symm i l hi
    obtain ⟨hlen, hpriv, hsize, hcount⟩ := search_some h hne rfl rfl hsearch
    rw [poll_bare h hne ⟨l, hl, hu⟩ .zero hlen hsize hcount] at hpoll
    · cases hpoll
    · intro k l' hk j hj
      rw [hpriv]
      refine sameLineLoop_zero _ ?_
      have hstored : ((Vars.cleared memLineSize lines.length).store .line 0 ((lines.map MemLine.text).map some)).buf
          (.line (0 + k)) = storeLine ((Vars.cleared memLineSize lines.length).buf (.line (0 + k))) (some l'.text) :=
        Vars.store_buf _ (fun _ _ h => BufId.line.inj h) (by simp [hk])
      rw [Nat.zero_add] at hstored
      rw [hstored, storeLine, Option.elim_some, Image.write_outside (.inr (by simp; omega))]
      rfl
  · intro hlines name rest rest' vars junk hsize hcount i l hi
    rw [lineAmount fun l hl => (hlines l hl).2] at hcount
    have hunits : ∀ l ∈ lines, l.unit = true := fun l hl => (hlines l hl).1
    have hne : lines ≠ [] := by
      rintro rfl
      cases hi
    obtain ⟨dpg, hsearch, hpoints⟩ := search_names h hne (fun l hl => space_of_unit (hunits l hl)) name rest hsize hcount junk
    obtain ⟨hlen, -, hsize', hcount'⟩ := search_some h hne hsize hcount hsearch
    obtain ⟨dpg', hpoll, hvalues⟩ := poll_units h hne hunits rest' hlen hsize' hcount' hpoints
    obtain ⟨dp, hdp, hname, htype, hvalue⟩ := hvalues i l hi
    refine ⟨dpg, dpg', dp, hsearch, hpoll, hdp, hname, htype, ?_⟩
    rw [hvalue, MemLine.bytes, if_pos (hunits l (List.mem_of_getElem? hi))]

/-- The lines `F: 7 kB` and `Ba: 120 kB`, the latter with a tab, and `H: 5` without a unit. -/
def memFree : MemLine := ⟨[70], [32], [55], true, by simp, by decide, by simp [isBlank], by decide⟩

/-- A line `Ba\t 120 kB`. -/
def buffers : MemLine := ⟨[66, 97], [9, 32], [49, 50, 48], true, by simp, by decide, by simp [isBlank], by decide⟩

/-- A line `H 5` without a unit. -/
def hugePages : MemLine := ⟨[72], [32], [53], false, by simp, by decide, by simp [isBlank], by decide⟩

/-- The same values under a third name. -/
def cached : MemLine := ⟨[67], [32, 32], [49, 50, 48], true, by simp, by decide, by simp [isBlank], by decide⟩

/-- The rule for three lines with units. -/
theorem meminfo_in_bytes_free : InBytes [memFree, buffers, cached] :=
  (meminfo_in_bytes_iff [memFree, buffers, cached] ⟨by decide, by decide, by decide, by decide⟩).mpr (by decide)

/-- What the first data point holds after a search and a poll, when the line buffers were filled with a byte. -/
def memValue (lines : List MemLine) (fill : UInt8) : Option Nat :=
  (meminfoSearch [] (memContent lines) .zero ⟨memLineSize, lines.length, fun _ _ => fill⟩ fun _ => .blank).join.bind fun dpg =>
    (meminfoPoll (memContent lines) .zero dpg).join.bind fun dpg' => (dpg'.dataPoints[0]?).map fun dp =>
      (DataUnion.dUlong dp.data).toNat

/-- In line buffers that held spaces, `H: 5` is stored as 5120. -/
theorem not_meminfo_in_bytes : ¬∀ lines : List MemLine, MemFile lines → InBytes lines := by
  intro h
  have hvalue : memValue [hugePages] 32 = some 5120 := by decide +kernel
  obtain ⟨dpg, dpg', dp, hsearch, hpoll, hdp, -, -, hbytes⟩ :=
    h [hugePages] ⟨by decide, by decide, by decide, by decide⟩ [] .zero .zero ⟨memLineSize, 1, fun _ _ => 32⟩ (fun _ => .blank)
      rfl (by decide) 0 hugePages rfl
  have hheld : memValue [hugePages] 32 = some (DataUnion.dUlong dp.data).toNat := by
    unfold memValue
    rw [List.length_singleton, hsearch, Option.join_some, Option.bind_some, hpoll, Option.join_some, Option.bind_some, hdp]
    rfl
  rw [hvalue, hbytes] at hheld
  exact absurd hheld (by decide)

end Pixel845.Datatop
