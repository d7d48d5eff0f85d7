import Pixel845.Datatop.DualLine
import Pixel845.Datatop.Dev
import Pixel845.Lemmas.DatatopStr
import Pixel845.Lemmas.DatatopStore

/-!
# Helpers: what a poll leaves of the line buffers

Every poll reads lines into the buffers and cuts them in place, one after the other (`Vars.rewrite`). The string at an offset of a
line that was read is the one of the line as a buffer of its own (`textAt`); behind the line the buffer is what it was.
-/

namespace Pixel845.Datatop

/-- The line buffers after `k` of them, from number `i` on, were rewritten in place. -/
def Vars.rewrite (vars : Vars) (arr : Nat → BufId) (f : Nat → Image → Image) : Nat → Nat → Vars
  | 0, _ => vars
  | k + 1, i => (vars.setBuf (arr i) (f i (vars.buf (arr i)))).rewrite arr f k (i + 1)

variable {vars : Vars} {arr : Nat → BufId} {f : Nat → Image → Image}

@[simp] theorem Vars.rewrite_lineSize (k i : Nat) : (vars.rewrite arr f k i).lineSize = vars.lineSize := by
  induction k generalizing vars i with
  | zero => rfl
  | succ k ih => rw [Vars.rewrite, ih, Vars.setBuf_lineSize]

@[simp] theorem Vars.rewrite_lineCount (k i : Nat) : (vars.rewrite arr f k i).lineCount = vars.lineCount := by
  induction k generalizing vars i with
  | zero => rfl
  | succ k ih => rw [Vars.rewrite, ih, Vars.setBuf_lineCount]

/-- A buffer that is not rewritten. -/
theorem Vars.rewrite_buf_of_ne {k i : Nat} {id : BufId} (h : ∀ n, i ≤ n → n < i + k → arr n ≠ id) :
    (vars.rewrite arr f k i).buf id = vars.buf id := by
  induction k generalizing vars i with
  | zero => rfl
  | succ k ih =>
    rw [Vars.rewrite, ih fun n hn hn' => h n (by omega) (by omega), Vars.setBuf_buf,
      Function.update_of_ne (h i (Nat.le_refl i) (by omega)).symm]

/-- A buffer that is rewritten. -/
theorem Vars.rewrite_buf (harr : Function.Injective arr) {k i n : Nat} (hn : i ≤ n) (hn' : n < i + k) :
    (vars.rewrite arr f k i).buf (arr n) = f n (vars.buf (arr n)) := by
  induction k generalizing vars i with
  | zero => omega
  | succ k ih =>
    rw [Vars.rewrite]
    by_cases h : i = n
    · subst h
      rw [Vars.rewrite_buf_of_ne fun j hj _ heq => by have := harr heq; omega, Vars.setBuf_buf, Function.update_self]
    · rw [ih (by omega) (by omega), Vars.setBuf_buf, Function.update_of_ne fun heq => h (harr heq).symm]

/-! ## The loops -/

/-- Different lines have different buffers. -/
theorem line_injective : Function.Injective BufId.line := fun _ _ h => BufId.line.inj h

/-- Different lines have different second buffers. -/
theorem line2_injective : Function.Injective BufId.line2 := fun _ _ h => BufId.line2.inj h

/-- What `dt_parse_proc_dictionary` leaves of a line, if both lines of its section have content. -/
def dualCut (lens : List Nat) (n : Nat) (b : Image) : Image :=
  if lens.getD (2 * (n / 2)) 0 < 1 ∨ lens.getD (2 * (n / 2) + 1) 0 < 1 then b else terminate b (spaces b (lens.getD n 0))

/-- Making the dictionaries cuts both lines of each section. -/
theorem dualDicts_vars (lens : List Nat) (k i : Nat) (vars : Vars) :
    (dualDicts lens k i vars).1 = vars.rewrite .line (dualCut lens) (2 * k) (2 * i) := by
  induction k generalizing i vars with
  | zero => rfl
  | succ k ih =>
    have hdouble : 2 * (k + 1) = 2 * k + 1 + 1 := by omega
    have hnext : 2 * i + 1 + 1 = 2 * (i + 1) := by omega
    rw [dualDicts, hdouble, Vars.rewrite, Vars.rewrite, hnext]
    simp only [ih]
    congr 1
    have heven : 2 * (2 * i / 2) = 2 * i := by omega
    have hodd : 2 * ((2 * i + 1) / 2) = 2 * i := by omega
    have hne : BufId.line (2 * i + 1) ≠ .line (2 * i) := by
      intro h
      have := BufId.line.inj h
      omega
    rw [Vars.setBuf_buf, Function.update_of_ne hne]
    simp only [dualCut, heven, hodd, parseProcDictionary]
    split
    · rfl
    · rfl

/-- What `dt_parse_for_prefix` leaves of a line. -/
def prefixCut (lens2 : List Nat) (k : Nat) (b : Image) : Image :=
  if lens2.getD (2 * k) 0 < 1 then b
  else terminate (terminate b (spaces b (lens2.getD (2 * k) 0)))
    (positions (· == 58) (terminate b (spaces b (lens2.getD (2 * k) 0))) (lens2.getD (2 * k) 0) 0)

/-- Making the dictionaries of prefixes cuts the header lines. -/
theorem dualPrefixes_vars (lens2 : List Nat) (k i : Nat) (vars : Vars) :
    (dualPrefixes lens2 k i vars).1 = vars.rewrite (fun k => .line2 (2 * k)) (prefixCut lens2) k i := by
  induction k generalizing i vars with
  | zero => rfl
  | succ k ih =>
    rw [dualPrefixes, Vars.rewrite]
    simp only [ih]
    congr 2
    simp only [prefixCut, parseForPrefix]
    split
    · rfl
    · rfl

/-- What `dt_parse_proc_same_line_key_and_val` leaves of a line. -/
def sameCut (lens : List Nat) (n : Nat) (b : Image) : Image :=
  terminate b (if n < dictSize then (positions (· == 32) b (lens.getD n 0) 0).head?.toList else [])

/-- The loop over single lines cuts each of them. -/
theorem sameLineLoop_vars {lens : List Nat} (all : List Nat) {i : Nat} (h : all.drop i = lens) (vars : Vars) (dict : Dict) :
    (sameLineLoop lens i vars dict).1 = vars.rewrite .line (sameCut all) lens.length i := by
  induction lens generalizing i vars dict with
  | nil => rfl
  | cons len lens ih =>
    have hlen : all.getD i 0 = len := by
      rw [List.getD_eq_getElem?_getD, ← List.head?_drop, h]
      rfl
    have htail : all.drop (i + 1) = lens := by rw [← List.tail_drop, h, List.tail_cons]
    rw [sameLineLoop, List.length_cons, Vars.rewrite]
    simp only [ih htail]
    congr 2
    rw [sameCut, hlen]
    by_cases hlt : len < 1
    · have hzero : len = 0 := by omega
      subst hzero
      simp [parseProcSameLineKeyAndVal, positions, terminate_nil]
    · rw [parseProcSameLineKeyAndVal, if_neg hlt]
      split
      case h_1 heq =>
        split
        case isTrue hi =>
          rw [if_pos hi] at heq
          simp [heq, terminate_nil]
        case isFalse => simp [terminate_nil]
      case h_2 j js heq =>
        split
        case isTrue hi =>
          rw [if_pos hi] at heq
          simp [heq]
        case isFalse hi =>
          rw [if_neg hi] at heq
          cases heq

/-- What `dt_meminfo_parse` leaves of a line. -/
def memCut (size : Nat) (lens : List Nat) (n : Nat) (b : Image) : Image :=
  ((meminfoParse size b (.line n) (lens.getD n 0) n .unset).map Prod.fst).getD b

/-- What is left of a line does not depend on the dictionary. -/
theorem meminfoParse_fst (size : Nat) (b : Image) (id : BufId) (len l : Nat) (dict dict' : Dict) :
    (meminfoParse size b id len l dict).map Prod.fst = (meminfoParse size b id len l dict').map Prod.fst := by
  simp only [meminfoParse]
  split
  case isTrue => rfl
  case isFalse =>
    split
    case isTrue => rfl
    case isFalse =>
      cases scanFor isBlank b len 0 with
      | none => rfl
      | some i =>
        simp only [Option.bind_eq_bind]
        cases scanFor (!isBlank ·) (terminate b [i]) (size - (i + 1)) (i + 1) with
        | none => rfl
        | some val =>
          simp only [Option.bind_some]
          cases scanFor (· == 32) (terminate b [i]) (size - val) val <;> rfl

/-- The loop over the lines of `/proc/meminfo` cuts each of them. -/
theorem meminfoLoop_vars {lens : List Nat} (all : List Nat) {i : Nat} (h : all.drop i = lens) {vars vars' : Vars}
    {dict dict' : Dict} (hloop : meminfoLoop lens i vars dict = some (vars', dict')) :
    vars' = vars.rewrite .line (memCut vars.lineSize all) lens.length i := by
  induction lens generalizing i vars dict with
  | nil =>
    obtain ⟨rfl, -⟩ := Prod.mk.inj (Option.some.inj hloop)
    rfl
  | cons len lens ih =>
    have hlen : all.getD i 0 = len := by
      rw [List.getD_eq_getElem?_getD, ← List.head?_drop, h]
      rfl
    have htail : all.drop (i + 1) = lens := by rw [← List.tail_drop, h, List.tail_cons]
    simp only [meminfoLoop, Option.bind_eq_bind, Option.bind_eq_some_iff] at hloop
    obtain ⟨⟨line, dict1⟩, hparse, hloop⟩ := hloop
    have hfst := meminfoParse_fst vars.lineSize (vars.buf (.line i)) (.line i) len i dict .unset
    rw [hparse, Option.map_some] at hfst
    rw [ih htail hloop, List.length_cons, Vars.rewrite, memCut, hlen, ← hfst, Option.getD_some, Vars.setBuf_lineSize]

/-- Each line of a loop that is defined was parsed. -/
theorem meminfoLoop_isSome {lens : List Nat} (all : List Nat) {i : Nat} (h : all.drop i = lens) {vars vars' : Vars}
    {dict dict' : Dict} (hloop : meminfoLoop lens i vars dict = some (vars', dict')) {n : Nat} (hn : i ≤ n)
    (hn' : n < i + lens.length) :
    (meminfoParse vars.lineSize (vars.buf (.line n)) (.line n) (all.getD n 0) n .unset).isSome := by
  induction lens generalizing i vars dict with
  | nil =>
    rw [List.length_nil] at hn'
    omega
  | cons len lens ih =>
    have hlen : all.getD i 0 = len := by
      rw [List.getD_eq_getElem?_getD, ← List.head?_drop, h]
      rfl
    have htail : all.drop (i + 1) = lens := by rw [← List.tail_drop, h, List.tail_cons]
    rw [List.length_cons] at hn'
    simp only [meminfoLoop, Option.bind_eq_bind, Option.bind_eq_some_iff] at hloop
    obtain ⟨⟨line, dict1⟩, hparse, hloop⟩ := hloop
    by_cases heq : n = i
    · subst heq
      have hfst := meminfoParse_fst vars.lineSize (vars.buf (.line n)) (.line n) len n dict .unset
      rw [hparse, Option.map_some, eq_comm, Option.map_eq_some_iff] at hfst
      obtain ⟨r, hr, -⟩ := hfst
      rw [hlen, hr]
      rfl
    · have hrec := ih htail hloop (by omega) (by omega)
      rwa [Vars.setBuf_lineSize, Vars.setBuf_buf, Function.update_of_ne fun h => heq (BufId.line.inj h)] at hrec

/-- A name points to the start of its line. -/
theorem parseSameLine_key (b : Image) (id : BufId) (len l : Nat) (dict : Dict) :
    (parseProcSameLineKeyAndVal b id len l dict).2.key = dict.key ∨
      l < dictSize ∧ (parseProcSameLineKeyAndVal b id len l dict).2.key = setFrom dict.key l [⟨id, 0⟩] := by
  unfold parseProcSameLineKeyAndVal
  split
  case isTrue => exact .inl rfl
  case isFalse =>
    dsimp only
    split
    case h_1 => exact .inl rfl
    case h_2 hps =>
      refine .inr ⟨?_, rfl⟩
      by_contra hge
      rw [if_neg hge] at hps
      cases hps

/-- The names that the loop over the lines sets. -/
theorem sameLineLoop_key {P : Ptr → Prop} {lens : List Nat} {i : Nat} {vars : Vars} {dict : Dict}
    (hline : ∀ n < dictSize, P ⟨.line n, 0⟩) (h : ∀ k p, dict.key k = some p → P p) :
    ∀ k p, (sameLineLoop lens i vars dict).2.key k = some p → P p := by
  induction lens generalizing i vars dict with
  | nil => exact h
  | cons len lens ih =>
    have hstep : ∀ k p, (parseProcSameLineKeyAndVal (vars.buf (.line i)) (.line i) len i dict).2.key k = some p → P p := by
      intro k p hk
      rcases parseSameLine_key (vars.buf (.line i)) (.line i) len i dict with heq | ⟨hi, heq⟩
      · rw [heq] at hk
        exact h k p hk
      · rw [heq, setFrom] at hk
        split at hk
        · cases hki : k - i with
          | zero =>
            rw [hki] at hk
            obtain rfl := Option.some.inj hk
            exact hline i hi
          | succ j =>
            rw [hki] at hk
            exact h k p hk
        · exact h k p hk
    exact ih hstep

/-- What `dt_dev_parse` leaves of a line. -/
def devCut (size : Nat) (lens : List Nat) (n : Nat) (b : Image) : Image :=
  ((devParse size b (.line (n + 2)) (lens.getD n 0) n .unset).map Prod.fst).getD b

/-- The loop over the interfaces cuts each of their lines. -/
theorem devPollLoop_vars {lens : List Nat} (all : List Nat) {i : Nat} (h : all.drop i = lens) {vars vars' : Vars}
    {dicts : List Dict} (hloop : devPollLoop lens i vars = some (vars', dicts)) :
    vars' = vars.rewrite (fun n => .line (n + 2)) (devCut vars.lineSize all) lens.length i := by
  induction lens generalizing i vars dicts with
  | nil =>
    obtain ⟨rfl, -⟩ := Prod.mk.inj (Option.some.inj hloop)
    rfl
  | cons len lens ih =>
    have hlen : all.getD i 0 = len := by
      rw [List.getD_eq_getElem?_getD, ← List.head?_drop, h]
      rfl
    have htail : all.drop (i + 1) = lens := by rw [← List.tail_drop, h, List.tail_cons]
    simp only [devPollLoop, Option.bind_eq_bind, Option.bind_eq_some_iff, Option.pure_def, Option.some.injEq] at hloop
    obtain ⟨⟨line, dict1⟩, hparse, ⟨vars1, dicts1⟩, hloop, heq⟩ := hloop
    obtain ⟨rfl, -⟩ := Prod.mk.inj heq
    rw [ih htail hloop, List.length_cons, Vars.rewrite, devCut, hlen, hparse, Option.map_some, Option.getD_some,
      Vars.setBuf_lineSize]

/-! ## Strings of a line that was read -/

/-- The string at an offset of a line that was cut as a buffer of its own. -/
def textAt (line : List UInt8) (cut : Image → Image) (off : Nat) : List UInt8 :=
  (cut (Image.ofBytes line)).cstr (line.length + 1) off

/-- A string ends at the first terminator; what stands behind it does not matter. -/
theorem cstr_stop {m m' : Image} {size size' off e : Nat} (h : ∀ i, off ≤ i → i ≤ e → m' i = m i) (he : m e = 0) (hoff : off ≤ e)
    (hsize : e < size) (hsize' : e < size') : m'.cstr size' off = m.cstr size off := by
  have hlen : off + (m.read off (e - off)).length = e := by
    rw [Image.read_length]
    omega
  have hm : m.Has off (m.read off (e - off) ++ [0]) := by
    rw [Image.has_append, hlen, Image.has_cons]
    exact ⟨Image.has_read .., he, Image.has_nil ..⟩
  have hm' : m'.Has off (m.read off (e - off) ++ [0]) :=
    hm.congr fun i hi hi' => h i hi (by
      rw [List.length_append, List.length_singleton] at hi'
      omega)
  rw [hm.cstr_eq (by omega), hm'.cstr_eq (by omega)]

/-- A cut that looks at the line only, and leaves what stands behind it alone. -/
structure LocalCut (line : List UInt8) (cut : Image → Image) : Prop where
  inside : ∀ b, (∀ i ≤ line.length, b i = Image.ofBytes line i) → ∀ i ≤ line.length, cut b i = cut (Image.ofBytes line) i
  behind : ∀ b, (∀ i ≤ line.length, b i = Image.ofBytes line i) → ∀ i, line.length < i → cut b i = b i
  ends : cut (Image.ofBytes line) line.length = 0

theorem ofBytes_length (line : List UInt8) : Image.ofBytes line line.length = 0 := by
  rw [Image.ofBytes, Image.write_outside (by omega), Image.zero]

/-- A line that was read, up to its terminator. -/
theorem storeLine_inside (b : Image) (line : List UInt8) :
    ∀ i ≤ line.length, storeLine b (some line) i = Image.ofBytes line i := by
  intro i hi
  have h1 := Image.has_append.mp (Image.has_write b 0 (line ++ [0]))
  have h2 := Image.has_write Image.zero 0 line
  by_cases hlt : i < line.length
  · have e1 := h1.1.getElem hlt
    have e2 := h2.getElem hlt
    rw [Nat.zero_add] at e1 e2
    exact e1.trans e2.symm
  · have heq : i = line.length := by omega
    subst heq
    rw [ofBytes_length]
    have e1 := (Image.has_cons.mp h1.2).1
    rwa [Nat.zero_add] at e1

/-- Behind the terminator of a line its buffer is as it was. -/
theorem storeLine_behind (b : Image) (line : List UInt8) {i : Nat} (hi : line.length < i) : storeLine b (some line) i = b i :=
  Image.write_outside (by simp; omega)

/-- The string at an offset after a line was read and cut. -/
theorem cut_cstr_eq {line : List UInt8} {cut : Image → Image} (h : LocalCut line cut) (b : Image) {size : Nat} (off : Nat)
    (hsize : line.length < size) :
    (cut (storeLine b (some line))).cstr size off = if off ≤ line.length then textAt line cut off else b.cstr size off := by
  have hin := storeLine_inside b line
  split
  case isTrue hoff =>
    exact cstr_stop (fun i _ hi => h.inside _ hin i hi) h.ends hoff (by omega) hsize
  case isFalse hoff =>
    rw [Image.cstr, Image.cstr, Image.read_congr fun i hi _ => ?_]
    rw [h.behind _ hin i (by omega), storeLine_behind b line (by omega)]

/-- Cutting at offsets that depend on the line only. -/
theorem LocalCut.terminate {line : List UInt8} {ends : Image → List Nat}
    (hends : ∀ b, (∀ i ≤ line.length, b i = Image.ofBytes line i) → ends b = ends (Image.ofBytes line))
    (hle : ∀ e ∈ ends (Image.ofBytes line), e ≤ line.length) : LocalCut line fun b => Datatop.terminate b (ends b) := by
  refine ⟨?_, ?_, ?_⟩
  · intro b hb i hi
    simp only [Datatop.terminate, hends b hb, hb i hi]
  · intro b hb i hi
    have hni : i ∉ ends (Image.ofBytes line) := by
      intro hmem
      have := hle i hmem
      omega
    simp only [Datatop.terminate, hends b hb, if_neg hni]
  · simp only [Datatop.terminate, ofBytes_length, ite_self]

/-- No cut is a local one. -/
theorem LocalCut.id (line : List UInt8) : LocalCut line fun b => b :=
  ⟨fun _ hb => hb, fun _ _ _ _ => rfl, ofBytes_length line⟩

/-! ## The cuts look at the line only -/

/-- A position that is found is in the stretch and has a separator. -/
theorem mem_positions {sep : UInt8 → Bool} {m : Image} {n i e : Nat} (h : e ∈ positions sep m n i) : i ≤ e ∧ e < i + n := by
  induction n generalizing i with
  | zero => simp [positions] at h
  | succ n ih =>
    rw [positions] at h
    split at h
    · rcases List.mem_cons.mp h with rfl | h
      · omega
      · have := ih h
        omega
    · have := ih h
      omega

/-- A space that is found is in the line. -/
theorem mem_spaces {m : Image} {len e : Nat} (h : e ∈ spaces m len) : e < len := by
  have := mem_positions (List.mem_of_mem_take h)
  omega

theorem spaces_congr {line : List UInt8} {b : Image} (hb : ∀ i ≤ line.length, b i = Image.ofBytes line i) :
    spaces b line.length = spaces (Image.ofBytes line) line.length := by
  rw [spaces, spaces, positions_congr fun i _ hi => hb i (by omega)]

/-- The cut of a line of a section changes the line alone. -/
theorem dualCut_local {line : List UInt8} {lens : List Nat} {n : Nat} (hlen : lens.getD n 0 = line.length) :
    LocalCut line (dualCut lens n) := by
  by_cases h : lens.getD (2 * (n / 2)) 0 < 1 ∨ lens.getD (2 * (n / 2) + 1) 0 < 1
  · have heq : dualCut lens n = fun b => b := by
      funext b
      rw [dualCut, if_pos h]
    rw [heq]
    exact .id line
  · have heq : dualCut lens n = fun b => terminate b (spaces b line.length) := by
      funext b
      rw [dualCut, if_neg h, hlen]
    rw [heq]
    exact .terminate (fun b hb => spaces_congr hb) fun e he => Nat.le_of_lt (mem_spaces he)

/-- The cut of a header line changes the line alone. -/
theorem prefixCut_local {line : List UInt8} {lens : List Nat} {k : Nat} (hlen : lens.getD (2 * k) 0 = line.length) :
    LocalCut line (prefixCut lens k) := by
  by_cases h : lens.getD (2 * k) 0 < 1
  · have heq : prefixCut lens k = fun b => b := by
      funext b
      rw [prefixCut, if_pos h]
    rw [heq]
    exact .id line
  · have heq : prefixCut lens k = fun b => terminate b (spaces b line.length ++
        positions (· == 58) (terminate b (spaces b line.length)) line.length 0) := by
      funext b
      rw [prefixCut, if_neg h, hlen, terminate_terminate]
    rw [heq]
    refine .terminate (fun b hb => ?_) fun e he => ?_
    · rw [spaces_congr hb]
      congr 1
      refine positions_congr ?_
      intro i _ hi
      rw [terminate, terminate, hb i (by omega)]
    · rcases List.mem_append.mp he with he | he
      · exact Nat.le_of_lt (mem_spaces he)
      · have := mem_positions he
        omega

/-- The cut of a single line changes the line alone. -/
theorem sameCut_local {line : List UInt8} {lens : List Nat} {n : Nat} (hlen : lens.getD n 0 = line.length) :
    LocalCut line (sameCut lens n) := by
  have heq : sameCut lens n = fun b =>
      terminate b (if n < dictSize then (positions (· == 32) b line.length 0).head?.toList else []) := by
    funext b
    rw [sameCut, hlen]
  rw [heq]
  refine .terminate (fun b hb => ?_) fun e he => ?_
  · rw [positions_congr fun i _ hi => hb i (by omega)]
  · split at he
    · rw [Option.mem_toList] at he
      have := mem_positions (List.mem_of_mem_head? he)
      omega
    · cases he

/-- The counters of a line are found in the line. -/
theorem devWords_congr {m m' : Image} {size len : Nat} (fuel j : Nat) (h : ∀ i ≤ len, m' i = m i) (hlen : m len = 0)
    (hsize : len < size) : devWords m' size len fuel j = devWords m size len fuel j ∧ (devWords m size len fuel j).isSome := by
  induction fuel generalizing j with
  | zero => exact ⟨rfl, rfl⟩
  | succ fuel ih =>
    rw [devWords, devWords]
    split
    case isFalse => exact ⟨rfl, rfl⟩
    case isTrue hj =>
      rw [h j (by omega)]
      split
      case isTrue => exact ih _
      case isFalse =>
        obtain ⟨heq, k, hk, -⟩ := scanFor_congr_until endsCounter (n := size - j) (i := j) (e := len)
          (fun i _ hi => h i hi) (by rw [hlen]; rfl) (by omega) (by omega)
        obtain ⟨hrec, hsome⟩ := ih (k + 1)
        obtain ⟨words, hwords⟩ := Option.isSome_iff_exists.mp hsome
        rw [heq, hk]
        simp only [Option.bind_eq_bind, Option.bind_some, hrec, hwords, Option.pure_def, Option.isSome_some, and_self]

/-- The terminators that `dt_dev_parse` writes. -/
def devCutEnds (size len : Nat) (b : Image) : List Nat :=
  let colon := (scanFor (· == 58) b len 0).toList.map (· + 1)
  colon ++ (((devWords (terminate b colon) size len len ((scanFor (· == 58) b len 0).elim 0 (· + 2))).getD []).map
    Prod.snd).filter (· < len)

/-- What `dt_dev_parse` leaves of a line that ends in the buffer. -/
theorem devCut_eq {size n : Nat} {lens : List Nat} {b : Image} (hend : b (lens.getD n 0) = 0) (hsize : lens.getD n 0 < size) :
    devCut size lens n b = terminate b (if n < dictSize then devCutEnds size (lens.getD n 0) b else []) := by
  obtain ⟨-, i, hi, -⟩ := scanFor_congr_until (!isBlank ·) (m := b) (n := size) (i := 0) (e := lens.getD n 0)
    (fun _ _ _ => rfl) (by rw [hend]; rfl) (Nat.zero_le _) (by omega)
  rw [devCut, devParse, hi]
  by_cases hn : n < dictSize
  · have hline : terminate b ((scanFor (· == 58) b (lens.getD n 0) 0).toList.map (· + 1)) (lens.getD n 0) = 0 := by
      rw [terminate, hend, ite_self]
    obtain ⟨words, hwords⟩ := Option.isSome_iff_exists.mp
      (devWords_congr (lens.getD n 0) ((scanFor (· == 58) b (lens.getD n 0) 0).elim 0 (· + 2)) (fun _ _ => rfl) hline hsize).2
    simp only [Option.bind_eq_bind, Option.bind_some, if_neg (Nat.not_le.mpr hn), if_pos hn, hwords, Option.pure_def,
      Option.map_some, Option.getD_some, terminate_terminate, devCutEnds]
  · simp [Nat.not_lt.mp hn, hn, terminate_nil]

/-- The cut of an interface changes its line alone. -/
theorem devCut_local {line : List UInt8} {size n : Nat} {lens : List Nat} (hlen : lens.getD n 0 = line.length)
    (hsize : line.length < size) : LocalCut line (devCut size lens n) := by
  have hlocal : LocalCut line fun b => terminate b (if n < dictSize then devCutEnds size line.length b else []) := by
    refine .terminate (fun b hb => ?_) fun e he => ?_
    · have hcolon : scanFor (· == 58) b line.length 0 = scanFor (· == 58) (Image.ofBytes line) line.length 0 := by
        rw [scanFor, scanFor, positions_congr fun i _ hi => hb i (by omega)]
      have hwords : ∀ colons fuel j, devWords (terminate b colons) size line.length fuel j =
          devWords (terminate (Image.ofBytes line) colons) size line.length fuel j := fun colons fuel j =>
        (devWords_congr fuel j (fun i hi => by rw [terminate, terminate, hb i hi])
          (by rw [terminate, ofBytes_length, ite_self]) hsize).1
      simp only [devCutEnds, hcolon, hwords]
    · split at he
      · rcases List.mem_append.mp he with he | he
        · obtain ⟨c, hc, rfl⟩ := List.mem_map.mp he
          rw [Option.mem_toList] at hc
          have := mem_positions (List.mem_of_mem_head? hc)
          omega
        · have := (List.mem_filter.mp he).2
          simp only [decide_eq_true_eq] at this
          omega
      · cases he
  have heq : ∀ b, (∀ i ≤ line.length, b i = Image.ofBytes line i) →
      devCut size lens n b = terminate b (if n < dictSize then devCutEnds size line.length b else []) := by
    intro b hb
    rw [devCut_eq (by rw [hlen, hb _ (Nat.le_refl _), ofBytes_length]) (by omega), hlen]
  have hself := heq (Image.ofBytes line) fun _ _ => rfl
  refine ⟨?_, ?_, ?_⟩
  · intro b hb i hi
    rw [heq b hb, hself]
    exact hlocal.inside b hb i hi
  · intro b hb i hi
    rw [heq b hb]
    exact hlocal.behind b hb i hi
  · rw [hself]
    exact hlocal.ends

/-- What stands before the first blank of a line. -/
def beforeBlank (line : List UInt8) (b : Image) : Image := terminate b (positions isBlank b line.length 0).head?.toList

/-- The cut before the first blank changes the line alone. -/
theorem beforeBlank_local (line : List UInt8) : LocalCut line (beforeBlank line) := by
  refine .terminate (fun b hb => ?_) fun e he => ?_
  · rw [positions_congr fun i _ hi => hb i (by omega)]
  · rw [Option.mem_toList] at he
    have := mem_positions (List.mem_of_mem_head? he)
    omega

/-- `dt_meminfo_parse` leaves of the start of a line what stands before its first blank. -/
theorem memCut_cstr {line : List UInt8} {size n : Nat} {lens : List Nat} (b : Image) (hlen : lens.getD n 0 = line.length)
    (hsize : line.length < size)
    (hparse : (meminfoParse size (storeLine b (some line)) (.line n) (lens.getD n 0) n .unset).isSome) :
    (memCut size lens n (storeLine b (some line))).cstr size 0 = textAt line (beforeBlank line) 0 := by
  have hin := storeLine_inside b line
  have htext := cut_cstr_eq (beforeBlank_local line) b 0 hsize
  rw [if_pos (Nat.zero_le _)] at htext
  rw [← htext]
  obtain ⟨r, hr⟩ := Option.isSome_iff_exists.mp hparse
  rw [memCut, hr, Option.map_some, Option.getD_some, beforeBlank]
  rw [meminfoParse, hlen] at hr
  by_cases hzero : line.length < 1
  · rw [if_pos hzero] at hr
    obtain rfl := Option.some.inj hr
    rw [show line.length = 0 by omega]
    simp [positions, terminate_nil]
  · rw [if_neg hzero] at hr
    split at hr
    · cases hr
    · simp only [scanFor] at hr
      cases hblank : (positions isBlank (storeLine b (some line)) line.length 0).head? with
      | none =>
        rw [hblank] at hr
        obtain rfl := Option.some.inj hr
        simp [terminate_nil]
      | some i =>
        rw [hblank] at hr
        simp only [Option.bind_eq_bind, Option.bind_eq_some_iff, Option.pure_def, Option.some.injEq] at hr
        obtain ⟨val, hval, e, he, rfl⟩ := hr
        have hi := mem_positions (List.mem_of_mem_head? hblank)
        have hval' := mem_positions (List.mem_of_mem_head? hval)
        have he' := mem_positions (List.mem_of_mem_head? he)
        -- The second terminator stands behind the first.
        refine cstr_stop (e := i) (fun j _ hj => ?_) (by simp [terminate]) (Nat.zero_le i) (by omega) (by omega)
        have hne : j ≠ e := by omega
        simp [terminate, hne]

end Pixel845.Datatop
