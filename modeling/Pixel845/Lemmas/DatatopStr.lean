import Pixel845.Datatop.SameLine
import Pixel845.Lemmas.DatatopLines

/-!
# Helpers: cutting a line in place

A separator is found by the bytes before it, and a text between two terminators is read as it stands: a terminator that takes the
place of a separator leaves the strings around it alone (`terminate_has`).
-/

namespace Pixel845.Datatop

/-- A string as C sees it. -/
def cText (s : List UInt8) : List UInt8 := s.takeWhile (· != 0)

/-! ## Separators -/

/-- A text is its part up to the first space, the space and the rest, unless it has none. -/
theorem exists_space (s : List UInt8) : 32 ∉ s ∨ ∃ t rest, s = t ++ 32 :: rest ∧ 32 ∉ t := by
  by_cases h : 32 ∈ s
  · exact .inr (List.eq_append_cons_of_mem h)
  · exact .inl h

/-- A byte that does not occur is unlike all that do. -/
theorem ne_of_not_mem {c : UInt8} {s : List UInt8} (h : c ∉ s) : ∀ x ∈ s, (x != c) = true := by
  intro x hx
  rw [bne_iff_ne]
  rintro rfl
  exact h hx

/-- What stands before the first place of a byte. -/
theorem takeWhile_ne {c : UInt8} {s : List UInt8} (rest : List UInt8) (h : c ∉ s) :
    (s ++ c :: rest).takeWhile (· != c) = s := by
  rw [List.takeWhile_append_of_pos (ne_of_not_mem h)]
  simp

/-- What stands from there on. -/
theorem dropWhile_ne {c : UInt8} {s : List UInt8} (rest : List UInt8) (h : c ∉ s) :
    (s ++ c :: rest).dropWhile (· != c) = c :: rest := by
  rw [List.dropWhile_append_of_pos (ne_of_not_mem h)]
  simp

/-- The first of the separators of a text. -/
theorem positions_head? {m : Image} {i : Nat} {s : List UInt8} (hm : m.Has i s) :
    (positions (· == 32) m s.length i).head? =
      if 32 ∈ s then some (i + (s.takeWhile (· != 32)).length) else none := by
  induction s generalizing i with
  | nil => rfl
  | cons c s ih =>
    obtain ⟨hc, hs⟩ := Image.has_cons.mp hm
    rw [List.length_cons, positions, hc, List.takeWhile_cons]
    by_cases h : c = 32
    · simp [h]
    · have hne : (32 : UInt8) ≠ c := fun heq => h heq.symm
      simp only [h, hne, beq_iff_eq, if_false, bne_iff_ne, ne_eq, not_false_eq_true, if_true, List.mem_cons, false_or, ih hs,
        List.length_cons, Nat.add_assoc, Nat.add_comm 1]

theorem positions_congr {sep : UInt8 → Bool} {m m' : Image} {n i : Nat} (h : ∀ j, i ≤ j → j < i + n → m' j = m j) :
    positions sep m' n i = positions sep m n i := by
  induction n generalizing i with
  | zero => rfl
  | succ n ih =>
    rw [positions, positions, h i (by omega) (by omega), ih fun j hj hj' => h j (by omega) (by omega)]

/-- A scan stops at the first byte of its kind. -/
theorem scanFor_has (test : UInt8 → Bool) {m : Image} (n : Nat) {i : Nat} {s rest : List UInt8} {c : UInt8}
    (hm : m.Has i (s ++ c :: rest)) (hs : ∀ x ∈ s, test x = false) (hc : test c = true) (hn : s.length < n) :
    scanFor test m n i = some (i + s.length) := by
  induction s generalizing n i with
  | nil =>
    cases n with
    | zero => exact absurd hn (Nat.not_lt_zero _)
    | succ n =>
      rw [List.nil_append, Image.has_cons] at hm
      rw [scanFor, positions, hm.1, if_pos hc]
      rfl
  | cons x s ih =>
    cases n with
    | zero => exact absurd hn (Nat.not_lt_zero _)
    | succ n =>
      rw [List.cons_append, Image.has_cons] at hm
      have hx := hs x List.mem_cons_self
      have hrec := ih n hm.2 (fun y hy => hs y (List.mem_cons_of_mem x hy)) (by simpa using hn)
      rw [scanFor] at hrec
      rw [scanFor, positions, hm.1, hx, if_neg (by simp), hrec, List.length_cons]
      congr 1
      omega

/-- A scan looks no further than where it stops. -/
theorem scanFor_congr_until (test : UInt8 → Bool) {m m' : Image} {n i e : Nat} (h : ∀ j, i ≤ j → j ≤ e → m' j = m j)
    (he : test (m e)) (hie : i ≤ e) (hen : e < i + n) : scanFor test m' n i = scanFor test m n i ∧
      ∃ k, scanFor test m n i = some k ∧ i ≤ k ∧ k ≤ e := by
  induction n generalizing i with
  | zero => omega
  | succ n ih =>
    rw [scanFor, scanFor, positions, positions, h i (Nat.le_refl i) hie]
    split
    case isTrue => exact ⟨rfl, i, rfl, Nat.le_refl i, hie⟩
    case isFalse htest =>
      have hne : i ≠ e := fun heq => htest (heq ▸ he)
      obtain ⟨heq, k, hk, hik, hke⟩ := ih (i := i + 1) (fun j hj hj' => h j (by omega) hj') (by omega) (by omega)
      exact ⟨heq, k, hk, by omega, hke⟩

/-- A scan over bytes of no kind that it looks for leaves the buffer. -/
theorem scanFor_none {test : UInt8 → Bool} {m : Image} {n i : Nat} (h : ∀ j, i ≤ j → j < i + n → test (m j) = false) :
    scanFor test m n i = none := by
  induction n generalizing i with
  | zero => rfl
  | succ n ih =>
    have hrec := ih (i := i + 1) fun j hj hj' => h j (by omega) (by omega)
    rw [scanFor] at hrec ⊢
    rw [positions, h i (Nat.le_refl i) (by omega), if_neg (by simp), hrec]

/-! ## Terminators -/

theorem terminate_nil (m : Image) : terminate m [] = m := by
  funext j
  simp [terminate]

/-- Strings can be ended in two goes. -/
theorem terminate_terminate (m : Image) (ps qs : List Nat) : terminate (terminate m ps) qs = terminate m (ps ++ qs) := by
  funext i
  simp only [terminate, List.mem_append]
  by_cases hq : i ∈ qs
  · simp [hq]
  · simp [hq]

/-- A text that no terminator touches, with one behind it. -/
theorem terminate_has {m : Image} {ps : List Nat} {off : Nat} {s : List UInt8} (hm : m.Has off s)
    (hin : ∀ i ∈ ps, i < off ∨ off + s.length ≤ i) (hend : off + s.length ∈ ps ∨ m (off + s.length) = 0) :
    (terminate m ps).Has off (s ++ [0]) := by
  rw [Image.has_append, Image.has_cons]
  refine ⟨hm.congr fun i hi hi' => ?_, ?_, Image.has_nil _ _⟩
  · have hni : i ∉ ps := by
      intro hmem
      have := hin i hmem
      omega
    rw [terminate, if_neg hni]
  · rw [terminate]
    split
    case isTrue => rfl
    case isFalse hni => exact hend.resolve_left hni

/-! ## Dictionaries -/

theorem setFrom_nil (entries : Nat → Option Ptr) (k : Nat) : setFrom entries k [] = entries := by
  funext i
  simp [setFrom]

/-- Entries that are set one behind the other. -/
theorem setFrom_cons (entries : Nat → Option Ptr) (k : Nat) (p : Ptr) (ps : List Ptr) :
    setFrom (Function.update entries k (some p)) (k + 1) ps = setFrom entries k (p :: ps) := by
  funext i
  unfold setFrom
  rcases Nat.lt_trichotomy i k with h | rfl | h
  · rw [if_neg (by omega), if_neg (by omega), Function.update_of_ne (by omega)]
  · rw [if_neg (by omega), if_pos (Nat.le_refl i), Function.update_self, Nat.sub_self]
    rfl
  · rw [if_pos (by omega), if_pos (by omega), Function.update_of_ne (by omega), show i - k = i - (k + 1) + 1 by omega,
      List.getElem?_cons_succ]

/-- Setting one entry. -/
theorem setFrom_single (entries : Nat → Option Ptr) (k : Nat) (p : Ptr) :
    setFrom entries k [p] = Function.update entries k (some p) := by
  rw [← setFrom_cons, setFrom_nil]

theorem setFrom_single_self (entries : Nat → Option Ptr) (k : Nat) (p : Ptr) : setFrom entries k [p] k = some p := by
  rw [setFrom_single, Function.update_self]

theorem setFrom_single_of_lt (entries : Nat → Option Ptr) {j k : Nat} (p : Ptr) (h : j < k) :
    setFrom entries k [p] j = entries j := by
  rw [setFrom_single, Function.update_of_ne (by omega)]

/-- A name is found at the first number that it has. -/
theorem findDictIdx_idxOf {vars : Vars} {dict : Dict} {names : List (List UInt8)} {str : List UInt8}
    (hmax : dict.max = some names.length)
    (hkey : ∀ (q : Nat) name, names[q]? = some name → ∃ p, dict.key q = some p ∧ vars.cstr p = name) (hmem : str ∈ names) :
    findDictIdx vars str dict = some (some (names.idxOf str)) := by
  have hloop : ∀ (ns : List (List UInt8))
      i, (∀ (q : Nat) name, ns[q]? = some name → ∃ p, dict.key (i + q) = some p ∧ vars.cstr p = name) → str ∈ ns →
      findDictIdxLoop vars str dict ns.length i = some (some (i + ns.idxOf str)) := by
    intro ns
    induction ns with
    | nil => simp
    | cons name ns ih =>
      intro i hkey hmem
      obtain ⟨p, hp, hname⟩ := hkey 0 name rfl
      rw [Nat.add_zero] at hp
      simp only [List.length_cons, findDictIdxLoop, hp, Option.bind_eq_bind, Option.bind_some, hname]
      by_cases heq : name = str
      · rw [if_pos heq, heq, List.idxOf_cons_self]
        rfl
      · rw [if_neg heq, ih (i + 1) (fun q n hn => ?_) (List.mem_of_ne_of_mem (Ne.symm heq) hmem), List.idxOf_cons_ne _ heq,
          show i + 1 + ns.idxOf str = i + (ns.idxOf str + 1) by omega]
        rw [show i + 1 + q = i + (q + 1) by omega]
        exact hkey (q + 1) n (by simpa using hn)
  rw [findDictIdx, hmax, Option.bind_eq_bind, Option.bind_some,
    hloop names 0 (fun q n hn => by simpa using hkey q n hn) hmem, Nat.zero_add]

/-- What holds from a number on, of a list and its numbers. -/
theorem forall_getElem?_cons {α : Type} {P : Nat → α → Prop} {a : α} {l : List α} {i : Nat} (hhead : P i a)
    (htail : ∀ (k : Nat) x, l[k]? = some x → P (i + 1 + k) x) : ∀ (k : Nat) x, (a :: l)[k]? = some x → P (i + k) x := by
  intro k x hk
  cases k with
  | zero =>
    obtain rfl := Option.some.inj hk
    exact hhead
  | succ k =>
    rw [show i + (k + 1) = i + 1 + k by omega]
    exact htail k x (by simpa using hk)

/-! ## Line buffers -/

/-- A string in another buffer is as it was. -/
theorem Vars.cstr_setBuf_of_ne {vars : Vars} {id : BufId} {b : Image} {p : Ptr} (h : p.buf ≠ id) :
    (vars.setBuf id b).cstr p = vars.cstr p := by
  rw [Vars.cstr, Vars.cstr, Vars.setBuf_buf, Function.update_of_ne h, Vars.setBuf_lineSize]

/-- A string in the buffer that was set. -/
theorem Vars.cstr_setBuf_self (vars : Vars) (id : BufId) (b : Image) (off : Nat) :
    (vars.setBuf id b).cstr ⟨id, off⟩ = b.cstr vars.lineSize off := by
  rw [Vars.cstr, Vars.setBuf_buf, Function.update_self, Vars.setBuf_lineSize]

/-- The lines stand in the line buffers, from one of them on. -/
def Vars.Holds (vars : Vars) (i : Nat) (lines : List (List UInt8)) : Prop :=
  ∀ j line, lines[j]? = some line → line ≠ [] → (vars.buf (.line (i + j))).Has 0 (line ++ [0])

/-- The buffer of the first line holds it. -/
theorem Vars.Holds.head {vars : Vars} {i : Nat} {line : List UInt8} {lines : List (List UInt8)} (h : vars.Holds i (line :: lines))
    (hne : line ≠ []) : (vars.buf (.line i)).Has 0 (line ++ [0]) := h 0 line rfl hne

/-- The buffers of the other lines hold them, whatever the first one has. -/
theorem Vars.Holds.tail {vars : Vars} {i : Nat} {line : List UInt8} {lines : List (List UInt8)} (h : vars.Holds i (line :: lines))
    (b : Image) : (vars.setBuf (.line i) b).Holds (i + 1) lines := by
  intro j l hl hne
  have hid : BufId.line (i + 1 + j) ≠ .line i := by
    intro heq
    have := BufId.line.inj heq
    omega
  rw [Vars.setBuf_buf, Function.update_of_ne hid, show i + 1 + j = i + (j + 1) by omega]
  exact h (j + 1) l (by simpa using hl) hne

end Pixel845.Datatop
