import Pixel845.Lib.Bytes
import Pixel845.Lib.Prog

/-!
# Chains of routing attributes

A routing attribute is a header of four bytes, its total length and its type, and a payload, padded to a multiple of four; a
chain is one attribute behind the other, and a payload may be a chain itself. `Rta` is an attribute that its length field can
express, and `Rta.encode` is the chain of a list of them.

A chain is read by a loop that goes from one header to the next as the lengths in the headers say (`rtaLoop`). The bytes it reads
are the operations of a `Reader`, so that one can ask where they lie. `Chain m n stop off len hs` says that the loop stays below
`n` and which headers it visits; it is the whole of what the loop does: it exists exactly when every byte read lies below `n`
(`rtaLoop_inBounds`), and then the loop folds over its headers (`Chain.run`).
-/

namespace Pixel845

/-- A number rounded up to a multiple of four. -/
def align4 (n : Nat) : Nat := (n + 3) / 4 * 4

/-- Padding makes no length smaller. -/
theorem le_align4 (n : Nat) : n ≤ align4 n := by
  simp only [align4]
  omega

/-- Padding adds fewer than four bytes. -/
theorem align4_lt (n : Nat) : align4 n < n + 4 := by
  simp only [align4]
  omega

/-- A padded length is a multiple of four. -/
theorem align4_dvd (n : Nat) : 4 ∣ align4 n := ⟨(n + 3) / 4, by simp only [align4]; omega⟩

/-- A multiple of four is its own padded length. -/
theorem align4_of_dvd {n : Nat} (h : 4 ∣ n) : align4 n = n := by
  simp only [align4]
  omega

/-- A length within a capacity that is a multiple of four is within it padded. -/
theorem align4_le_of_dvd {n c : Nat} (hc : 4 ∣ c) (h : n ≤ c) : align4 n ≤ c := by
  simp only [align4]
  omega

/-! ## Attributes -/

/-- An attribute whose length, header included, fits its length field. -/
structure Rta where
  type : UInt16
  payload : List UInt8
  fits : 4 + payload.length < 2 ^ 16

namespace Rta

/-- The length that the header of the attribute says. -/
def len (a : Rta) : Nat := 4 + a.payload.length

/-- The header of the attribute. -/
def header (a : Rta) : List UInt8 := leBytes 2 a.len ++ leBytes 2 a.type.toNat

/-- The attribute in a chain, with its padding. -/
def bytes (a : Rta) : List UInt8 := a.header ++ a.payload ++ List.replicate (align4 a.len - a.len) 0

/-- The chain of a list of attributes. -/
def encode (as : List Rta) : List UInt8 := as.flatMap bytes

/-- An attribute whose payload is a chain: its length covers exactly its children. -/
def nest (type : UInt16) (cs : List Rta) (fits : 4 + (encode cs).length < 2 ^ 16) : Rta := ⟨type, encode cs, fits⟩

variable {a : Rta} {as bs : List Rta}

@[simp] theorem header_length (a : Rta) : a.header.length = 4 := by simp [header]

@[simp] theorem bytes_length (a : Rta) : a.bytes.length = align4 a.len := by
  have := le_align4 a.len
  simp only [bytes, List.length_append, header_length, List.length_replicate]
  simp only [len] at this ⊢
  omega

@[simp] theorem encode_nil : encode [] = [] := rfl

@[simp] theorem encode_cons (a : Rta) (as : List Rta) : encode (a :: as) = a.bytes ++ encode as := rfl

/-- Lists of attributes are encoded one behind the other. -/
theorem encode_append (as bs : List Rta) : encode (as ++ bs) = encode as ++ encode bs := List.flatMap_append

/-- Every list of attributes takes a multiple of four bytes. -/
theorem encode_length_dvd (as : List Rta) : 4 ∣ (encode as).length := by
  induction as with
  | nil => exact Nat.dvd_zero 4
  | cons a as ih =>
    rw [encode_cons, List.length_append, bytes_length]
    exact Nat.dvd_add (align4_dvd _) ih

/-- The attribute without payload that starts a nested one. -/
def start (type : UInt16) : Rta := ⟨type, [], by decide⟩

/-- A nested attribute that has just been started is its header. -/
theorem start_bytes (type : UInt16) : (start type).bytes = leBytes 2 4 ++ leBytes 2 type.toNat := by
  simp [bytes, header, len, start, align4]

@[simp] theorem start_len (type : UInt16) : align4 (start type).len = 4 := by
  simp [start, len, align4]

/-- What a memory that holds the attribute holds in the header and behind it. -/
theorem has_bytes {m : Image} {off : Nat} (h : m.Has off a.bytes) :
    m.nat off 2 = a.len ∧ m.nat (off + 2) 2 = a.type.toNat ∧ m.Has (off + 4) a.payload := by
  rw [bytes, header, Image.has_append, Image.has_append, Image.has_append] at h
  obtain ⟨⟨⟨hl, ht⟩, hp⟩, -⟩ := h
  rw [leBytes_length] at ht
  simp only [List.length_append, leBytes_length] at hp
  refine ⟨?_, ?_, hp⟩
  · rw [hl.nat_eq]
    exact Nat.mod_eq_of_lt a.fits
  · rw [ht.nat_eq]
    exact Nat.mod_eq_of_lt a.type.toNat_lt

end Rta

/-! ## Readers -/

/-- A little-endian number that a program reads from memory: its offset and its width in bytes. -/
structure Load where
  off : Nat
  width : Nat
deriving DecidableEq

/-- A program that reads memory. -/
abbrev Reader (α : Type) := Prog Load (fun _ => Nat) α

/-- The number a load finds. -/
def Image.load (m : Image) (l : Load) : Nat := m.nat l.off l.width

/-- Read the number of `width` bytes at an offset. -/
def rd (off width : Nat) : Reader Nat := Prog.call ⟨off, width⟩

/-- Every byte that a program reads has an offset below `n`. -/
def Reader.InBounds {α : Type} (m : Image) (n : Nat) (p : Reader α) : Prop := ∀ l ∈ p.trace m.load, l.off + l.width ≤ n

namespace Reader

variable {α β : Type} {m m' : Image} {n : Nat}

@[simp] theorem inBounds_ret (a : α) : InBounds m n (.ret a) := by simp [InBounds]

@[simp] theorem inBounds_rd (off width : Nat) : InBounds m n (rd off width) ↔ off + width ≤ n := by
  simp [InBounds, rd]

/-- Two readers in sequence stay within the bytes exactly if each of them does. -/
@[simp] theorem inBounds_bind (p : Reader α) (f : α → Reader β) :
    InBounds m n (p >>= f) ↔ InBounds m n p ∧ InBounds m n (f (p.run m.load)) := by
  simp only [InBounds, Prog.trace_bind, List.mem_append, or_imp, forall_and]

@[simp] theorem run_rd (off width : Nat) : (rd off width).run m.load = m.nat off width := rfl

/-- What lies behind the bytes read makes no difference. -/
theorem InBounds.agree {p : Reader α} (h : p.InBounds m n) (hm : ∀ i, i < n → m' i = m i) :
    ∀ l ∈ p.trace m.load, m'.load l = m.load l := by
  intro l hl
  have := h l hl
  exact Image.nat_congr (fun i _ _ => hm i (by omega))

theorem InBounds.congr {p : Reader α} (h : p.InBounds m n) (hm : ∀ i, i < n → m' i = m i) : p.InBounds m' n := by
  intro l hl
  rw [p.trace_congr (h.agree hm)] at hl
  exact h l hl

end Reader

/-! ## The loop over a chain -/

section Loop

variable {σ : Type} (stop : Nat → Bool) (upd : Nat → Nat → σ → σ)

/-- The loop over a chain with a bound on the number of rounds. -/
def rtaLoopGo : Nat → Nat → Int → σ → Reader σ
  | 0, _, _, s => pure s
  | fuel + 1, off, len, s =>
    if len < 4 then pure s
    else do
      let rtaLen ← rd off 2
      if rtaLen < 4 ∨ len < rtaLen then pure s
      else do
        let type ← rd (off + 2) 2
        if stop type then pure (upd off type s)
        else rtaLoopGo fuel (off + align4 rtaLen) (len - align4 rtaLen) (upd off type s)

/-- The loop over the chain of `len` bytes at an offset: `upd` takes in the offset and the type of every attribute whose length
is that of a header at least and not more than what is left, up to the first one whose type is a stop. Every round takes four
bytes or more, so that there are no more than `len` rounds. -/
def rtaLoop (off : Nat) (len : Int) (s : σ) : Reader σ := rtaLoopGo stop upd len.toNat off len s

/-- Any fuel that covers the length gives the same result. -/
theorem rtaLoopGo_fuel {fuel fuel' off : Nat} {len : Int} {s : σ} (h : len.toNat ≤ fuel) (h' : len.toNat ≤ fuel') :
    rtaLoopGo stop upd fuel off len s = rtaLoopGo stop upd fuel' off len s := by
  induction fuel generalizing fuel' off len s with
  | zero =>
    have : len < 4 := by omega
    cases fuel' with
    | zero => rfl
    | succ fuel' => simp [rtaLoopGo, this]
  | succ fuel ih =>
    cases fuel' with
    | zero =>
      have : len < 4 := by omega
      simp [rtaLoopGo, this]
    | succ fuel' =>
      simp only [rtaLoopGo]
      split
      · rfl
      · congr 1
        funext rtaLen
        split
        · rfl
        · congr 1
          funext type
          split
          · rfl
          · have := le_align4 rtaLen
            exact ih (by omega) (by omega)

/-- One round of the loop. -/
theorem rtaLoop_eq (off : Nat) (len : Int) (s : σ) :
    rtaLoop stop upd off len s =
      (if len < 4 then pure s
      else do
        let rtaLen ← rd off 2
        if rtaLen < 4 ∨ len < rtaLen then pure s
        else do
          let type ← rd (off + 2) 2
          if stop type then pure (upd off type s)
          else rtaLoop stop upd (off + align4 rtaLen) (len - align4 rtaLen) (upd off type s)) := by
  rw [rtaLoop]
  obtain hl | ⟨fuel, hf⟩ : len.toNat = 0 ∨ ∃ fuel, len.toNat = fuel + 1 := by
    cases len.toNat with
    | zero => exact .inl rfl
    | succ fuel => exact .inr ⟨fuel, rfl⟩
  · have : len < 4 := by omega
    simp [hl, rtaLoopGo, this]
  · rw [hf, rtaLoopGo]
    split
    · rfl
    · congr 1
      funext rtaLen
      split
      · rfl
      · congr 1
        funext type
        split
        · rfl
        · have := le_align4 rtaLen
          exact rtaLoopGo_fuel stop upd (by omega) (Nat.le_refl _)

end Loop

/-! ## Chains -/

/-- An attribute that the loop visits: the offset of its header, its length and its type. -/
structure Header where
  off : Nat
  len : Nat
  type : Nat
deriving DecidableEq

/-- The loop over the `len` bytes at an offset reads only below `n` and visits these headers. -/
inductive Chain (m : Image) (n : Nat) (stop : Nat → Bool) : Nat → Int → List Header → Prop
  /-- Too little is left for a header. -/
  | short {off : Nat} {len : Int} (hlen : len < 4) : Chain m n stop off len []
  /-- The length in the header is not the length of an attribute that fits. -/
  | bad {off : Nat} {len : Int} (hlen : 4 ≤ len) (hin : off + 2 ≤ n) (hbad : m.nat off 2 < 4 ∨ len < m.nat off 2) :
      Chain m n stop off len []
  /-- The attribute ends the search. -/
  | last {off : Nat} {len : Int} (hlen : 4 ≤ len) (hin : off + 4 ≤ n) (h4 : 4 ≤ m.nat off 2) (hfit : m.nat off 2 ≤ len)
      (hstop : stop (m.nat (off + 2) 2) = true) : Chain m n stop off len [⟨off, m.nat off 2, m.nat (off + 2) 2⟩]
  /-- The next attribute follows. -/
  | cons {off : Nat} {len : Int} {hs : List Header} (hlen : 4 ≤ len) (hin : off + 4 ≤ n) (h4 : 4 ≤ m.nat off 2)
      (hfit : m.nat off 2 ≤ len) (hstop : stop (m.nat (off + 2) 2) = false)
      (hrest : Chain m n stop (off + align4 (m.nat off 2)) (len - align4 (m.nat off 2)) hs) :
      Chain m n stop off len (⟨off, m.nat off 2, m.nat (off + 2) 2⟩ :: hs)

section Chain

variable {m m' : Image} {n off : Nat} {len : Int} {stop : Nat → Bool} {hs hs' : List Header} {σ : Type}

/-- The loop folds over the headers of its chain. -/
theorem Chain.run (h : Chain m n stop off len hs) (upd : Nat → Nat → σ → σ) (s : σ) :
    (rtaLoop stop upd off len s).run m.load = hs.foldl (fun t x => upd x.off x.type t) s := by
  induction h generalizing s with
  | short hlen =>
    rw [rtaLoop_eq, if_pos hlen]
    rfl
  | bad hlen hin hbad =>
    rw [rtaLoop_eq, if_neg (not_lt.mpr hlen)]
    simp [hbad]
  | last hlen hin h4 hfit hstop =>
    rw [rtaLoop_eq, if_neg (not_lt.mpr hlen)]
    simp [not_lt.mpr h4, not_lt.mpr hfit, hstop]
  | cons hlen hin h4 hfit hstop hrest ih =>
    rw [rtaLoop_eq, if_neg (not_lt.mpr hlen)]
    simp [not_lt.mpr h4, not_lt.mpr hfit, hstop, ih]

/-- A chain keeps the loop below its bound. -/
theorem Chain.inBounds (h : Chain m n stop off len hs) (upd : Nat → Nat → σ → σ) (s : σ) :
    (rtaLoop stop upd off len s).InBounds m n := by
  induction h generalizing s with
  | short hlen =>
    rw [rtaLoop_eq, if_pos hlen]
    exact Reader.inBounds_ret s
  | bad hlen hin hbad =>
    rw [rtaLoop_eq, if_neg (not_lt.mpr hlen)]
    simp [hbad, hin]
  | @last o len hlen hin h4 hfit hstop =>
    have : o + 2 ≤ n ∧ o + 2 + 2 ≤ n := by omega
    rw [rtaLoop_eq, if_neg (not_lt.mpr hlen)]
    simp [not_lt.mpr h4, not_lt.mpr hfit, hstop, this]
  | @cons o len hs hlen hin h4 hfit hstop hrest ih =>
    have : o + 2 ≤ n ∧ o + 2 + 2 ≤ n := by omega
    rw [rtaLoop_eq, if_neg (not_lt.mpr hlen)]
    simp [not_lt.mpr h4, not_lt.mpr hfit, hstop, this, ih]

/-- A loop that reads only below the bound has a chain. -/
theorem exists_chain_of_inBounds {upd : Nat → Nat → σ → σ} {s : σ}
    (h : (rtaLoop stop upd off len s).InBounds m n) : ∃ hs, Chain m n stop off len hs := by
  generalize hk : len.toNat = k
  induction k using Nat.strong_induction_on generalizing off len s with
  | _ k ih =>
    by_cases hlen : len < 4
    · exact ⟨[], .short hlen⟩
    rw [rtaLoop_eq, if_neg hlen, Reader.inBounds_bind, Reader.inBounds_rd, Reader.run_rd] at h
    obtain ⟨hin, h⟩ := h
    by_cases hbad : m.nat off 2 < 4 ∨ len < m.nat off 2
    · exact ⟨[], .bad (by omega) hin hbad⟩
    rw [if_neg hbad, Reader.inBounds_bind, Reader.inBounds_rd, Reader.run_rd] at h
    obtain ⟨hin, h⟩ := h
    by_cases hstop : stop (m.nat (off + 2) 2) = true
    · exact ⟨_, .last (by omega) (by omega) (by omega) (by omega) hstop⟩
    rw [if_neg hstop] at h
    have := le_align4 (m.nat off 2)
    obtain ⟨hs, hrest⟩ := ih (len - align4 (m.nat off 2)).toNat (by omega) h rfl
    exact ⟨_, .cons (by omega) (by omega) (by omega) (by omega) (by simpa using hstop) hrest⟩

/-- The bytes that the loop reads lie below the bound exactly when its way through the chain does. -/
theorem rtaLoop_inBounds (upd : Nat → Nat → σ → σ) (s : σ) :
    (rtaLoop stop upd off len s).InBounds m n ↔ ∃ hs, Chain m n stop off len hs :=
  ⟨exists_chain_of_inBounds, fun ⟨_, h⟩ => h.inBounds upd s⟩

/-- The headers of a chain are what memory holds. -/
theorem Chain.mem_header (h : Chain m n stop off len hs) : ∀ x ∈ hs, m.nat x.off 2 = x.len := by
  induction h with
  | short | bad => simp
  | last => simp
  | cons hlen hin h4 hfit hstop hrest ih =>
    rintro x (_ | ⟨_, hx⟩)
    · rfl
    · exact ih x hx

/-- A search ends with the first attribute whose type it looks for, or visits none of them. -/
theorem Chain.search {t : Nat} (h : Chain m n (fun u => u == t) off len hs) :
    (∀ x ∈ hs, x.type ≠ t) ∨ ∃ pre x, hs = pre ++ [x] ∧ x.type = t ∧ ∀ y ∈ pre, y.type ≠ t := by
  induction h with
  | short | bad => exact .inl (by simp)
  | last hlen hin h4 hfit hstop => exact .inr ⟨[], _, rfl, by simpa using hstop, by simp⟩
  | cons hlen hin h4 hfit hstop hrest ih =>
    have hne : m.nat (_ + 2) 2 ≠ t := beq_eq_false_iff_ne.mp hstop
    rcases ih with hnone | ⟨pre, x, rfl, hx, hpre⟩
    · refine .inl ?_
      rintro y (_ | ⟨_, hy⟩)
      · exact hne
      · exact hnone y hy
    · refine .inr ⟨_ :: pre, x, rfl, hx, ?_⟩
      rintro y (_ | ⟨_, hy⟩)
      · exact hne
      · exact hpre y hy

/-- When all of the bytes are there, the loop stays below the bound. -/
theorem exists_chain (m : Image) (stop : Nat → Bool) (h : 4 ≤ len → off + len ≤ n) : ∃ hs, Chain m n stop off len hs := by
  generalize hk : len.toNat = k
  induction k using Nat.strong_induction_on generalizing off len with
  | _ k ih =>
    by_cases hlen : len < 4
    · exact ⟨[], .short hlen⟩
    by_cases hbad : m.nat off 2 < 4 ∨ len < m.nat off 2
    · exact ⟨[], .bad (by omega) (by omega) hbad⟩
    by_cases hstop : stop (m.nat (off + 2) 2) = true
    · exact ⟨_, .last (by omega) (by omega) (by omega) (by omega) hstop⟩
    by_cases hfit : align4 (m.nat off 2) ≤ len
    · have := le_align4 (m.nat off 2)
      have hin : (off + align4 (m.nat off 2) : Nat) + (len - align4 (m.nat off 2)) ≤ n := by omega
      obtain ⟨hs, hrest⟩ := ih _ (by omega) (fun _ => hin) rfl
      exact ⟨_, .cons (by omega) (by omega) (by omega) (by omega) (by simpa using hstop) hrest⟩
    · -- the padding of the last attribute is cut off, and nothing is left behind it
      have hrest : Chain m n stop (off + align4 (m.nat off 2)) (len - align4 (m.nat off 2)) [] := .short (by omega)
      exact ⟨_, .cons (by omega) (by omega) (by omega) (by omega) (by simpa using hstop) hrest⟩

/-- The attributes of a chain lie in it. -/
theorem Chain.mem_inside (h : Chain m n stop off len hs) :
    ∀ x ∈ hs, off ≤ x.off ∧ x.off + 4 ≤ n ∧ 4 ≤ x.len ∧ (x.off + x.len : Int) ≤ off + len := by
  induction h with
  | short | bad => simp
  | last hlen hin h4 hfit hstop =>
    simp only [List.mem_singleton, forall_eq]
    omega
  | @cons o len hs hlen hin h4 hfit hstop hrest ih =>
    have hle := le_align4 (m.nat o 2)
    rintro x (_ | ⟨_, hx⟩)
    · refine ⟨Nat.le_refl _, hin, h4, ?_⟩
      simp only
      omega
    · obtain ⟨h1, h2, h3, h4⟩ := ih x hx
      refine ⟨by omega, h2, h3, ?_⟩
      push_cast at h4
      omega

/-- When all of the bytes of a chain are there, so are those of its attributes. -/
theorem Chain.payload_inside (h : Chain m n stop off len hs) (hin : 4 ≤ len → off + len ≤ n) {x : Header} (hx : x ∈ hs) :
    ((x.off + 4 : Nat) : Int) + (x.len - 4) ≤ n := by
  obtain ⟨h1, -, h3, h4⟩ := h.mem_inside x hx
  have := hin (by omega)
  omega

/-! ## The chain of an encoding -/

/-- The headers of a list of attributes in a chain, up to the first one whose type is a stop. -/
def Rta.headers (stop : Nat → Bool) : Nat → List Rta → List Header
  | _, [] => []
  | off, a :: as =>
    ⟨off, a.len, a.type.toNat⟩ :: if stop a.type.toNat then [] else headers stop (off + align4 a.len) as

/-- The loop over the chain of a list of attributes visits their headers. -/
theorem Rta.chain_encode {as : List Rta} (h : m.Has off (encode as)) (hn : off + (encode as).length ≤ n) :
    Chain m n stop off (encode as).length (headers stop off as) := by
  induction as generalizing off with
  | nil => exact .short (by simp)
  | cons a as ih =>
    rw [encode_cons, List.length_append, bytes_length] at hn ⊢
    rw [encode_cons, Image.has_append, bytes_length] at h
    obtain ⟨hb, hrest⟩ := h
    obtain ⟨hl, ht, -⟩ := has_bytes hb
    have hle := le_align4 a.len
    have h4 : 4 ≤ a.len := Nat.le_add_right 4 _
    rw [headers, ← hl, ← ht]
    rw [← hl] at hle h4 hn hrest
    cases hstop : stop (m.nat (off + 2) 2) with
    | true => exact .last (by omega) (by omega) h4 (by omega) hstop
    | false =>
      have hc := ih hrest (by omega)
      rw [if_neg (by simp)]
      refine .cons (by omega) (by omega) h4 (by omega) hstop ?_
      rwa [show ((align4 (m.nat off 2) + (encode as).length : Nat) : Int) - align4 (m.nat off 2) = (encode as).length by
        push_cast
        omega]

end Chain

end Pixel845
