import Mathlib.Tactic.Ring
import Mathlib.Data.List.TakeWhile

/-!
# Bytes in memory

Memory is seen from some address on as an `Image`: the byte at each offset. A range of it is read as a list of bytes or as a
little-endian number, and a list of bytes is written over it. `Image.Has` says that a list of bytes stands at an offset; it is
how a layout is described, one part behind the other (`Image.has_append`).
-/

namespace Pixel845

/-! ## Little-endian numbers -/

/-- The `w` bytes of a number, lowest first. What does not fit into them is dropped. -/
def leBytes : Nat → Nat → List UInt8
  | 0, _ => []
  | w + 1, v => UInt8.ofNat v :: leBytes w (v / 256)

/-- The number that bytes stand for, lowest first. -/
def leNat : List UInt8 → Nat
  | [] => 0
  | b :: bs => b.toNat + 256 * leNat bs

@[simp] theorem leBytes_length (w v : Nat) : (leBytes w v).length = w := by
  induction w generalizing v with
  | zero => rfl
  | succ w ih => rw [leBytes, List.length_cons, ih]

/-- Reading back the bytes of a number gives what fits in them. -/
theorem leNat_leBytes (w v : Nat) : leNat (leBytes w v) = v % 256 ^ w := by
  induction w generalizing v with
  | zero => rw [leBytes, leNat, Nat.pow_zero, Nat.mod_one]
  | succ w ih =>
    have hb : (UInt8.ofNat v).toNat = v % 256 := by simp
    rw [leBytes, leNat, ih, hb, Nat.pow_succ', Nat.mod_mul]

/-- The number of some bytes is below the power of 256 of their length. -/
theorem leNat_lt (bs : List UInt8) : leNat bs < 256 ^ bs.length := by
  induction bs with
  | nil => simp [leNat]
  | cons b bs ih =>
    have hb : b.toNat < 256 := b.toNat_lt
    rw [leNat, List.length_cons, Nat.pow_succ]
    omega

/-! ## Images -/

/-- Memory from some address on. -/
abbrev Image := Nat → UInt8

namespace Image

/-- The `n` bytes at an offset. -/
def read (m : Image) (off n : Nat) : List UInt8 := (List.range n).map (fun i => m (off + i))

/-- The number in the `w` bytes at an offset. -/
def nat (m : Image) (off w : Nat) : Nat := leNat (m.read off w)

/-- Memory after bytes were copied to an offset. -/
def write (m : Image) (off : Nat) (bs : List UInt8) : Image :=
  fun i => if off ≤ i ∧ i < off + bs.length then bs.getD (i - off) 0 else m i

/-- Memory after `n` bytes at an offset were cleared. -/
def clear (m : Image) (off n : Nat) : Image := fun i => if off ≤ i ∧ i < off + n then 0 else m i

/-- Cleared memory. -/
def zero : Image := fun _ => 0

/-- Cleared memory with bytes at its start. -/
def ofBytes (bs : List UInt8) : Image := zero.write 0 bs

/-- The string at an offset of a buffer of `size` bytes. -/
def cstr (m : Image) (size off : Nat) : List UInt8 := (m.read off (size - off)).takeWhile (· != 0)

/-- The bytes stand at the offset. -/
def Has (m : Image) (off : Nat) (bs : List UInt8) : Prop := m.read off bs.length = bs

variable {m m' : Image} {off off' n n' : Nat} {bs bs' : List UInt8}

@[simp] theorem read_length (m : Image) (off n : Nat) : (m.read off n).length = n := by
  simp [read]

theorem read_congr (h : ∀ i, off ≤ i → i < off + n → m' i = m i) : m'.read off n = m.read off n := by
  refine List.map_congr_left ?_
  intro i hi
  have := List.mem_range.mp hi
  exact h (off + i) (by omega) (by omega)

theorem nat_congr (h : ∀ i, off ≤ i → i < off + n → m' i = m i) : m'.nat off n = m.nat off n := by
  rw [nat, nat, read_congr h]

/-- Reading a stretch is reading its two parts. -/
theorem read_add (m : Image) (off a b : Nat) : m.read off (a + b) = m.read off a ++ m.read (off + a) b := by
  rw [read, List.range_add, List.map_append, List.map_map]
  simp only [read, Function.comp_def, Nat.add_assoc]

/-- Where bytes are written, memory holds them. -/
theorem write_inside {i : Nat} (h : i < bs.length) : m.write off bs (off + i) = bs.getD i 0 := by
  simp [write, h]

/-- Where no bytes are written, memory is as it was. -/
theorem write_outside {i : Nat} (h : i < off ∨ off + bs.length ≤ i) : m.write off bs i = m i := by
  have : ¬(off ≤ i ∧ i < off + bs.length) := by omega
  simp [write, this]

@[simp] theorem write_nil (m : Image) (off : Nat) : m.write off [] = m := by
  funext i
  exact write_outside (by simp; omega)

/-- Reading a range that a write does not touch. -/
theorem read_write_outside (h : off' + n ≤ off ∨ off + bs.length ≤ off') : (m.write off bs).read off' n = m.read off' n :=
  read_congr (fun i _ _ => write_outside (by omega))

/-- A number next to the bytes written is as it was. -/
theorem nat_write_outside (h : off' + n ≤ off ∨ off + bs.length ≤ off') : (m.write off bs).nat off' n = m.nat off' n := by
  rw [nat, nat, read_write_outside h]

/-! ## Layouts -/

@[simp] theorem has_nil (m : Image) (off : Nat) : m.Has off [] := rfl

/-- Two stretches one behind the other are one. -/
theorem has_append : m.Has off (bs ++ bs') ↔ m.Has off bs ∧ m.Has (off + bs.length) bs' := by
  rw [Has, List.length_append, read_add]
  constructor
  · intro h
    exact List.append_inj h (read_length ..)
  · rintro ⟨h, h'⟩
    rw [h, h']

/-- A byte of what stands at an offset. -/
theorem Has.getElem (h : m.Has off bs) {i : Nat} (hi : i < bs.length) : m (off + i) = bs[i] := by
  have hget := congrArg (fun l => l[i]?) h
  simpa [read, hi] using hget

/-- A stretch is its first byte and the others. -/
theorem has_cons {c : UInt8} : m.Has off (c :: bs) ↔ m off = c ∧ m.Has (off + 1) bs := by
  have happend : m.Has off ([c] ++ bs) ↔ m.Has off [c] ∧ m.Has (off + 1) bs := has_append
  simpa [Has, read] using happend

/-- The string where bytes and a terminator stand. -/
theorem Has.cstr_eq {size : Nat} {s : List UInt8} (h : m.Has off (s ++ [0])) (hsize : off + s.length < size) :
    m.cstr size off = s.takeWhile (· != 0) := by
  rw [Has, List.length_append, List.length_singleton] at h
  have hn : size - off = s.length + 1 + (size - off - (s.length + 1)) := by omega
  rw [cstr, hn, read_add, h, List.append_assoc, List.takeWhile_append]
  split
  case isTrue hall => simpa using ((List.takeWhile_prefix _).eq_of_length hall).symm
  case isFalse => rfl

/-- It is all of the bytes if no other one ends it. -/
theorem Has.cstr_plain {size : Nat} {s : List UInt8} (h : m.Has off (s ++ [0])) (hs : ∀ c ∈ s, c ≠ 0)
    (hsize : off + s.length < size) : m.cstr size off = s := by
  rw [h.cstr_eq hsize]
  exact List.takeWhile_eq_self_iff.mpr fun c hc => bne_iff_ne.mpr (hs c hc)

/-- Memory has the bytes that are read from it. -/
theorem has_read (m : Image) (off n : Nat) : m.Has off (m.read off n) := by
  rw [Has, read_length]

/-- What a write leaves at its offset. -/
theorem has_write (m : Image) (off : Nat) (bs : List UInt8) : (m.write off bs).Has off bs := by
  refine List.ext_getElem (by simp) ?_
  intro i hi hi'
  simp [read, write_inside hi', List.getD_eq_getElem?_getD, hi']

/-- Memory that holds what was read from other memory agrees with it there. -/
theorem Has.eq_at (h : m'.Has off (m.read off n)) {i : Nat} (hi : off ≤ i) (hi' : i < off + n) : m' i = m i := by
  rw [Has, read_length] at h
  have h' := congrArg (fun l => l[i - off]?) h
  have hlt : i - off < n := by omega
  have heq : off + (i - off) = i := by omega
  simpa [read, hlt, heq] using h'

/-- Bytes stay where they are when others next to them are written. -/
theorem Has.write (h : m.Has off bs) (hd : off + bs.length ≤ off' ∨ off' + bs'.length ≤ off) :
    (m.write off' bs').Has off bs := by
  rw [Has, read_write_outside hd]
  exact h

theorem Has.congr (h : m.Has off bs) (hm : ∀ i, off ≤ i → i < off + bs.length → m' i = m i) : m'.Has off bs := by
  rw [Has, read_congr hm]
  exact h

/-- A range of zeros. -/
theorem has_replicate (h : ∀ i, off ≤ i → i < off + n → m i = 0) : m.Has off (List.replicate n 0) := by
  refine List.ext_getElem (by simp) ?_
  intro i hi hi'
  simp only [List.length_replicate] at hi'
  simp only [read, List.getElem_map, List.getElem_range, List.getElem_replicate]
  exact h (off + i) (by omega) (by omega)

/-- Where the bytes of a number are, this number is read, as far as it fits. -/
theorem Has.nat_eq {w v : Nat} (h : m.Has off (leBytes w v)) : m.nat off w = v % 256 ^ w := by
  rw [Has, leBytes_length] at h
  rw [nat, h, leNat_leBytes]

/-- Bytes that are copied stand for the same number. -/
theorem nat_write_read (m m' : Image) (off off' n : Nat) : (m'.write off' (m.read off n)).nat off' n = m.nat off n := by
  have h := has_write m' off' (m.read off n)
  rw [Has, read_length] at h
  rw [nat, h, nat]

/-- A number that is written is read, as far as it fits. -/
theorem nat_write_leBytes {w v : Nat} : (m.write off (leBytes w v)).nat off w = v % 256 ^ w :=
  (has_write m off (leBytes w v)).nat_eq

end Image

end Pixel845
