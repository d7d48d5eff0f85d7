import Mathlib.Data.Nat.ModEq
import Mathlib.Logic.Function.Basic

/-!
# Linear probing

A table of slots that is searched from the slot of a hash on, around the end of the table. A slot that was freed is passed over by
a search for a key and taken by a search for room. `Probing` says that every key is found where a search for it arrives; filling
the slot that a search for room gives and freeing a slot keep that.
-/

namespace Pixel845

/-- A slot: never used, given up, or with a key. -/
inductive Slot (κ : Type) where
  | empty
  | freed
  | full (key : κ)
deriving DecidableEq

/-- The slot behind one, around the end of the table. -/
def nextSlot (size n : Nat) : Nat := if n + 1 = size then 0 else n + 1

variable {κ : Type}

/-- The first slot with room from `n` on, among as many as given. -/
def findRoom (slots : Nat → Slot κ) (size : Nat) : Nat → Nat → Option Nat
  | 0, _ => none
  | rounds + 1, n =>
    match slots n with
    | .full _ => findRoom slots size rounds (nextSlot size n)
    | .empty | .freed => some n

/-- The slot of a key from `n` on, among as many as given and before an empty one. -/
def findKey [DecidableEq κ] (slots : Nat → Slot κ) (size : Nat) (k : κ) : Nat → Nat → Option Nat
  | 0, _ => none
  | rounds + 1, n =>
    match slots n with
    | .empty => none
    | .freed => findKey slots size k rounds (nextSlot size n)
    | .full k' => if k' = k then some n else findKey slots size k rounds (nextSlot size n)

variable {slots : Nat → Slot κ} {size h i j m n : Nat} {k k' : κ}

/-! ## Going round -/

/-- The slot behind that of a hash is that of the next hash. -/
theorem nextSlot_mod (hsize : 0 < size) (h : Nat) : nextSlot size (h % size) = (h + 1) % size := by
  unfold nextSlot
  have hlt := Nat.mod_lt h hsize
  rw [← Nat.mod_add_mod]
  split
  · rename_i heq
    rw [heq, Nat.mod_self]
  · rename_i hne
    exact (Nat.mod_eq_of_lt (by omega)).symm

/-- No slot is met twice in one round. -/
theorem slot_injective (hi : i < size) (hj : j < size) (heq : (h + i) % size = (h + j) % size) : i = j := by
  have hmod : i ≡ j [MOD size] := Nat.ModEq.add_left_cancel' h heq
  rw [Nat.ModEq, Nat.mod_eq_of_lt hi, Nat.mod_eq_of_lt hj] at hmod
  exact hmod

/-- Every slot is met in one round. -/
theorem exists_slot (hm : m < size) (h : Nat) : ∃ i < size, (h + i) % size = m := by
  have hsize : 0 < size := Nat.zero_lt_of_lt hm
  have hlt := Nat.mod_lt h hsize
  refine ⟨(m + (size - h % size)) % size, Nat.mod_lt _ hsize, ?_⟩
  calc (h + (m + (size - h % size)) % size) % size
      = (h % size + (m + (size - h % size))) % size := by simp [Nat.add_mod]
    _ = (m + size) % size := by congr 1; omega
    _ = m := by rw [Nat.add_mod_right, Nat.mod_eq_of_lt hm]

/-! ## Searching for room -/

/-- The search for room stops at the first slot that has some. -/
theorem findRoom_eq_some (hsize : 0 < size) {rounds : Nat} (hroom : findRoom slots size rounds (h % size) = some m) :
    ∃ i < rounds, m = (h + i) % size ∧ (∀ k, slots m ≠ .full k) ∧ ∀ j < i, ∃ k, slots ((h + j) % size) = .full k := by
  induction rounds generalizing h with
  | zero => exact nomatch hroom
  | succ rounds ih =>
    rw [findRoom] at hroom
    split at hroom
    · rename_i k hk
      rw [nextSlot_mod hsize] at hroom
      obtain ⟨i, hi, hm, hfree, hfull⟩ := ih hroom
      refine ⟨i + 1, Nat.succ_lt_succ hi, by rw [hm, Nat.add_assoc, Nat.add_comm 1 i], hfree, ?_⟩
      intro j hj
      cases j with
      | zero => exact ⟨k, hk⟩
      | succ j =>
        obtain ⟨k', hk'⟩ := hfull j (Nat.lt_of_succ_lt_succ hj)
        exact ⟨k', by rw [Nat.add_comm j 1, ← Nat.add_assoc, hk']⟩
    · rename_i hk
      cases hroom
      exact ⟨0, Nat.succ_pos _, rfl, by simp [hk], nofun⟩
    · rename_i hk
      cases hroom
      exact ⟨0, Nat.succ_pos _, rfl, by simp [hk], nofun⟩

/-- The search for room finds some where there is any. -/
theorem exists_findRoom (hsize : 0 < size) {rounds : Nat} (hi : i < rounds) (hfree : ∀ k, slots ((h + i) % size) ≠ .full k) :
    ∃ m, findRoom slots size rounds (h % size) = some m := by
  induction rounds generalizing h i with
  | zero => exact absurd hi (Nat.not_lt_zero i)
  | succ rounds ih =>
    rw [findRoom]
    split
    · rename_i k hk
      cases i with
      | zero => exact absurd hk (hfree k)
      | succ i =>
        rw [nextSlot_mod hsize]
        exact ih (Nat.lt_of_succ_lt_succ hi) (by rwa [Nat.add_assoc, Nat.add_comm 1 i])
    · exact ⟨_, rfl⟩
    · exact ⟨_, rfl⟩

/-! ## Searching for a key -/

section Key

variable [DecidableEq κ]

/-- A search that does not meet the key before an empty slot goes on. -/
theorem findKey_of_passed (hsize : 0 < size) {rounds : Nat}
    (hpass : ∀ j < i, slots ((h + j) % size) ≠ .empty ∧ slots ((h + j) % size) ≠ .full k) :
    findKey slots size k (rounds + i) (h % size) = findKey slots size k rounds ((h + i) % size) := by
  induction i generalizing h with
  | zero => rfl
  | succ i ih =>
    have hhere := hpass 0 (Nat.succ_pos i)
    have hrest := ih (h := h + 1) fun j hj => by
      rw [Nat.add_assoc, Nat.add_comm 1 j]
      exact hpass (j + 1) (Nat.succ_lt_succ hj)
    rw [Nat.add_assoc, Nat.add_comm 1 i] at hrest
    rw [← Nat.add_assoc, findKey, nextSlot_mod hsize, hrest]
    split
    · rename_i hk
      exact absurd hk hhere.1
    · rfl
    · rename_i k' hk
      have hne : k' ≠ k := fun heq => hhere.2 (by rw [Nat.add_zero, hk, heq])
      rw [if_neg hne]

/-- A search finds only the key. -/
theorem slot_of_findKey (hsize : 0 < size) {rounds : Nat} (hkey : findKey slots size k rounds (h % size) = some m) :
    m < size ∧ slots m = .full k := by
  induction rounds generalizing h with
  | zero => exact nomatch hkey
  | succ rounds ih =>
    rw [findKey, nextSlot_mod hsize] at hkey
    split at hkey
    · exact nomatch hkey
    · exact ih hkey
    · rename_i k' hk
      split at hkey
      · rename_i heq
        cases hkey
        exact ⟨Nat.mod_lt h hsize, by rw [hk, heq]⟩
      · exact ih hkey

end Key

/-- A table in which each key stands once, in a slot that a search from its hash meets before an empty one. -/
structure Probing (slots : Nat → Slot κ) (size : Nat) (hash : κ → Nat) : Prop where
  reached : ∀ m < size, ∀ k, slots m = .full k → ∃ i < size, m = (hash k + i) % size ∧
    ∀ j < i, slots ((hash k + j) % size) ≠ .empty
  once : ∀ m < size, ∀ n < size, ∀ k, slots m = .full k → slots n = .full k → m = n

variable {hash : κ → Nat}

/-- An empty table keeps the rule. -/
theorem Probing.empty (size : Nat) (hash : κ → Nat) : Probing (fun _ => .empty) size hash := ⟨nofun, nofun⟩

/-- A search from the hash of a key finds the slot of the key. -/
theorem Probing.findKey_eq_some_iff [DecidableEq κ] (p : Probing slots size hash) (hsize : 0 < size) :
    findKey slots size k size (hash k % size) = some m ↔ m < size ∧ slots m = .full k := by
  constructor
  · exact slot_of_findKey hsize
  · rintro ⟨hm, hk⟩
    obtain ⟨i, hi, rfl, hreach⟩ := p.reached m hm k hk
    have hpass : ∀ j < i, slots ((hash k + j) % size) ≠ .empty ∧ slots ((hash k + j) % size) ≠ .full k := fun j hj =>
      ⟨hreach j hj, fun hj' =>
        absurd (slot_injective (hj.trans hi) hi (p.once _ (Nat.mod_lt _ hsize) _ (Nat.mod_lt _ hsize) k hj' hk))
          (Nat.ne_of_lt hj)⟩
    obtain ⟨rounds, rfl⟩ : ∃ rounds, size = rounds + 1 + i := ⟨size - 1 - i, by omega⟩
    rw [findKey_of_passed hsize hpass, findKey, hk]
    simp

/-- A search for a key that is not in the table finds nothing. -/
theorem findKey_eq_none [DecidableEq κ] (hsize : 0 < size) (habsent : ∀ m < size, slots m ≠ .full k) (rounds : Nat) :
    findKey slots size k rounds (h % size) = none := by
  cases hfind : findKey slots size k rounds (h % size) with
  | none => rfl
  | some m =>
    obtain ⟨hm, hk⟩ := slot_of_findKey hsize hfind
    exact absurd hk (habsent m hm)

/-- The slot that the search for room gives can be filled. -/
theorem Probing.fill (p : Probing slots size hash) (hsize : 0 < size) (habsent : ∀ n < size, slots n ≠ .full k)
    (hroom : findRoom slots size size (hash k % size) = some m) : Probing (Function.update slots m (.full k)) size hash := by
  obtain ⟨i, hi, rfl, hfree, hfull⟩ := findRoom_eq_some hsize hroom
  have hkeep : ∀ n, slots n ≠ .empty → Function.update slots ((hash k + i) % size) (.full k) n ≠ .empty := by
    intro n hn
    by_cases heq : n = (hash k + i) % size
    · simp [heq]
    · rwa [Function.update_of_ne heq]
  constructor
  · intro n hn k' hk'
    by_cases heq : n = (hash k + i) % size
    · rw [heq, Function.update_self] at hk'
      cases hk'
      exact ⟨i, hi, heq, fun j hj => hkeep _ (by obtain ⟨k', hk'⟩ := hfull j hj; simp [hk'])⟩
    · rw [Function.update_of_ne heq] at hk'
      obtain ⟨i', hi', hn', hreach⟩ := p.reached n hn k' hk'
      exact ⟨i', hi', hn', fun j hj => hkeep _ (hreach j hj)⟩
  · intro n hn n' hn' k' hk hk'
    by_cases heq : n = (hash k + i) % size
    · by_cases heq' : n' = (hash k + i) % size
      · rw [heq, heq']
      · rw [heq, Function.update_self] at hk
        rw [Function.update_of_ne heq'] at hk'
        cases hk
        exact absurd hk' (habsent n' hn')
    · rw [Function.update_of_ne heq] at hk
      by_cases heq' : n' = (hash k + i) % size
      · rw [heq', Function.update_self] at hk'
        cases hk'
        exact absurd hk (habsent n hn)
      · rw [Function.update_of_ne heq'] at hk'
        exact p.once n hn n' hn' k' hk hk'

/-- A slot can be given up. -/
theorem Probing.free (p : Probing slots size hash) (m : Nat) : Probing (Function.update slots m .freed) size hash := by
  have hkey : ∀ n k, Function.update slots m .freed n = .full k → slots n = .full k := by
    intro n k hk
    by_cases heq : n = m
    · rw [heq, Function.update_self] at hk
      exact nomatch hk
    · rwa [Function.update_of_ne heq] at hk
  constructor
  · intro n hn k hk
    obtain ⟨i, hi, hn', hreach⟩ := p.reached n hn k (hkey n k hk)
    refine ⟨i, hi, hn', fun j hj => ?_⟩
    by_cases heq : (hash k + j) % size = m
    · simp [heq]
    · rw [Function.update_of_ne heq]
      exact hreach j hj
  · exact fun n hn n' hn' k hk hk' => p.once n hn n' hn' k (hkey n k hk) (hkey n' k hk')

end Pixel845
