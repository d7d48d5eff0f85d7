import Pixel845.Lemmas.RmnetReply

/-!
# The attribute table

`rtrmnet_ctl_getvnd` has `rta_parse` enter the attributes of a reply in a table with an entry for each type below
`__RMNETCTL_IFLA_MAX`, and passes this number as the largest type. An attribute of that very type is entered behind the table
(`table_in_range_iff`). Where it looks for a single attribute instead, `rta_find` compares the type with its flags, which
`rta_parse` masks off, so that an attribute with a flag is found by one and not by the other (`lookups_agree_iff`).
-/

namespace Pixel845.Rmnet

/-! ## The walk over a buffer -/

/-- The attributes that a walk over the `len` bytes at an offset comes across, up to the first one that is not well-formed. -/
def attributes (m : Image) (head : Nat) (len : Int) : List Header :=
  (rtaLoop (fun _ => false) (fun rta t hs => hs ++ [⟨rta, m.nat rta 2, t⟩]) head len []).run m.load

/-- The type of an attribute without its flags. -/
def maskedType (x : Header) : Nat := x.type &&& nlaTypeMask

/-- `rta_parse` is right about a buffer: it comes to the end of it, in a round for each attribute, enters these in the table only,
and leaves in every entry the last attribute of its type. -/
structure ParsesInRange (m : Image) (head : Nat) (len : Int) : Prop where
  chain : Chain m (head + len.toNat) (fun _ => false) head len (attributes m head len)
  rounds : 4 * (attributes m head len).length ≤ len.toNat
  entries : ∀ i ∈ ((rtaParse rmnetctlIflaMax head len).run m.load).written, 1 ≤ i ∧ i < rmnetctlIflaMax
  last : ∀ t, 1 ≤ t → t < rmnetctlIflaMax → ((rtaParse rmnetctlIflaMax head len).run m.load).entries t =
    (((attributes m head len).filter fun x => maskedType x == t).getLast?).map Header.off

namespace TableAux

variable {m : Image} {n off head t : Nat} {len : Int} {hs : List Header}

/-- A fold that appends is a map. -/
theorem foldl_append_map {α β : Type} (f : α → β) (l : List α) (acc : List β) :
    l.foldl (fun r x => r ++ [f x]) acc = acc ++ l.map f := by
  induction l generalizing acc with
  | nil => simp
  | cons x l ih => simp [ih]

/-- The walk is the one of the loop. -/
theorem attributes_eq (h : Chain m n (fun _ => false) head len hs) : attributes m head len = hs := by
  have hheader : ∀ x ∈ hs, (⟨x.off, m.nat x.off 2, x.type⟩ : Header) = x := by
    intro x hx
    rw [h.mem_header x hx]
  rw [attributes, h.run, foldl_append_map, List.nil_append, List.map_congr_left hheader, List.map_id']

/-- The attributes are those of the chain. -/
theorem attributes_chain (m : Image) (head : Nat) (len : Int) :
    Chain m (head + len.toNat) (fun _ => false) head len (attributes m head len) := by
  have hfit : 4 ≤ len → (head : Int) + len ≤ ((head + len.toNat : Nat) : Int) := by
    intro h4
    omega
  obtain ⟨hs, h⟩ := exists_chain m (fun _ => false) hfit
  rwa [attributes_eq h]

/-- Every attribute takes four bytes or more. -/
theorem chain_length_le {stop : Nat → Bool} (h : Chain m n stop off len hs) : 4 * hs.length ≤ len.toNat := by
  induction h with
  | short | bad => exact Nat.zero_le _
  | last hlen => simpa using by omega
  | @cons o len hs hlen hin h4 hfit hstop hrest ih =>
    have hle := le_align4 (m.nat o 2)
    rw [List.length_cons]
    omega

/-- An entry of the table is the last attribute of its type. -/
theorem rtaParse_last (h : Chain m n (fun _ => false) off len hs) {maxtype : Nat} (h0 : 0 < t) (ht : t ≤ maxtype) :
    ((rtaParse maxtype off len).run m.load).entries t = ((hs.filter fun x => maskedType x == t).getLast?).map Header.off := by
  ext attr
  rw [rtaParse_run h h0 ht attr, Option.map_eq_some_iff]
  rfl

/-- `rta_find` finds the first attribute whose type, with its flags, is the one looked for. -/
theorem rtaFind_first (h : Chain m n (fun _ => false) off len hs) (ht : t &&& nlaTypeMask = t) :
    (rtaFind off len t).run m.load = (hs.find? fun x => x.type == t).map Header.off := by
  rw [rtaFind, ht]
  induction h with
  | short hlen =>
    rw [rtaLoop_eq, if_pos hlen]
    rfl
  | bad hlen hin hbad =>
    rw [rtaLoop_eq, if_neg (not_lt.mpr hlen)]
    simp [hbad]
  | last _ _ _ _ hstop => cases hstop
  | @cons o len hs hlen hin h4 hfit hstop hrest ih =>
    rw [rtaLoop_eq, if_neg (not_lt.mpr hlen), List.find?_cons]
    by_cases htype : m.nat (o + 2) 2 = t
    · simp [not_lt.mpr h4, not_lt.mpr hfit, htype]
    · simp [not_lt.mpr h4, not_lt.mpr hfit, htype, beq_eq_false_iff_ne.mpr htype, ih]

/-- Only an attribute of the largest type is entered behind the table. -/
theorem parsesInRange_iff (m : Image) (head : Nat) (len : Int) :
    ParsesInRange m head len ↔ ∀ x ∈ attributes m head len, maskedType x ≠ rmnetctlIflaMax := by
  have hchain := attributes_chain m head len
  have hentries := rtaParse_written hchain rmnetctlIflaMax
  have hmax : rmnetctlIflaMax = 5 := rfl
  constructor
  · intro h x hx htype
    have hmem : rmnetctlIflaMax ∈ ((rtaParse rmnetctlIflaMax head len).run m.load).written := by
      rw [hentries, List.mem_filter, List.mem_map]
      exact ⟨⟨x, hx, htype⟩, by decide⟩
    exact Nat.lt_irrefl _ (h.entries _ hmem).2
  · intro h
    refine ⟨hchain, chain_length_le hchain, ?_, fun t h1 ht => rtaParse_last hchain h1 (Nat.le_of_lt ht)⟩
    intro i hi
    rw [hentries, List.mem_filter, List.mem_map, decide_eq_true_eq] at hi
    obtain ⟨⟨x, hx, rfl⟩, h0, hle⟩ := hi
    have hne : x.type &&& nlaTypeMask ≠ rmnetctlIflaMax := h x hx
    omega

/-- Of attributes of which no more than one has a type, the first with just this type is the last one with any flags exactly if
it has none. -/
theorem first_eq_last_iff (hs : List Header) (hmask : t &&& nlaTypeMask = t)
    (hone : (hs.filter fun x => maskedType x == t).length ≤ 1) :
      (hs.find? fun x => x.type == t).map Header.off = ((hs.filter fun x => maskedType x == t).getLast?).map Header.off ↔
      ∀ x ∈ hs, maskedType x = t → x.type = t := by
  have hmem : ∀ x, x ∈ hs.filter (fun x => maskedType x == t) ↔ x ∈ hs ∧ maskedType x = t := by
    intro x
    rw [List.mem_filter, beq_iff_eq]
  have hfound : ∀ x, hs.find? (fun x => x.type == t) = some x → x.type = t ∧ x ∈ hs.filter (fun x => maskedType x == t) := by
    intro x hx
    have htype : x.type = t := by simpa using List.find?_some hx
    exact ⟨htype, (hmem x).mpr ⟨List.mem_of_find?_eq_some hx, by rw [maskedType, htype, hmask]⟩⟩
  rcases hf : hs.filter (fun x => maskedType x == t) with _ | ⟨x, _ | ⟨y, rest⟩⟩
  · -- no attribute has the type
    rw [hf] at hmem hfound
    have hnone : hs.find? (fun x => x.type == t) = none := by
      cases hx : hs.find? (fun x => x.type == t) with
      | none => rfl
      | some x => exact absurd (hfound x hx).2 List.not_mem_nil
    rw [hnone]
    exact ⟨fun _ x hx htype => absurd ((hmem x).mpr ⟨hx, htype⟩) List.not_mem_nil, fun _ => rfl⟩
  · -- one attribute has it
    rw [hf] at hmem hfound
    have honly : ∀ y, y ∈ hs ∧ maskedType y = t ↔ y = x := fun y => (hmem y).symm.trans List.mem_singleton
    have hcondition : (∀ y ∈ hs, maskedType y = t → y.type = t) ↔ x.type = t := by
      constructor
      · intro h
        obtain ⟨hin, htype⟩ := (honly x).mpr rfl
        exact h x hin htype
      · intro hx y hy htype
        rw [(honly y).mp ⟨hy, htype⟩]
        exact hx
    rw [hcondition, List.getLast?_singleton, Option.map_some]
    cases hx : hs.find? (fun x => x.type == t) with
    | none =>
      have hne : x.type ≠ t := by simpa using List.find?_eq_none.mp hx x ((honly x).mpr rfl).1
      simp [hne]
    | some y =>
      obtain ⟨htype, hin⟩ := hfound y hx
      obtain rfl := List.mem_singleton.mp hin
      simp [htype]
  · rw [hf] at hone
    simp at hone

/-- If no more than one attribute has a type, the lookups agree on it exactly if it has no flags. -/
theorem agree_iff (m : Image) (head : Nat) (len : Int) (h1 : 1 ≤ t) (ht : t < rmnetctlIflaMax)
    (hone : ((attributes m head len).filter fun x => maskedType x == t).length ≤ 1) :
    (rtaFind head len t).run m.load = ((rtaParse rmnetctlIflaMax head len).run m.load).entries t ↔
      ∀ x ∈ attributes m head len, maskedType x = t → x.type = t := by
  have hchain := attributes_chain m head len
  have hmask : t &&& nlaTypeMask = t := by
    have hlt : t < 5 := ht
    exact (Nat.and_two_pow_sub_one_eq_mod t 14).trans (Nat.mod_eq_of_lt (by omega))
  rw [rtaFind_first hchain hmask, rtaParse_last hchain h1 (Nat.le_of_lt ht)]
  exact first_eq_last_iff _ hmask hone

end TableAux

/-- `rta_parse` stays in the table exactly if the buffer has no attribute of the type `__RMNETCTL_IFLA_MAX`, with or
without flags. -/
theorem table_in_range_iff (m : Image) (head : Nat) (len : Int) :
    ParsesInRange m head len ↔ ∀ x ∈ attributes m head len, maskedType x ≠ rmnetctlIflaMax :=
  TableAux.parsesInRange_iff m head len

/-- An attribute without payload, of the type `__RMNETCTL_IFLA_MAX` -/
def newerAttribute : Image := Image.ofBytes [4, 0, 5, 0]

/-- It is entered behind the table. -/
theorem table_left : ¬ ∀ (m : Image) (head : Nat) (len : Int), ParsesInRange m head len := by
  intro h
  have hattributes : attributes newerAttribute 0 4 = [⟨0, 4, 5⟩] := by decide
  have htype := (TableAux.parsesInRange_iff newerAttribute 0 4).mp (h newerAttribute 0 4) ⟨0, 4, 5⟩ (by rw [hattributes]; simp)
  exact htype (by decide)

/-- For a type of the table that no more than one attribute has, `rta_find` answers with the entry of `rta_parse` exactly if that
attribute has no flags. -/
theorem lookups_agree_iff (m : Image) (head : Nat) (len : Int) (t : Nat) (h1 : 1 ≤ t) (ht : t < rmnetctlIflaMax)
    (hone : ((attributes m head len).filter fun x => maskedType x == t).length ≤ 1) :
    (rtaFind head len t).run m.load = ((rtaParse rmnetctlIflaMax head len).run m.load).entries t ↔
      ∀ x ∈ attributes m head len, maskedType x = t → x.type = t :=
  TableAux.agree_iff m head len h1 ht hone

/-- `RMNETCTL_IFLA_FLAGS`, `RMNETCTL_IFLA_MUX_ID` with `NLA_F_NESTED`, a type that the driver does not know, twice, and
`RMNETCTL_IFLA_UPLINK_PARAMS` with `NLA_F_NET_BYTEORDER`, all without payload. -/
def flaggedAttributes : Image := Image.ofBytes [4, 0, 2, 0, 4, 0, 1, 128, 4, 0, 9, 0, 4, 0, 9, 0, 4, 0, 4, 64]

/-- The rule for attributes of several types, one with a flag. -/
theorem lookups_agree_iff_flagged :
    ((rtaFind 0 20 1).run flaggedAttributes.load = ((rtaParse rmnetctlIflaMax 0 20).run flaggedAttributes.load).entries 1 ↔
        ∀ x ∈ attributes flaggedAttributes 0 20, maskedType x = 1 → x.type = 1) ∧
      ((rtaFind 0 20 2).run flaggedAttributes.load = ((rtaParse rmnetctlIflaMax 0 20).run flaggedAttributes.load).entries 2 ↔
        ∀ x ∈ attributes flaggedAttributes 0 20, maskedType x = 2 → x.type = 2) :=
  ⟨lookups_agree_iff flaggedAttributes 0 20 1 (by decide) (by decide) (by decide),
    lookups_agree_iff flaggedAttributes 0 20 2 (by decide) (by decide) (by decide)⟩

/-- The attribute of the MUX ID is entered in the table, and not found. -/
theorem lookups_differ :
    ¬ ∀ (m : Image) (head : Nat) (len : Int) (t : Nat), 1 ≤ t → t < rmnetctlIflaMax →
      ((attributes m head len).filter fun x => maskedType x == t).length ≤ 1 →
        (rtaFind head len t).run m.load = ((rtaParse rmnetctlIflaMax head len).run m.load).entries t := by
  intro h
  have hfind : (rtaFind 0 20 1).run flaggedAttributes.load = none := by decide
  have hparse : ((rtaParse rmnetctlIflaMax 0 20).run flaggedAttributes.load).entries 1 = some 4 := by decide
  have heq := h flaggedAttributes 0 20 1 (by decide) (by decide) (by decide)
  rw [hfind, hparse] at heq
  cases heq

end Pixel845.Rmnet
