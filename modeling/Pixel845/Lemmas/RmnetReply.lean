import Mathlib.Data.List.Induction
import Pixel845.Rmnet.Link

/-!
# How far a reply is read

The functions that read a reply read below a bound exactly when what they visit lies below it: the chains that their loops go
through, and the fields of the attributes that these find (`readLink_inBounds`, `readAck_inBounds`).
-/

namespace Pixel845.Rmnet

variable {m : Image} {n off : Nat} {len : Int} {hs : List Header} {t : Nat}

/-! ## Loops -/

/-- `rta_find` on a chain finds what the search ends with. -/
theorem rtaFind_run (h : Chain m n (fun u => u == t) off len hs) (ht : t &&& nlaTypeMask = t) :
    (rtaFind off len t).run m.load = none ∧ (∀ x ∈ hs, x.type ≠ t) ∨
      ∃ x ∈ hs, (rtaFind off len t).run m.load = some x.off ∧ x.type = t ∧ ∀ y ∈ hs, y.type = t → y = x := by
  rw [rtaFind, ht, h.run]
  have hskip : ∀ (l : List Header), (∀ x ∈ l, x.type ≠ t) →
      l.foldl (fun (found : Option Nat) (x : Header) => if x.type = t then some x.off else found) none = none := by
    intro l hl
    induction l with
    | nil => rfl
    | cons x l ih =>
      rw [List.foldl_cons, if_neg (hl x (by simp))]
      exact ih (fun y hy => hl y (by simp [hy]))
  rcases h.search with hnone | ⟨pre, x, rfl, hx, hpre⟩
  · exact .inl ⟨hskip hs hnone, hnone⟩
  · refine .inr ⟨x, by simp, ?_, hx, ?_⟩
    · rw [List.foldl_append, hskip pre hpre]
      simp [hx]
    · intro y hy hyt
      rcases List.mem_append.mp hy with hy | hy
      · exact absurd hyt (hpre y hy)
      · exact List.mem_singleton.mp hy

/-- `rta_find` stays within the bytes exactly if the attributes up to the one it finds do. -/
theorem rtaFind_inBounds (ht : t &&& nlaTypeMask = t) :
    (rtaFind off len t).InBounds m n ↔ ∃ hs, Chain m n (fun u => u == t) off len hs := by
  rw [rtaFind, ht]
  exact rtaLoop_inBounds _ _

/-- The attribute is the last one of a chain whose masked type is this. -/
def LastOf (t : Nat) (hs : List Header) (a : Header) : Prop :=
  (hs.filter (fun x => x.type &&& nlaTypeMask == t)).getLast? = some a

/-- `rta_parse` records the last attribute of each type of its table. -/
theorem rtaParse_run (h : Chain m n (fun _ => false) off len hs) {maxtype : Nat} (h0 : 0 < t) (ht : t ≤ maxtype) (attr : Nat) :
    ((rtaParse maxtype off len).run m.load).entries t = some attr ↔ ∃ a, LastOf t hs a ∧ a.off = attr := by
  rw [rtaParse, h.run]
  clear h
  have hfold : ∀ l : List Header, (l.foldl (fun (tb : Table) (x : Header) =>
      if 0 < x.type &&& nlaTypeMask ∧ x.type &&& nlaTypeMask ≤ maxtype then tb.set (x.type &&& nlaTypeMask) x.off else tb)
      Table.cleared).entries t = ((l.filter (fun x => x.type &&& nlaTypeMask == t)).getLast?).map Header.off := by
    intro l
    induction l using List.reverseRecOn with
    | nil => rfl
    | append_singleton l x ih =>
      rw [List.foldl_append, List.filter_append]
      simp only [List.foldl_cons, List.foldl_nil]
      by_cases hx : x.type &&& nlaTypeMask = t
      · rw [if_pos (by omega), hx, Table.set_entries, Function.update_self]
        simp [hx]
      · have hx' : (x.type &&& nlaTypeMask == t) = false := beq_eq_false_iff_ne.mpr hx
        simp only [List.filter_cons, hx', List.filter_nil, Bool.false_eq_true, if_false, List.append_nil]
        split
        · rw [Table.set_entries, Function.update_of_ne (Ne.symm hx), ih]
        · exact ih
  rw [hfold]
  exact Option.map_eq_some_iff

/-- The indices that `rta_parse` writes are the masked types of the attributes, as far as they are no larger than the
largest one. -/
theorem rtaParse_written (h : Chain m n (fun _ => false) off len hs) (maxtype : Nat) :
    ((rtaParse maxtype off len).run m.load).written =
      (hs.map fun x => x.type &&& nlaTypeMask).filter fun t => 0 < t ∧ t ≤ maxtype := by
  rw [rtaParse, h.run]
  clear h
  induction hs using List.reverseRecOn with
  | nil => rfl
  | append_singleton l x ih =>
    rw [List.foldl_append, List.map_append, List.filter_append, ← ih]
    simp only [List.foldl_cons, List.foldl_nil, List.map_cons, List.map_nil]
    split
    · rename_i hx
      simp [hx]
    · rename_i hx
      simp [hx]

/-- `rta_parse` stays within the bytes exactly if all attributes do. -/
theorem rtaParse_inBounds (maxtype : Nat) :
    (rtaParse maxtype off len).InBounds m n ↔ ∃ hs, Chain m n (fun _ => false) off len hs :=
  rtaLoop_inBounds _ _

/-! ## Acknowledgements -/

/-- An acknowledgement is read within the bytes exactly if it is long enough. -/
theorem readAck_inBounds : readAck.InBounds m n ↔ 6 ≤ n ∧ (m.nat 4 2 = nlmsgError → 20 ≤ n) := by
  rw [readAck, Reader.inBounds_bind, Reader.inBounds_rd, Reader.run_rd]
  refine and_congr_right ?_
  intro _
  by_cases h : m.nat 4 2 = nlmsgError
  · rw [if_pos h, Reader.inBounds_bind, Reader.inBounds_rd, Reader.run_rd]
    by_cases h0 : m.nat 16 4 = 0
    · simp [h, h0]
    · simp [h, h0]
  · rw [if_neg h]
    simp [h]

/-! ## Links -/

/-- Fields are read within the bytes exactly if each of them lies there. -/
theorem readFields_inBounds (tb : Table) (fs : List Field) :
    (readFields tb fs).InBounds m n ↔ ∀ f ∈ fs, ∀ attr, tb.entries f.type = some attr → attr + 4 + f.off + f.width ≤ n := by
  induction fs with
  | nil => simp [readFields]
  | cons f fs ih =>
    rw [readFields]
    cases hf : tb.entries f.type with
    | none => simp [hf, ih]
    | some attr => simp [hf, ih]

/-- The fields are those of attributes that the table records. -/
theorem fields_type (o : GetvndOuts) : ∀ f ∈ o.fields, 0 < f.type ∧ f.type ≤ rmnetctlIflaMax := by
  intro f hf
  simp only [GetvndOuts.fields, List.mem_append] at hf
  rcases hf with ((((hf | hf) | hf) | hf) | hf) | hf
  all_goals
    split at hf
    · rw [List.mem_singleton.mp hf]
      decide
    · simp at hf

/-- The parameters in the payload of an attribute are below the bound, and so is every field that is read from them. -/
def ParamsFit (o : GetvndOuts) (m : Image) (n : Nat) (datainfo : Header) : Prop :=
  ∃ params, Chain m n (fun _ => false) (datainfo.off + 4) (datainfo.len - 4) params ∧
    ∀ f ∈ o.fields, ∀ a, LastOf f.type params a → a.off + 4 + f.off + f.width ≤ n

/-- The children of `IFLA_LINKINFO` up to `IFLA_INFO_DATA` are below the bound, and so are the parameters in there. -/
def InfosFit (o : GetvndOuts) (m : Image) (n : Nat) (linkinfo : Header) : Prop :=
  ∃ infos, Chain m n (fun t => t == iflaInfoData) (linkinfo.off + 4) (linkinfo.len - 4) infos ∧
    ∀ datainfo ∈ infos, datainfo.type = iflaInfoData → ParamsFit o m n datainfo

/-- The way through a reply to the fields that are read from it stays below the bound: through the attributes of the link up to
`IFLA_LINKINFO`, and through what is in there. -/
def LinkFits (o : GetvndOuts) (m : Image) (n : Nat) : Prop :=
  4 ≤ n ∧ ∃ links, Chain m n (fun t => t == iflaLinkinfo) nlmsgHeaders (nlmsgPayload (m.nat 0 4)) links ∧
    ∀ linkinfo ∈ links, linkinfo.type = iflaLinkinfo → InfosFit o m n linkinfo

/-- The part of `readLink` behind `IFLA_INFO_DATA`. -/
def readParams (o : GetvndOuts) (datainfo : Nat) : Reader Outcome := do
  let datainfoLen ← rd datainfo 2
  let tb ← rtaParse rmnetctlIflaMax (datainfo + 4) (datainfoLen - 4)
  let outs ← readFields tb o.fields
  return { rc := rmnetctlApiSuccess.toNat, outs := outs }

/-- The end of `readLink` when an attribute is missing. -/
def noLink : Reader Outcome := return { rc := rmnetctlKernelErr, errorCode := some rmnetctlApiErrRtaFailure }

/-- The part of `readLink` behind `IFLA_LINKINFO`. -/
def readInfos (o : GetvndOuts) (linkinfo : Nat) : Reader Outcome := do
  let linkinfoLen ← rd linkinfo 2
  match ← rtaFind (linkinfo + 4) (linkinfoLen - 4) iflaInfoData with
  | none => noLink
  | some datainfo => readParams o datainfo

/-- A link is read by finding its info and reading it. -/
theorem readLink_eq (o : GetvndOuts) :
    readLink o = (do
      let nlmsgLen ← rd 0 4
      match ← rtaFind nlmsgHeaders (nlmsgPayload nlmsgLen) iflaLinkinfo with
      | none => noLink
      | some linkinfo => readInfos o linkinfo) := by
  simp only [readLink, readLinkTable, bind_assoc]
  refine bind_congr fun nlmsgLen => bind_congr fun found => ?_
  cases found with
  | none => rfl
  | some linkinfo =>
    simp only [readInfos, bind_assoc]
    refine bind_congr fun linkinfoLen => bind_congr fun found => ?_
    cases found with
    | none => rfl
    | some datainfo =>
      simp only [readParams, bind_assoc]
      rfl

variable {o : GetvndOuts} {x : Header}

/-- The parameters are read within the bytes exactly if they lie there. -/
theorem readParams_inBounds (hx : m.nat x.off 2 = x.len) (hin : x.off + 4 ≤ n) :
    (readParams o x.off).InBounds m n ↔ ParamsFit o m n x := by
  have hin' : x.off + 2 ≤ n := by omega
  simp only [readParams, Reader.inBounds_bind, Reader.inBounds_rd, Reader.run_rd, hx, hin', true_and, rtaParse_inBounds,
    readFields_inBounds, Prog.pure_eq, Reader.inBounds_ret, and_true, ParamsFit]
  constructor
  · rintro ⟨⟨params, hc⟩, hf⟩
    refine ⟨params, hc, ?_⟩
    intro f hfm a ha
    obtain ⟨h0, ht⟩ := fields_type o f hfm
    exact hf f hfm a.off ((rtaParse_run hc h0 ht _).mpr ⟨a, ha, rfl⟩)
  · rintro ⟨params, hc, hf⟩
    refine ⟨⟨params, hc⟩, ?_⟩
    intro f hfm attr hattr
    obtain ⟨h0, ht⟩ := fields_type o f hfm
    obtain ⟨a, ha, rfl⟩ := (rtaParse_run hc h0 ht _).mp hattr
    exact hf f hfm a ha

/-- A search and what comes behind it: below the bound exactly when the search is and, if it finds an attribute, the rest is. -/
theorem search_inBounds {rest : Nat → Reader Outcome} {Q : Header → Prop} (ht : t &&& nlaTypeMask = t)
    (hrest : ∀ y : Header, m.nat y.off 2 = y.len → y.off + 4 ≤ n → ((rest y.off).InBounds m n ↔ Q y)) :
    Reader.InBounds m n (do
      match ← rtaFind off len t with
      | none => noLink
      | some attr => rest attr) ↔
      ∃ hs, Chain m n (fun u => u == t) off len hs ∧ ∀ y ∈ hs, y.type = t → Q y := by
  rw [Reader.inBounds_bind, rtaFind_inBounds ht]
  constructor
  · rintro ⟨⟨hs, hc⟩, hb⟩
    refine ⟨hs, hc, ?_⟩
    intro y hy hyt
    rcases rtaFind_run hc ht with ⟨-, hnone⟩ | ⟨z, hz, hrun, -, honly⟩
    · exact absurd hyt (hnone y hy)
    · rw [hrun] at hb
      rw [honly y hy hyt]
      exact (hrest z (hc.mem_header z hz) (hc.mem_inside z hz).2.1).mp hb
  · rintro ⟨hs, hc, hq⟩
    refine ⟨⟨hs, hc⟩, ?_⟩
    rcases rtaFind_run hc ht with ⟨hrun, -⟩ | ⟨z, hz, hrun, hzt, -⟩
    · rw [hrun]
      exact Reader.inBounds_ret _
    · rw [hrun]
      exact (hrest z (hc.mem_header z hz) (hc.mem_inside z hz).2.1).mpr (hq z hz hzt)

/-- The infos are read within the bytes exactly if they lie there. -/
theorem readInfos_inBounds (hx : m.nat x.off 2 = x.len) (hin : x.off + 4 ≤ n) :
    (readInfos o x.off).InBounds m n ↔ InfosFit o m n x := by
  have hin' : x.off + 2 ≤ n := by omega
  rw [readInfos, Reader.inBounds_bind, Reader.inBounds_rd, Reader.run_rd, hx]
  simp only [hin', true_and]
  exact search_inBounds (by decide) (fun y hy hyin => readParams_inBounds hy hyin)

/-- A link is read within the bytes exactly if its attributes lie there. -/
theorem readLink_inBounds : (readLink o).InBounds m n ↔ LinkFits o m n := by
  rw [readLink_eq, Reader.inBounds_bind, Reader.inBounds_rd, Reader.run_rd, LinkFits, Nat.zero_add]
  exact and_congr_right fun _ => search_inBounds (by decide) (fun y hy hyin => readInfos_inBounds hy hyin)

/-- A reply whose length field is true, and in which the parameters are as wide as they are read, is long enough. -/
theorem linkFits_of_lengths (h4 : 4 ≤ n) (hlen : m.nat 0 4 ≤ n) (hn : n < 2 ^ 31)
    (hwide : ∀ off len params, Chain m n (fun _ => false) off len params →
      ∀ f ∈ o.fields, ∀ a, LastOf f.type params a → 4 + f.off + f.width ≤ a.len) : LinkFits o m n := by
  have hpay : nlmsgPayload (m.nat 0 4) = (m.nat 0 4 : Int) - nlmsgHeaders :=
    Int.bmod_eq_of_le (by simp only [nlmsgHeaders]; omega) (by simp only [nlmsgHeaders]; omega)
  have h1 : 4 ≤ nlmsgPayload (m.nat 0 4) → (nlmsgHeaders : Int) + nlmsgPayload (m.nat 0 4) ≤ n := by
    rw [hpay]
    omega
  obtain ⟨links, hlinks⟩ := exists_chain m (fun t => t == iflaLinkinfo) h1
  refine ⟨h4, links, hlinks, ?_⟩
  intro linkinfo hl _
  have h2 := fun _ : 4 ≤ (linkinfo.len : Int) - 4 => hlinks.payload_inside h1 hl
  obtain ⟨infos, hinfos⟩ := exists_chain m (fun t => t == iflaInfoData) h2
  refine ⟨infos, hinfos, ?_⟩
  intro datainfo hd _
  have h3 := fun _ : 4 ≤ (datainfo.len : Int) - 4 => hinfos.payload_inside h2 hd
  obtain ⟨params, hparams⟩ := exists_chain m (fun _ => false) h3
  refine ⟨params, hparams, ?_⟩
  intro f hf a ha
  have hmem : a ∈ params := (List.mem_filter.mp (List.mem_of_getLast? ha)).1
  have hin := hparams.payload_inside h3 hmem
  have hw := hwide _ _ _ hparams f hf a ha
  omega

end Pixel845.Rmnet
