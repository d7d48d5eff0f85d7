import Pixel845.Lemmas.RmnetFill
import Pixel845.Rmnet.Spec

/-!
# Link messages: filling and decoding

`rmnet_fill_newlink_msg` puts the attributes of its link behind those that the message holds (`rmnetFillNewlinkMsg_gives`). On a
chain of attributes `rta_find` finds the first one of its type and `rta_parse` takes in all of them.
-/

namespace Pixel845.Rmnet

variable {bs : List UInt8} {d : UInt32} {v : DevName} {index : UInt8} {flagconfig : UInt32}

/-! ## What the puts are asked for -/

/-- A type of sixteen bits is the same number as an `int`. -/
theorem toInt_ofNat_eq {t : Nat} (h : t < 2 ^ 16) :
    ((Int32.ofNat t).toInt % 2 ^ 16).toNat = (UInt16.ofNat t).toNat := by
  rw [Int32.toInt_ofNat_of_lt (by omega)]
  simp only [UInt16.toNat_ofNat']
  omega

/-- Asking for an attribute with some bytes. -/
theorem asks_bytes {t : Nat} {p : List UInt8} {hp : 4 + p.length < 2 ^ 16} (ht : t < 2 ^ 16) :
    Asks ⟨.ofNat t, p, hp⟩ (.ofNat t) (.ofNat p.length) (some (Image.ofBytes p)) where
  type := toInt_ofNat_eq ht
  len := Int32.toInt_ofNat_of_lt (by omega)
  data := .inr ⟨_, rfl, Image.has_write _ _ _⟩

/-- A number of four bytes is given as its attribute. -/
theorem gives_putU32 {t : Nat} (ht : t < 2 ^ 16) (x : UInt32) (hf : Fits bs.length 4) :
    (Fill.put (rtaPutU32 (.ofNat t) x)).Gives bs () (bs ++ (numAttr t 4 x.toNat (by decide)).bytes) := by
  have ha : Asks (numAttr t 4 x.toNat (by decide)) (.ofNat t) 4 (some (Image.ofBytes (leBytes 4 x.toNat))) :=
    ⟨toInt_ofNat_eq ht, by simp [numAttr], .inr ⟨_, rfl, Image.has_write _ _ _⟩⟩
  exact Fill.gives_put ha (by simpa [numAttr] using hf)

/-- A number of two bytes is given as its attribute. -/
theorem gives_putU16 {t : Nat} (ht : t < 2 ^ 16) (x : UInt16) (hf : Fits bs.length 2) :
    (Fill.put (rtaPutU16 (.ofNat t) x)).Gives bs () (bs ++ (numAttr t 2 x.toNat (by decide)).bytes) := by
  have ha : Asks (numAttr t 2 x.toNat (by decide)) (.ofNat t) 2 (some (Image.ofBytes (leBytes 2 x.toNat))) :=
    ⟨toInt_ofNat_eq ht, by simp [numAttr], .inr ⟨_, rfl, Image.has_write _ _ _⟩⟩
  exact Fill.gives_put ha (by simpa [numAttr] using hf)

/-- A name is given as its attribute. -/
theorem gives_putString {t : Nat} (ht : t < 2 ^ 16) (s : DevName) (hf : Fits bs.length (s.name.strlen + 1)) :
    (Fill.put (rtaPutString (.ofNat t) s.name)).Gives bs () (bs ++ (nameAttr t s).bytes) := by
  have hs := s.short
  simp only [rmnetMaxStrLen] at hs
  have ha : Asks (nameAttr t s) (.ofNat t) (.ofNat (s.name.strlen + 1)) (some s.name.mem) := by
    refine ⟨toInt_ofNat_eq ht, ?_, .inr ⟨_, rfl, Image.has_write _ _ _⟩⟩
    rw [Int32.toInt_ofNat_of_lt (by omega)]
    simp [nameAttr, CString.strlen]
  exact Fill.gives_put ha (by simpa [nameAttr, CString.strlen] using hf)

/-! ## Filling -/

section Filling

variable (d v)

/-- A number of 32 bits is a small payload. -/
theorem u32_small : 4 < 16 := by decide

/-- What is put before `IFLA_LINKINFO` in a message that held `bs`. -/
def linkHead (bs : List UInt8) : List UInt8 :=
  bs ++ (numAttr iflaLink 4 d.toNat u32_small).bytes ++ (nameAttr iflaIfname v).bytes

/-- What is put before `IFLA_INFO_DATA`. -/
def infoHead (bs : List UInt8) : List UInt8 :=
  linkHead d v bs ++ (Rta.start (.ofNat iflaLinkinfo)).bytes ++ (nameAttr iflaInfoKind .rmnet).bytes

/-- What is put before the parameters of a link, with both nested attributes still open. -/
def linkFrame (bs : List UInt8) : List UInt8 := infoHead d v bs ++ (Rta.start (.ofNat iflaInfoData)).bytes

theorem linkFrame_length (bs : List UInt8) : (linkFrame d v bs).length ≤ bs.length + 48 := by
  have hn := v.short
  have hname : align4 (nameAttr iflaIfname v).len < (nameAttr iflaIfname v).len + 4 := align4_lt _
  have hl : (nameAttr iflaIfname v).len = 4 + (v.name.strlen + 1) := by simp [Rta.len, nameAttr, CString.strlen]
  have hk : align4 (nameAttr iflaInfoKind .rmnet).len = 12 := rfl
  have hd : align4 (numAttr iflaLink 4 d.toNat (by decide)).len = 8 := by simp [numAttr, Rta.len, align4]
  have hdvd := align4_dvd (nameAttr iflaIfname v).len
  simp only [linkFrame, infoHead, linkHead, List.length_append, Rta.bytes_length, hk, Rta.start_len, hd]
  simp only [rmnetMaxStrLen] at hn
  omega

/-- The part of the functions that fill a link message which comes before the parameters. -/
theorem gives_linkFrame {K : Nat → Nat → Fill Unit} {bs' : List UInt8} (hb : bs.length ≤ 100)
    (hK : (K (nlmsgHeaders + (linkHead d v bs).length) (nlmsgHeaders + (infoHead d v bs).length)).Gives
    (linkFrame d v bs) () bs') :
    Fill.Gives (do
      Fill.put (rtaPutU32 (.ofNat iflaLink) d)
      Fill.put (rtaPutString (.ofNat iflaIfname) v.name)
      let linkinfo ← Fill.nestedStart (.ofNat iflaLinkinfo)
      Fill.put (rtaPutString (.ofNat iflaInfoKind) .rmnet)
      let datainfo ← Fill.nestedStart (.ofNat iflaInfoData)
      K linkinfo datainfo) bs () bs' := by
  have hlen := linkFrame_length d v bs
  have hn := v.short
  simp only [linkFrame, infoHead, linkHead, List.length_append, rmnetMaxStrLen] at hlen hn
  have h32 : nlmsgHeaders = 32 := rfl
  have h532 : nlmsgSize = 532 := rfl
  have hfit : ∀ used size, used ≤ 148 → size ≤ 16 → Fits used size := by
    intro used size hu hs
    refine ⟨by omega, by omega⟩
  refine .bind (gives_putU32 (by decide) d (hfit _ _ (by omega) (by omega))) ?_
  refine .bind (gives_putString (by decide) v (hfit _ _ ?_ (by omega))) ?_
  · simp only [List.length_append]
    omega
  refine .bind (Fill.gives_nestedStart (toInt_ofNat_eq (by decide)) (hfit _ _ ?_ (by omega))) ?_
  · simp only [List.length_append]
    omega
  refine .bind (gives_putString (by decide) .rmnet (hfit _ _ ?_ (by decide))) ?_
  · simp only [List.length_append]
    omega
  refine .bind (Fill.gives_nestedStart (toInt_ofNat_eq (by decide)) (hfit _ _ ?_ (by omega))) hK
  simp only [List.length_append]
  omega

/-- The ends of the two nested attributes around the parameters. -/
theorem gives_linkEnds (bs : List UInt8) (ps : LinkParams) :
    Fill.Gives (do
      Fill.nestedEnd (nlmsgHeaders + (infoHead d v bs).length)
      Fill.nestedEnd (nlmsgHeaders + (linkHead d v bs).length))
      (linkFrame d v bs ++ Rta.encode ps.attrs) () (bs ++ Rta.encode (linkAttrs d v ps)) := by
  have h1 := Fill.gives_nestedEnd (a := infoData ps) (infoHead d v bs) rfl (Rta.encode_length_dvd ps.attrs)
  have h2 := Fill.gives_nestedEnd (a := linkInfo ps) (linkHead d v bs) rfl (Rta.encode_length_dvd (linkInfos ps))
  have hchildren : infoHead d v bs ++ (infoData ps).bytes =
      linkHead d v bs ++ (Rta.start (linkInfo ps).type).bytes ++ Rta.encode (linkInfos ps) := by
    simp [infoHead, linkInfos, linkInfo, Rta.nest]
  have hattrs : bs ++ Rta.encode (linkAttrs d v ps) = linkHead d v bs ++ (linkInfo ps).bytes := by
    simp [linkAttrs, linkHead]
  rw [hchildren] at h1
  rw [hattrs]
  exact .bind h1 h2

end Filling

/-- `rmnet_fill_newlink_msg` puts the attributes of its link. -/
theorem rmnetFillNewlinkMsg_gives (hb : bs.length ≤ 100) :
    (rmnetFillNewlinkMsg d v.name index flagconfig).Gives bs ()
      (bs ++ Rta.encode (linkAttrs d v (vndParams index flagconfig))) := by
  have hlen := linkFrame_length d v bs
  have h32 : nlmsgHeaders = 32 := rfl
  have h532 : nlmsgSize = 532 := rfl
  have hmux : numAttr rmnetctlIflaMuxId 2 index.toUInt16.toNat (by decide) =
      numAttr rmnetctlIflaMuxId 2 index.toNat (by decide) := by simp
  refine gives_linkFrame d v hb (.bind (gives_putU16 (by decide) _ ⟨by omega, by omega⟩) ?_)
  rw [hmux]
  have hends := gives_linkEnds d v bs (vndParams index flagconfig)
  by_cases hflag : flagconfig = 0
  · simp only [hflag, vndParams, if_true, Rta.encode_cons, Rta.encode_nil, List.append_nil] at hends ⊢
    exact hends
  · simp only [hflag, vndParams, if_false, Rta.encode_cons, Rta.encode_nil, List.append_nil, ne_eq, not_false_eq_true,
      if_true] at hends ⊢
    rw [← List.append_assoc] at hends
    refine .bind (Fill.gives_put ?_ ⟨?_, ?_⟩) hends
    · exact asks_bytes (by decide)
    · simp [numAttr, align4, Rta.len, iflaVlanFlags]
      omega
    · simp [iflaVlanFlags]

/-- `fillLinkParams` puts the attributes of a link with its parameters in one attribute. -/
theorem fillLinkParams_gives {type : Nat} {params : List UInt8} (hb : bs.length ≤ 100) (ht : type < 2 ^ 16)
    (hp : params.length ≤ 20) : (fillLinkParams d v.name type params).Gives bs ()
      (bs ++ Rta.encode (linkAttrs d v (oneParam type params hp))) := by
  have hlen := linkFrame_length d v bs
  have h32 : nlmsgHeaders = 32 := rfl
  have h532 : nlmsgSize = 532 := rfl
  have hends := gives_linkEnds d v bs (oneParam type params hp)
  simp only [oneParam, Rta.encode_cons, Rta.encode_nil, List.append_nil] at hends ⊢
  refine gives_linkFrame d v hb (.bind (Fill.gives_put (asks_bytes ht) ⟨?_, ?_⟩) hends)
  · change _ + _ + 4 + params.length ≤ _
    omega
  · change ¬(_ ∧ params.length = 496)
    omega

/-! ## Decoding -/

section Decoding

variable {m : Image} {off t : Nat} {pre post as : List Rta} {a : Rta}

/-- `rta_find` finds the first attribute of its type. -/
theorem rtaFind_encode (h : m.Has off (Rta.encode (pre ++ a :: post))) (hpre : ∀ x ∈ pre, x.type.toNat ≠ t)
    (ha : a.type.toNat = t) (ht : t &&& nlaTypeMask = t) :
    (rtaFind off (Rta.encode (pre ++ a :: post)).length t).run m.load = some (off + (Rta.encode pre).length) := by
  rw [rtaFind, (Rta.chain_encode h (Nat.le_refl _)).run, ht]
  clear h
  induction pre generalizing off with
  | nil => simp [Rta.headers, ha]
  | cons x pre ih =>
    have hx : x.type.toNat ≠ t := hpre x (by simp)
    have hrest := @ih (off + align4 x.len) (fun y hy => hpre y (by simp [hy]))
    simp only [List.cons_append, Rta.headers, List.foldl_cons, beq_eq_false_iff_ne.mpr hx, if_neg hx, Bool.false_eq_true,
      if_false, Rta.encode_cons, List.length_append, Rta.bytes_length]
    rw [hrest, Nat.add_assoc]

/-- `rta_parse` takes in every attribute. -/
theorem rtaParse_encode (h : m.Has off (Rta.encode as)) (maxtype : Nat) :
    (rtaParse maxtype off (Rta.encode as).length).run m.load =
      (Rta.headers (fun _ => false) off as).foldl (fun tb x =>
        if 0 < x.type &&& nlaTypeMask ∧ x.type &&& nlaTypeMask ≤ maxtype then tb.set (x.type &&& nlaTypeMask) x.off else tb)
        Table.cleared := by
  rw [rtaParse, (Rta.chain_encode h (Nat.le_refl _)).run]

/-- The table of the parameters of a link. -/
theorem rtaParse_vndParams (h : m.Has off (Rta.encode (vndParams index flagconfig).attrs)) :
    ((rtaParse rmnetctlIflaMax off (Rta.encode (vndParams index flagconfig).attrs).length).run m.load).entries =
      Function.update (Function.update (fun _ => none) rmnetctlIflaMuxId (some off)) rmnetctlIflaFlags
        (if flagconfig = 0 then none else some (off + 8)) := by
  have h1 : rmnetctlIflaMuxId % 65536 &&& nlaTypeMask = rmnetctlIflaMuxId := by decide
  have h2 : rmnetctlIflaFlags % 65536 &&& nlaTypeMask = rmnetctlIflaFlags := by decide
  have h3 : 0 < rmnetctlIflaMuxId ∧ rmnetctlIflaMuxId ≤ rmnetctlIflaMax := by decide
  have h4 : 0 < rmnetctlIflaFlags ∧ rmnetctlIflaFlags ≤ rmnetctlIflaMax := by decide
  rw [rtaParse_encode h]
  by_cases hflag : flagconfig = 0
  · have hne : rmnetctlIflaFlags ≠ rmnetctlIflaMuxId := by decide
    have hnone : (Function.update (fun _ => none) rmnetctlIflaMuxId (some off) : Nat → Option Nat) rmnetctlIflaFlags = none := by
      rw [Function.update_of_ne hne]
    simp only [vndParams, hflag, if_true, Rta.headers, numAttr, List.foldl_cons, List.foldl_nil, UInt16.toNat_ofNat',
      Bool.false_eq_true, if_false]
    rw [h1, if_pos h3]
    exact Function.eq_update_self_iff.mpr hnone
  · have hlen : align4 (numAttr rmnetctlIflaMuxId 2 index.toNat (by decide)).len = 8 := by simp [numAttr, Rta.len, align4]
    simp only [vndParams, hflag, if_false, Rta.headers, numAttr, List.foldl_cons, List.foldl_nil, UInt16.toNat_ofNat',
      Bool.false_eq_true] at hlen ⊢
    rw [h1, h2, if_pos h3, if_pos h4, hlen]
    rfl

/-- The length that the code takes for that of the attributes is theirs. -/
theorem nlmsgPayload_eq {n : Nat} (h : n < 2 ^ 31) : nlmsgPayload (nlmsgHeaders + n) = n := by
  rw [nlmsgPayload]
  have : ((nlmsgHeaders + n : Nat) : Int) - nlmsgHeaders = n := by
    push_cast
    omega
  rw [this]
  exact Int.bmod_eq_of_le (by omega) (by omega)

/-- An attribute of a chain in memory. -/
theorem has_attr (h : m.Has off (Rta.encode (pre ++ a :: post))) :
    m.nat (off + (Rta.encode pre).length) 2 = a.len ∧ m.Has (off + (Rta.encode pre).length + 4) a.payload := by
  rw [Rta.encode_append, Rta.encode_cons, Image.has_append, Image.has_append] at h
  obtain ⟨h1, -, h2⟩ := Rta.has_bytes h.2.1
  exact ⟨h1, h2⟩

variable {ps : LinkParams}

/-- The first attribute of a type behind the headers of a message, as `rta_find` finds it. -/
def attrAt (m : Image) (type : Nat) : Option Nat :=
  (rtaFind nlmsgHeaders (nlmsgPayload (m.nat 0 4)) type).run m.load

/-- The memory begins with a message of these attributes, and its length is theirs. -/
structure Frames (m : Image) (as : List Rta) : Prop where
  has : m.Has nlmsgHeaders (Rta.encode as)
  len : m.nat 0 4 = nlmsgHeaders + (Rta.encode as).length
  short : (Rta.encode as).length < 2 ^ 31

/-- An attribute is found behind those of other types. -/
theorem Frames.attrAt_eq (h : Frames m (pre ++ a :: post)) (hpre : ∀ x ∈ pre, x.type.toNat ≠ t) (ha : a.type.toNat = t)
    (ht : t &&& nlaTypeMask = t) : attrAt m t = some (nlmsgHeaders + (Rta.encode pre).length) := by
  rw [attrAt, h.len, nlmsgPayload_eq h.short]
  exact rtaFind_encode h.has hpre ha ht

theorem numAttr_type {w x : Nat} {hw : w < 16} (ht : t < 2 ^ 16) : (numAttr t w x hw).type.toNat = t := by
  simp only [numAttr, UInt16.toNat_ofNat']
  omega

theorem nameAttr_type (ht : t < 2 ^ 16) (v : DevName) : (nameAttr t v).type.toNat = t := by
  simp only [nameAttr, UInt16.toNat_ofNat']
  omega

theorem linkInfo_type (ps : LinkParams) : (linkInfo ps).type.toNat = iflaLinkinfo := rfl

theorem infoData_type (ps : LinkParams) : (infoData ps).type.toNat = iflaInfoData := rfl

/-- `IFLA_LINK` comes first of the attributes of the link. -/
theorem Frames.link (h : Frames m (pre ++ linkAttrs d v ps)) (hpre : ∀ x ∈ pre, x.type.toNat ≠ iflaLink) :
    ∃ o, attrAt m iflaLink = some o ∧ m.nat o 2 = 8 ∧ m.nat (o + 4) 4 = d.toNat := by
  have hs : pre ++ linkAttrs d v ps = pre ++ numAttr iflaLink 4 d.toNat u32_small :: [nameAttr iflaIfname v, linkInfo ps] := rfl
  rw [hs] at h
  obtain ⟨hl, hp⟩ := has_attr h.has
  refine ⟨_, h.attrAt_eq hpre (numAttr_type (by decide)) (by decide), by rw [hl]; simp [Rta.len, numAttr], ?_⟩
  rw [Image.Has.nat_eq hp]
  exact Nat.mod_eq_of_lt d.toNat_lt

/-- `IFLA_IFNAME` comes behind it. -/
theorem Frames.ifname (h : Frames m (pre ++ linkAttrs d v ps)) (hpre : ∀ x ∈ pre, x.type.toNat ≠ iflaIfname) :
    ∃ o, attrAt m iflaIfname = some o ∧ m.nat o 2 = 4 + (v.name.strlen + 1) ∧ m.Has (o + 4) (v.name.bytes ++ [0]) := by
  have hs : pre ++ linkAttrs d v ps =
      (pre ++ [numAttr iflaLink 4 d.toNat u32_small]) ++ nameAttr iflaIfname v :: [linkInfo ps] := by
    simp [linkAttrs]
  have hhead : ∀ x ∈ pre ++ [numAttr iflaLink 4 d.toNat u32_small], x.type.toNat ≠ iflaIfname := by
    intro x hx
    rcases List.mem_append.mp hx with hx | hx
    · exact hpre x hx
    · rw [List.mem_singleton.mp hx, numAttr_type (by decide)]
      decide
  rw [hs] at h
  obtain ⟨hl, hp⟩ := has_attr h.has
  exact ⟨_, h.attrAt_eq hhead (nameAttr_type (by decide) v) (by decide), by rw [hl]; simp [Rta.len, nameAttr, CString.strlen], hp⟩

/-- Memory that begins with a message that was filled without loss. -/
theorem frames_of_holds {req : Req} (h : Holds req (Rta.encode as)) (hm : m.Has 0 req.message) : Frames m as := by
  have hlen := h.len
  have hspace := h.space
  have hagree : ∀ i, i < req.nlmsgLen → m i = req.mem i := fun i hi => hm.eq_at (Nat.zero_le i) (by omega)
  have hnat : m.nat 0 4 = req.nlmsgLen :=
    Image.nat_congr (fun i _ hi => hagree i (by rw [hlen]; simp only [nlmsgHeaders]; omega))
  refine ⟨h.has.congr (fun i _ hi => hagree i (by omega)), hnat.trans hlen, ?_⟩
  simp only [nlmsgSize] at hspace
  omega

/-- Behind its headers, such a message is its attributes. -/
theorem message_drop {req : Req} (h : Holds req bs) : req.message.drop nlmsgHeaders = bs := by
  have hhas : req.mem.read nlmsgHeaders bs.length = bs := h.has
  rw [Req.message, h.len, Image.read_add, List.drop_left' (Image.read_length _ _ _), Nat.zero_add, hhas]

/-- The offset of `IFLA_LINKINFO` in a message whose link attributes come behind `pre`. -/
def linkinfoAt (d : UInt32) (v : DevName) (pre : List Rta) : Nat :=
  nlmsgHeaders + (Rta.encode (pre ++ [numAttr iflaLink 4 d.toNat u32_small, nameAttr iflaIfname v])).length

/-- The offset of `IFLA_INFO_DATA`. -/
def datainfoAt (d : UInt32) (v : DevName) (pre : List Rta) : Nat :=
  linkinfoAt d v pre + 4 + (Rta.encode [nameAttr iflaInfoKind .rmnet]).length

/-- The attribute covers exactly these children. -/
structure Covers (m : Image) (attr : Nat) (cs : List Rta) : Prop where
  len : m.nat attr 2 = 4 + (Rta.encode cs).length
  has : m.Has (attr + 4) (Rta.encode cs)

/-- The payload of an attribute that covers its children. -/
theorem Covers.payload {attr : Nat} {cs : List Rta} (h : Covers m attr cs) :
    ((m.nat attr 2 : Nat) : Int) - 4 = (Rta.encode cs).length := by
  rw [h.len]
  push_cast
  omega

/-- `rta_find` finds the attribute around the parameters. -/
theorem linkInfo_found (h : m.Has nlmsgHeaders (Rta.encode (pre ++ linkAttrs d v ps)))
    (hpre : ∀ x ∈ pre, x.type.toNat ≠ iflaLinkinfo) :
    (rtaFind nlmsgHeaders (Rta.encode (pre ++ linkAttrs d v ps)).length iflaLinkinfo).run m.load = some (linkinfoAt d v pre) ∧
      Covers m (linkinfoAt d v pre) (linkInfos ps) := by
  have hsplit : pre ++ linkAttrs d v ps =
      (pre ++ [numAttr iflaLink 4 d.toNat (by decide), nameAttr iflaIfname v]) ++ linkInfo ps :: [] := by
    simp [linkAttrs]
  have hhead : ∀ x ∈ pre ++ [numAttr iflaLink 4 d.toNat (by decide), nameAttr iflaIfname v], x.type.toNat ≠ iflaLinkinfo := by
    intro x hx
    rcases List.mem_append.mp hx with hx | hx
    · exact hpre x hx
    · rcases List.mem_cons.mp hx with rfl | hx
      · rw [numAttr_type (by decide)]
        decide
      · rw [List.mem_singleton.mp hx, nameAttr_type (by decide)]
        decide
  rw [hsplit] at h ⊢
  obtain ⟨hl, hp⟩ := has_attr h
  exact ⟨rtaFind_encode h hhead (linkInfo_type ps) (by decide), hl, hp⟩

/-- `rta_find` finds the attribute with the parameters. -/
theorem infoData_found (h : Covers m (linkinfoAt d v pre) (linkInfos ps)) :
    (rtaFind (linkinfoAt d v pre + 4) (Rta.encode (linkInfos ps)).length iflaInfoData).run m.load = some (datainfoAt d v pre) ∧
      Covers m (datainfoAt d v pre) ps.attrs := by
  have hi : m.Has (linkinfoAt d v pre + 4) (Rta.encode ([nameAttr iflaInfoKind .rmnet] ++ infoData ps :: [])) := h.has
  have hkind : ∀ x ∈ [nameAttr iflaInfoKind .rmnet], x.type.toNat ≠ iflaInfoData := by
    intro x hx
    rw [List.mem_singleton.mp hx, nameAttr_type (by decide)]
    decide
  obtain ⟨hl, hp⟩ := has_attr hi
  exact ⟨rtaFind_encode hi hkind (infoData_type ps) (by decide), hl, hp⟩

/-- The decoder finds the parameters of a link and takes them in. -/
theorem readLinkTable_link (h : m.Has nlmsgHeaders (Rta.encode (pre ++ linkAttrs d v ps)))
    (hlen : m.nat 0 4 = nlmsgHeaders + (Rta.encode (pre ++ linkAttrs d v ps)).length)
    (hshort : (Rta.encode (pre ++ linkAttrs d v ps)).length < 2 ^ 31) (hpre : ∀ x ∈ pre, x.type.toNat ≠ iflaLinkinfo) :
    readLinkTable.run m.load =
      some ((rtaParse rmnetctlIflaMax (datainfoAt d v pre + 4) (Rta.encode ps.attrs).length).run m.load) := by
  obtain ⟨hf1, hc1⟩ := linkInfo_found h hpre
  obtain ⟨hf2, hc2⟩ := infoData_found hc1
  simp only [readLinkTable, Prog.run_bind, Reader.run_rd, hlen, nlmsgPayload_eq hshort, hf1, hc1.payload, hf2, hc2.payload]
  rfl

end Decoding

end Pixel845.Rmnet
