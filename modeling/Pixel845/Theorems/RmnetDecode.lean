import Mathlib.Data.List.Induction
import Pixel845.Lemmas.RmnetCall
import Pixel845.Lemmas.RmnetLink
import Pixel845.Lemmas.RmnetReply
import Pixel845.Rmnet.Spec

/-!
# What a link reply says

A link reply is a tree: attributes, in one of them those of `IFLA_LINKINFO`, and in one of these those of `IFLA_INFO_DATA`.
`rtrmnet_ctl_getvnd` looks for the two by their bare types and assigns what it finds, without a look at the kind of the link and
without a complaint about what is missing. `link_decoded_iff` says for which replies this is what the reply describes.
-/

namespace Pixel845.Rmnet

/-- The type of an attribute, without its flags. -/
def kindOf (a : Rta) : Nat := a.type.toNat &&& nlaTypeMask

/-- The attribute is `IFLA_INFO_KIND` with `"rmnet"`. -/
def IsRmnet (a : Rta) : Prop := kindOf a = iflaInfoKind ∧ a.payload.takeWhile (· != 0) = CString.rmnet.bytes

/-- The widths of the parameters that the call reads. -/
def paramWidth : List (Nat × Nat) := [(rmnetctlIflaMuxId, 2), (rmnetctlIflaFlags, 8), (rmnetctlIflaUplinkParams, 8)]

/-- A well-formed `RTM_NEWLINK` reply: the headers behind its length, its attributes, those in its `IFLA_LINKINFO` and those in
the `IFLA_INFO_DATA` of that. An attribute that the driver knows is not repeated, and those of an rmnet link have their widths. -/
structure LinkReply where
  headers : List UInt8
  attrs : List Rta
  infos : List Rta
  params : List Rta
  headers_length : headers.length = 28
  short : (Rta.encode attrs).length < 2 ^ 31
  linkinfo : ∀ a ∈ attrs, kindOf a = iflaLinkinfo → a.payload = Rta.encode infos
  infoData : ∀ a ∈ infos, kindOf a = iflaInfoData → a.payload = Rta.encode params
  once : ∀ t ∈ paramWidth.map (·.1), (params.filter (kindOf · == t)).length ≤ 1
  wide : (∃ a ∈ infos, IsRmnet a) → ∀ w ∈ paramWidth, ∀ a ∈ params, kindOf a = w.1 → a.payload.length = w.2

namespace LinkReply

/-- The bytes of the reply. -/
def bytes (r : LinkReply) : List UInt8 :=
  leBytes 4 (nlmsgHeaders + (Rta.encode r.attrs).length) ++ r.headers ++ Rta.encode r.attrs

/-- The value of a field, if its attribute is there. -/
def value (r : LinkReply) (f : Field) : Option Nat :=
  (r.params.find? (kindOf · == f.type)).map fun a => leNat ((a.payload.drop f.off).take f.width)

/-- The reply describes an rmnet link with everything that the caller asks for. -/
def Describes (r : LinkReply) (o : GetvndOuts) : Prop :=
  (∃ a ∈ r.attrs, kindOf a = iflaLinkinfo) ∧ (∃ a ∈ r.infos, IsRmnet a) ∧ (∃ a ∈ r.infos, kindOf a = iflaInfoData) ∧
    ∀ f ∈ o.fields, ∃ a ∈ r.params, kindOf a = f.type

/-- `IFLA_LINKINFO` and `IFLA_INFO_DATA` are there, without flags in their types. -/
def Bare (r : LinkReply) : Prop :=
  (∃ a ∈ r.attrs, a.type.toNat = iflaLinkinfo) ∧ ∃ a ∈ r.infos, a.type.toNat = iflaInfoData

/-- The call succeeds exactly with a reply that describes what it was asked for, and then assigns all of it; it assigns nothing
from another one, and enters no attribute behind its table. -/
structure Decoded (r : LinkReply) (o : GetvndOuts) (x : Outcome) : Prop where
  success : x.rc = rmnetctlApiSuccess.toNat ↔ r.Describes o
  outs : r.Describes o → x.outs.map some = o.fields.map fun f => (r.value f).map f.out
  unchanged : ¬r.Describes o → x.outs = []
  inTable : ∀ (m : Image) (tb : Table), m.Has 0 r.bytes → readLinkTable.run m.load = some tb →
  ∀ i ∈ tb.written, i < rmnetctlIflaMax

end LinkReply

/-- The execution receives the reply, in a buffer with whatever lies behind it. -/
structure Gets (reply : List UInt8) (t : Events) : Prop where
  received : ∃ cap n, (⟨.recv cap, .ok n⟩ : Prog.Event Op.Res) ∈ t
  buffer : ∃ m : Image, m.Has 0 reply ∧ ∀ l v, (⟨.load l, v⟩ : Prog.Event Op.Res) ∈ t → v = m.load l

namespace DecodeAux

variable {m : Image} {off t : Nat} {as : List Rta} {a : Rta} {o : GetvndOuts} {p : Ptrs} {vndname : Option CString} {ev : Events}
  {x : Outcome} {r : LinkReply}

/-! ### Searching -/

/-- `rta_find` finds the first attribute of its bare type, or none. -/
theorem rtaFind_split (h : m.Has off (Rta.encode as)) (ht : t &&& nlaTypeMask = t) :
    (∀ a ∈ as, a.type.toNat ≠ t) ∧ (rtaFind off (Rta.encode as).length t).run m.load = none ∨
      ∃ a ∈ as, a.type.toNat = t ∧ ∃ attr, (rtaFind off (Rta.encode as).length t).run m.load = some attr ∧
        m.nat attr 2 = a.len ∧ m.Has (attr + 4) a.payload := by
  cases hfind : as.find? (·.type.toNat == t) with
  | none =>
    have hne : ∀ a ∈ as, a.type.toNat ≠ t := fun a ha => by simpa using List.find?_eq_none.mp hfind a ha
    refine .inl ⟨hne, ?_⟩
    rw [rtaFind, (Rta.chain_encode h (Nat.le_refl _)).run, ht]
    clear h hfind
    induction as generalizing off with
    | nil => rfl
    | cons a as ih =>
      have ha : a.type.toNat ≠ t := hne a (by simp)
      simp only [Rta.headers, List.foldl_cons, beq_eq_false_iff_ne.mpr ha, if_neg ha, Bool.false_eq_true, if_false]
      exact ih fun b hb => hne b (by simp [hb])
  | some a =>
    obtain ⟨ha, pre, post, rfl, hpre⟩ := List.find?_eq_some_iff_append.mp hfind
    have hpre' : ∀ b ∈ pre, b.type.toNat ≠ t := fun b hb => by simpa using hpre b hb
    have ha' : a.type.toNat = t := by simpa using ha
    obtain ⟨hl, hp⟩ := has_attr h
    exact .inr ⟨a, by simp, ha', _, rtaFind_encode h hpre' ha' ht, hl, hp⟩

/-! ### The table -/

/-- The table has the last attribute of a type, with its payload in memory, or what it had before. -/
def Entered (m : Image) (as : List Rta) (before after : Table) (t : Nat) : Prop :=
  (∀ a ∈ as, kindOf a ≠ t) ∧ after.entries t = before.entries t ∨
    ∃ a ∈ as, kindOf a = t ∧ ∃ attr, after.entries t = some attr ∧ m.Has (attr + 4) a.payload

/-- The loop enters each attribute in turn. -/
theorem foldl_entered (h : m.Has off (Rta.encode as)) (h0 : 0 < t) (ht : t ≤ rmnetctlIflaMax) (tb : Table) :
    Entered m as tb ((Rta.headers (fun _ => false) off as).foldl (fun tb x =>
      if 0 < x.type &&& nlaTypeMask ∧ x.type &&& nlaTypeMask ≤ rmnetctlIflaMax then
        tb.set (x.type &&& nlaTypeMask) x.off else tb) tb) t := by
  induction as generalizing off tb with
  | nil => exact .inl ⟨by simp, rfl⟩
  | cons a as ih =>
    rw [Rta.encode_cons, Image.has_append, Rta.bytes_length] at h
    obtain ⟨ha, has⟩ := h
    simp only [Rta.headers, List.foldl_cons, Bool.false_eq_true, if_false]
    rcases ih has _ with ⟨hnone, heq⟩ | ⟨b, hb, hkind, attr, heq, hp⟩
    · by_cases hk : kindOf a = t
      · refine .inr ⟨a, by simp, hk, off, ?_, (Rta.has_bytes ha).2.2⟩
        have hk' : a.type.toNat &&& nlaTypeMask = t := hk
        rw [heq, hk', if_pos ⟨h0, ht⟩, Table.set_entries, Function.update_self]
      · refine .inl ⟨List.forall_mem_cons.mpr ⟨hk, hnone⟩, heq.trans ?_⟩
        split
        · exact Function.update_of_ne (Ne.symm hk) _ _
        · rfl
    · exact .inr ⟨b, by simp [hb], hkind, attr, heq, hp⟩

/-- `rta_parse` enters the attributes of a list. -/
theorem rtaParse_entered (h : m.Has off (Rta.encode as)) (h0 : 0 < t) (ht : t ≤ rmnetctlIflaMax) :
    Entered m as .cleared ((rtaParse rmnetctlIflaMax off (Rta.encode as).length).run m.load) t := by
  rw [rtaParse_encode h]
  exact foldl_entered h h0 ht _

/-! ### The reader -/

/-- The fields are read from the attributes that were entered. -/
theorem readFields_run (tb : Table) (fs : List Field) :
    (readFields tb fs).run m.load =
      fs.filterMap fun f => (tb.entries f.type).map fun attr => f.out (m.nat (attr + 4 + f.off) f.width) := by
  induction fs with
  | nil => rfl
  | cons f fs ih =>
    rw [readFields]
    cases htb : tb.entries f.type with
    | none =>
      simp only [List.filterMap_cons, htb, Option.map_none]
      exact ih
    | some attr =>
      simp only [Prog.run_bind, Reader.run_rd, ih, List.filterMap_cons, htb, Option.map_some]
      rfl

/-- The attributes of a reply in a buffer, and its length. -/
theorem frames_of_reply (hm : m.Has 0 r.bytes) : Frames m r.attrs := by
  rw [LinkReply.bytes, Image.has_append, Image.has_append] at hm
  obtain ⟨⟨hlen, -⟩, hattrs⟩ := hm
  simp only [List.length_append, leBytes_length, r.headers_length, Nat.zero_add] at hattrs
  have hshort := r.short
  refine ⟨hattrs, ?_, hshort⟩
  rw [hlen.nat_eq]
  exact Nat.mod_eq_of_lt (by simp only [nlmsgHeaders]; omega)

/-- The payload of an attribute as the code counts it. -/
theorem payload_len {attr : Nat} (h : m.nat attr 2 = a.len) : ((m.nat attr 2 : Nat) : Int) - 4 = a.payload.length := by
  rw [h, Rta.len]
  push_cast
  omega

/-- A bare type is its own kind. -/
theorem kindOf_bare (ht : t &&& nlaTypeMask = t) (h : a.type.toNat = t) : kindOf a = t := by
  rw [kindOf, h, ht]

/-- The walk over encoded attributes comes across their types. -/
theorem headers_kinds (off : Nat) (as : List Rta) :
    ((Rta.headers (fun _ => false) off as).map fun x => x.type &&& nlaTypeMask) = as.map kindOf := by
  induction as generalizing off with
  | nil => rfl
  | cons a as ih =>
    simp only [Rta.headers, Bool.false_eq_true, if_false, List.map_cons, ih]
    rfl

/-- The table has the attributes of the parameters: what is entered for a type, and which indices are written. -/
structure TableOf (m : Image) (r : LinkReply) (tb : Table) : Prop where
  entered : ∀ t, 0 < t → t ≤ rmnetctlIflaMax → Entered m r.params .cleared tb t
  written : tb.written = (r.params.map kindOf).filter fun t => 0 < t ∧ t ≤ rmnetctlIflaMax

/-- The parameters of a reply are taken in if it has them under bare types. -/
theorem readLinkTable_reply (hm : m.Has 0 r.bytes) :
    (¬r.Bare ∧ readLinkTable.run m.load = none) ∨ r.Bare ∧ ∃ tb, readLinkTable.run m.load = some tb ∧ TableOf m r tb := by
  have hframes := frames_of_reply hm
  simp only [readLinkTable, Prog.run_bind, Reader.run_rd, hframes.len, nlmsgPayload_eq hframes.short]
  rcases rtaFind_split hframes.has (by decide : iflaLinkinfo &&& nlaTypeMask = iflaLinkinfo) with
    ⟨hnone, hrun⟩ | ⟨linkinfo, hmem, htype, attr, hrun, hlen, hpayload⟩
  · refine .inl ⟨fun h => ?_, by rw [hrun]; rfl⟩
    obtain ⟨a, ha, hat⟩ := h.1
    exact hnone a ha hat
  rw [r.linkinfo linkinfo hmem (kindOf_bare (by decide) htype)] at hpayload
  have hinfos : (linkinfo.payload.length : Int) = (Rta.encode r.infos).length := by
    rw [r.linkinfo linkinfo hmem (kindOf_bare (by decide) htype)]
  simp only [hrun, Prog.run_bind, Reader.run_rd, payload_len hlen, hinfos]
  rcases rtaFind_split hpayload (by decide : iflaInfoData &&& nlaTypeMask = iflaInfoData) with
    ⟨hnone, hrun'⟩ | ⟨datainfo, hmem', htype', attr', hrun', hlen', hpayload'⟩
  · refine .inl ⟨fun h => ?_, by rw [hrun']; rfl⟩
    obtain ⟨a, ha, hat⟩ := h.2
    exact hnone a ha hat
  rw [r.infoData datainfo hmem' (kindOf_bare (by decide) htype')] at hpayload'
  have hparams : (datainfo.payload.length : Int) = (Rta.encode r.params).length := by
    rw [r.infoData datainfo hmem' (kindOf_bare (by decide) htype')]
  refine .inr ⟨⟨⟨linkinfo, hmem, htype⟩, ⟨datainfo, hmem', htype'⟩⟩,
    (rtaParse rmnetctlIflaMax (attr' + 4) (Rta.encode r.params).length).run m.load, ?_,
    fun t h0 ht => rtaParse_entered hpayload' h0 ht, ?_⟩
  · simp only [hrun', Prog.run_bind, Reader.run_rd, payload_len hlen', hparams]
    rfl
  · rw [rtaParse_written (Rta.chain_encode hpayload' (Nat.le_refl _)), headers_kinds]

/-- What the call makes of a reply: it reads the fields of the attributes that are there, or it fails. -/
theorem readLink_run (o : GetvndOuts) :
    (readLink o).run m.load = match readLinkTable.run m.load with
      | none => { rc := rmnetctlKernelErr, errorCode := some rmnetctlApiErrRtaFailure }
      | some tb => { rc := rmnetctlApiSuccess.toNat, outs := (readFields tb o.fields).run m.load } := by
  rw [readLink, Prog.run_bind]
  cases readLinkTable.run m.load with
  | none => rfl
  | some tb => exact Prog.run_bind ..

/-! ### Values -/

/-- The fields lie in the parameters. -/
theorem fields_width (o : GetvndOuts) : ∀ f ∈ o.fields, ∃ w ∈ paramWidth, w.1 = f.type ∧ f.off + f.width ≤ w.2 := by
  intro f hf
  simp only [GetvndOuts.fields, List.mem_append, List.mem_ite_nil_right, List.mem_singleton] at hf
  rcases hf with ((((⟨-, rfl⟩ | ⟨-, rfl⟩) | ⟨-, rfl⟩) | ⟨-, rfl⟩) | ⟨-, rfl⟩) | ⟨-, rfl⟩ <;> simp [paramWidth]

/-- A number in memory that lies in bytes that are known. -/
theorem nat_in {bs : List UInt8} {i w : Nat} (h : m.Has off bs) (hw : i + w ≤ bs.length) :
    m.nat (off + i) w = leNat ((bs.drop i).take w) := by
  obtain ⟨k, hk⟩ := Nat.exists_eq_add_of_le hw
  have hread : m.read off bs.length = bs := h
  rw [hk, Image.read_add, Image.read_add] at hread
  rw [Image.nat, ← hread, List.append_assoc, List.drop_left' (Image.read_length _ _ _), List.take_left' (Image.read_length _ _ _)]

/-- An attribute that comes once has the value of its field. -/
theorem value_of_once {f : Field} (honce : (r.params.filter (kindOf · == f.type)).length ≤ 1) (ha : a ∈ r.params)
    (hk : kindOf a = f.type) : r.value f = some (leNat ((a.payload.drop f.off).take f.width)) := by
  have hmem : a ∈ r.params.filter (kindOf · == f.type) := List.mem_filter.mpr ⟨ha, by simp [hk]⟩
  obtain ⟨b, hb⟩ := List.length_eq_one_iff.mp (le_antisymm honce (List.length_pos_of_mem hmem))
  rw [hb, List.mem_singleton] at hmem
  rw [LinkReply.value, ← List.head?_filter, hb, hmem]
  rfl

/-- A field of a reply that describes the link has the value that the call reads. -/
theorem field_read {tb : Table} {f : Field} (hd : r.Describes o) (hf : f ∈ o.fields)
    (htb : Entered m r.params .cleared tb f.type) :
    ((tb.entries f.type).map fun attr => f.out (m.nat (attr + 4 + f.off) f.width)) = (r.value f).map f.out ∧
      ((r.value f).map f.out).isSome := by
  obtain ⟨w, hw, hwt, hwidth⟩ := fields_width o f hf
  obtain ⟨b, hb, hbk⟩ := hd.2.2.2 f hf
  rcases htb with ⟨hnone, -⟩ | ⟨a, ha, hk, attr, htb, hp⟩
  · exact absurd hbk (hnone b hb)
  · have hlen := r.wide hd.2.1 w hw a ha (hk.trans hwt.symm)
    have honce := r.once f.type (hwt ▸ List.mem_map_of_mem hw)
    rw [value_of_once honce ha hk, htb, Option.map_some, Option.map_some, nat_in hp (by omega)]
    exact ⟨rfl, rfl⟩

/-- Where all fields have a value, none is left out. -/
theorem filterMap_of_some {fs : List Field} {g : Field → Option Output} (h : ∀ f ∈ fs, (g f).isSome) :
    (fs.filterMap g).map some = fs.map g := by
  induction fs with
  | nil => rfl
  | cons f fs ih =>
    obtain ⟨y, hy⟩ := Option.isSome_iff_exists.mp (h f (by simp))
    rw [List.filterMap_cons, hy, List.map_cons, List.map_cons, hy, ih fun f hf => h f (by simp [hf])]

/-- The indices that are written lie in the table exactly if no parameter has the type behind its last entry. -/
theorem written_iff {tb : Table} (htb : TableOf m r tb) :
    (∀ i ∈ tb.written, i < rmnetctlIflaMax) ↔ ∀ a ∈ r.params, kindOf a ≠ rmnetctlIflaMax := by
  have hpos : 0 < rmnetctlIflaMax := by decide
  simp only [htb.written, List.mem_filter, List.mem_map, decide_eq_true_eq]
  constructor
  · intro h a ha hkind
    exact Nat.lt_irrefl _ (h _ ⟨⟨a, ha, hkind⟩, hpos, Nat.le_refl _⟩)
  · rintro h i ⟨⟨a, ha, rfl⟩, -, hle⟩
    exact lt_of_le_of_ne hle (h a ha)

/-- When a reply is decoded. -/
theorem readLink_decoded_iff (hm : m.Has 0 r.bytes) (o : GetvndOuts) :
    r.Decoded o ((readLink o).run m.load) ↔
      (r.Bare ↔ r.Describes o) ∧ (r.Bare → ∀ a ∈ r.params, kindOf a ≠ rmnetctlIflaMax) := by
  have hne : rmnetctlKernelErr ≠ rmnetctlApiSuccess.toNat := by decide
  rcases readLinkTable_reply hm with ⟨hbare, htable⟩ | ⟨hbare, tb, htable, htb⟩
  · rw [readLink_run, htable]
    constructor
    · intro h
      exact ⟨iff_of_false hbare fun hd => hne (h.success.mpr hd), fun h => absurd h hbare⟩
    · rintro ⟨h, -⟩
      have hd : ¬r.Describes o := fun hd => hbare (h.mpr hd)
      refine ⟨iff_of_false hne hd, fun h => absurd h hd, fun _ => rfl, fun m' tb hm' htb => ?_⟩
      rcases readLinkTable_reply hm' with ⟨-, hnone⟩ | ⟨hbare', -⟩
      · rw [hnone] at htb
        cases htb
      · exact absurd hbare' hbare
  · rw [readLink_run, htable]
    simp only [readFields_run]
    constructor
    · intro h
      exact ⟨iff_of_true hbare (h.success.mp rfl), fun _ => (written_iff htb).mp (h.inTable m tb hm htable)⟩
    · rintro ⟨h, hkinds⟩
      have hd := h.mp hbare
      have hread := fun f hf => field_read hd hf (htb.entered f.type (fields_type o f hf).1 (fields_type o f hf).2)
      refine ⟨iff_of_true rfl hd, ?_, fun h => absurd hd h, fun m' tb' hm' htable' => ?_⟩
      · intro _
        rw [filterMap_of_some fun f hf => by rw [(hread f hf).1]; exact (hread f hf).2]
        exact List.map_congr_left fun f hf => (hread f hf).1
      · rcases readLinkTable_reply hm' with ⟨hbare', -⟩ | ⟨-, tb'', htable'', htb'⟩
        · exact absurd hbare hbare'
        · rw [htable'] at htable''
          obtain rfl := Option.some.inj htable''
          exact (written_iff htb').mpr (hkinds hbare)

/-! ### Calls -/

/-- A reader that is answered from one memory. -/
theorem fromBuffer_run {rd : Reader Outcome} (hx : (fromBuffer rd).Exec ev x)
    (hm : ∀ l v, (⟨.load l, v⟩ : Prog.Event Op.Res) ∈ ev → v = m.load l) : x = rd.run m.load := by
  induction rd generalizing ev with
  | ret y =>
    cases hx
    rfl
  | op l k ih =>
    cases hx with
    | op _ v hx =>
      have hv : v = m.load l := hm l v List.mem_cons_self
      rw [Prog.run_op, ← hv]
      exact ih v hx fun l v h => hm l v (.tail _ h)

/-- The receive of a link reply, in an execution in which a receive succeeds. -/
theorem receiveLink_received (hx : (receiveLink o).Exec ev x) (hrecv : ∃ cap n, (⟨.recv cap, .ok n⟩ : Prog.Event Op.Res) ∈ ev)
    (hm : ∀ l v, (⟨.load l, v⟩ : Prog.Event Op.Res) ∈ ev → v = m.load l) : x = (readLink o).run m.load := by
  obtain ⟨cap, n, hrecv⟩ := hrecv
  cases hx with | op _ peek hx =>
  cases peek with
  | error e =>
    cases hx
    simp at hrecv
  | ok respLen =>
  cases hx with | op _ buf hx =>
  cases buf with
  | error e =>
    cases hx
    simp at hrecv
  | ok _ =>
  cases hx with | op _ got hx =>
  cases got with
  | error e =>
    cases hx
    simp at hrecv
  | ok _ => exact fromBuffer_run hx fun l v h => hm l v (.tail _ (.tail _ (.tail _ h)))

/-- A call that receives the reply ends with what it makes of it. -/
theorem getvnd_received (hx : ((RtmCall.getvnd vndname o).body p).Exec ev x) (hg : Gets r.bytes ev) :
    ∃ m : Image, m.Has 0 r.bytes ∧ x = (readLink o).run m.load := by
  obtain ⟨⟨cap, n, hrecv⟩, m, hm, hload⟩ := hg
  refine ⟨m, hm, ?_⟩
  rw [body_eq] at hx
  cases vndname with
  | none =>
    cases hx
    cases hrecv
  | some name =>
  simp only [RtmCall.request, indexRequest] at hx
  split at hx
  · cases hx with | op _ stack hx =>
    cases hx with | op _ seq hx =>
    cases hx with | op _ index hx =>
    change Prog.Exec (if index.1 = 0 then _ else _) _ _ at hx
    split at hx
    · cases hx
      simp at hrecv
    · cases hx with | op _ sent hx =>
      cases sent with
      | error e =>
        cases hx
        simp at hrecv
      | ok _ =>
        have hrecv' := (((List.mem_of_ne_of_mem (by simp) hrecv) |> List.mem_of_ne_of_mem (by simp)) |>
          List.mem_of_ne_of_mem (by simp)) |> List.mem_of_ne_of_mem (by simp)
        exact receiveLink_received hx ⟨cap, n, hrecv'⟩ fun l v h => hload l v (.tail _ (.tail _ (.tail _ (.tail _ h))))
  · cases hx
    cases hrecv

end DecodeAux

/-- The MUX ID is asked for. -/
def askMuxId : GetvndOuts := ⟨true, false, false, false, false, false⟩

/-- The execution of a call that asks for it. -/
def asked (reply : List UInt8) : Events :=
  (surroundings reply).events ((RtmCall.getvnd (some rmnetData0.name) askMuxId).body ⟨true, true⟩)

/-- How that call ends. -/
def answered (reply : List UInt8) : Outcome :=
  ((RtmCall.getvnd (some rmnetData0.name) askMuxId).body ⟨true, true⟩).run (surroundings reply).answer

/-- A program that asks gets the reply. -/
theorem gets_asked {reply : List UInt8} (cap : Nat)
    (h : Op.recv cap ∈ ((RtmCall.getvnd (some rmnetData0.name) askMuxId).body ⟨true, true⟩).trace (surroundings reply).answer) :
    Gets reply (asked reply) where
  received := ⟨cap, min cap reply.length, List.mem_map.mpr ⟨_, h, rfl⟩⟩
  buffer := by
    refine ⟨Image.zero.write 0 reply, Image.has_write _ _ _, ?_⟩
    intro l v hl
    obtain ⟨o, -, ho⟩ := List.mem_map.mp hl
    cases ho
    rfl

/-- The reply about an rmnet link with MUX ID 1 and flags. -/
def rmnetReply : LinkReply where
  headers := List.replicate 28 0
  attrs := linkAttrs 3 rmnetData0 (vndParams 1 5)
  infos := linkInfos (vndParams 1 5)
  params := (vndParams 1 5).attrs
  headers_length := by decide
  short := by decide
  linkinfo := by decide
  infoData := by decide
  once := by decide
  wide := fun _ => by decide

/-- The kind of a VLAN link. -/
def vlan : DevName := ⟨⟨[0x76, 0x6c, 0x61, 0x6e], by decide⟩, by decide⟩

/-- The identifier has two bytes. -/
theorem vlanId_small : 2 < 16 := by decide

/-- The number of a VLAN, under the type that is `RMNETCTL_IFLA_MUX_ID` in an rmnet link. -/
def vlanParams : List Rta := [numAttr 1 2 100 vlanId_small]

/-- The children of `IFLA_LINKINFO` of a VLAN link. -/
def vlanInfos : List Rta := [nameAttr iflaInfoKind vlan, .nest (.ofNat iflaInfoData) vlanParams (by decide)]

/-- The reply about a VLAN link. -/
def vlanReply : LinkReply where
  headers := List.replicate 28 0
  attrs := [.nest (.ofNat iflaLinkinfo) vlanInfos (by decide)]
  infos := vlanInfos
  params := vlanParams
  headers_length := by decide
  short := by decide
  linkinfo := by decide
  infoData := by decide
  once := by decide
  wide := fun _ => by decide

/-- The link of a VLAN is no rmnet link. -/
theorem vlan_not_rmnet : ¬∃ a ∈ vlanReply.infos, IsRmnet a := by
  rintro ⟨a, ha, hk, hname⟩
  rcases List.mem_cons.mp ha with rfl | ha
  · exact absurd hname (by decide)
  · rw [List.mem_singleton.mp ha] at hk
    exact absurd hk (by decide)

end Pixel845.Rmnet
