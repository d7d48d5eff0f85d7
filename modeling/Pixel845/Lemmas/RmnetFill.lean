import Pixel845.Rmnet.Message

/-!
# What the attribute builder does

`rta_put` always returns success; whether it copied the payload depends on the pointer and on `reqsize` alone. `Holds` describes a
message that was filled so far without loss: its length field and its bytes are those of a list of bytes, the rest is still clear,
and `reqsize` is far enough from its end. Every put that fits appends its attribute (`rtaPut_holds`), and the end of a nested
attribute patches its length (`rtaNestedEnd_holds`).
-/

namespace Pixel845.Rmnet

variable {req : Req} {type len : Int32} {data : Option Image}

/-! ## One put -/

/-- Bytes that are stored are written. -/
@[simp] theorem Req.store_mem (req : Req) (off : Nat) (bs : List UInt8) : (req.store off bs).mem = req.mem.write off bs := rfl

/-- A store leaves the room that is counted. -/
@[simp] theorem Req.store_reqsize (req : Req) (off : Nat) (bs : List UInt8) : (req.store off bs).reqsize = req.reqsize := rfl

@[simp] theorem Req.store_stores (req : Req) (off : Nat) (bs : List UInt8) :
    (req.store off bs).stores = req.stores ++ [(off, bs)] := rfl

/-- The header of an attribute at the tail of the message. -/
def Req.putHeader (req : Req) (type len : Int32) : Req :=
  (req.store (req.tail + 2) (leBytes 2 (type.toInt % 2 ^ 16).toNat)).store req.tail
    (leBytes 2 ((4 + len.toInt) % 2 ^ 16).toNat)

/-- The length of the message, moved behind the attribute at an offset. -/
def Req.bump (req : Req) (attr : Nat) : Req := req.store 0 (leBytes 4 (req.tail + align4 (req.mem.nat attr 2)))

/-- The payload that a put copies, if it copies any. -/
def payloadCopied (req : Req) (len : Int32) : Option Image → Option (List UInt8)
  | none => none
  | some src => if toSizeT len < req.reqsize then some (src.read 0 (toSizeT len)) else none

/-- The message after the payload of the attribute at an offset was copied, or not. -/
def Req.copied (req : Req) (attr : Nat) : Option (List UInt8) → Req
  | none => req
  | some bs => { req.store (attr + 4) bs with reqsize := req.reqsize - bs.length }

/-- A copy writes the payload behind the header of the attribute. -/
theorem Req.copied_mem (req : Req) (attr : Nat) (o : Option (List UInt8)) :
    (req.copied attr o).mem = req.mem.write (attr + 4) (o.getD []) := by
  cases o with
  | none => exact (Image.write_nil _ _).symm
  | some bs => rfl

/-- A copy takes its length from the room. -/
theorem Req.copied_reqsize (req : Req) (attr : Nat) (o : Option (List UInt8)) :
    (req.copied attr o).reqsize = req.reqsize - (o.getD []).length := by
  cases o <;> rfl

/-- What `memscpy_repeat` returns is never negative: the error is positive too. -/
theorem memscpyRepeat_fst (dst : Nat) (src : Option Image) (n : Nat) (req : Req) : 0 ≤ (memscpyRepeat dst src n req).1 := by
  cases src with
  | none => exact Int.zero_le_ofNat 1
  | some src =>
    by_cases h : req.reqsize ≤ n
    · simp [memscpyRepeat, h, rmnetctlLibErr]
    · simp [memscpyRepeat, h]

/-- The loop of copies writes the payload. -/
theorem memscpyRepeat_snd (attr : Nat) (src : Option Image) (len : Int32) (req : Req) :
    (memscpyRepeat (attr + 4) src (toSizeT len) req).2 = req.copied attr (payloadCopied req len src) := by
  cases src with
  | none => rfl
  | some src =>
    by_cases h : toSizeT len < req.reqsize
    · simp [memscpyRepeat, payloadCopied, Req.copied, h, not_le.mpr h]
    · simp [memscpyRepeat, payloadCopied, Req.copied, h, not_lt.mp h]

/-- A put never fails: the error for a payload that was not copied is taken for a size. -/
theorem rtaPut_eq (type len : Int32) (data : Option Image) (req : Req) :
    rtaPut type len data req =
      (rmnetctlSuccess, ((req.putHeader type len).copied req.tail (payloadCopied req len data)).bump req.tail) := by
  have h1 := memscpyRepeat_fst (req.tail + 4) data (toSizeT len) (req.putHeader type len)
  have h2 := memscpyRepeat_snd req.tail data len (req.putHeader type len)
  have h3 : payloadCopied (req.putHeader type len) len data = payloadCopied req len data := by cases data <;> rfl
  rw [h3] at h2
  simp only [rtaPut]
  change (if (memscpyRepeat (req.tail + 4) data (toSizeT len) (req.putHeader type len)).1 < 0 then _ else _) = _
  rw [if_neg (not_lt.mpr h1), ← h2]
  rfl

/-- The ranges a put stores into: the type and the length of the attribute, its payload if it is copied, and the length of the
message. -/
theorem rtaPut_stores (type len : Int32) (data : Option Image) (req : Req) :
    ∃ t l n : List UInt8, t.length = 2 ∧ l.length = 2 ∧ n.length = 4 ∧
      (rtaPut type len data req).2.stores = req.stores ++ [(req.tail + 2, t), (req.tail, l)] ++
        (payloadCopied req len data).toList.map (fun bs => (req.tail + 4, bs)) ++ [(0, n)] := by
  refine ⟨leBytes 2 (type.toInt % 2 ^ 16).toNat, leBytes 2 ((4 + len.toInt) % 2 ^ 16).toNat,
    leBytes 4 (((req.putHeader type len).copied req.tail (payloadCopied req len data)).tail +
      align4 (((req.putHeader type len).copied req.tail (payloadCopied req len data)).mem.nat req.tail 2)),
    leBytes_length .., leBytes_length .., leBytes_length .., ?_⟩
  rw [rtaPut_eq]
  cases payloadCopied req len data <;> simp [Req.putHeader, Req.copied, Req.bump]

/-! ## Messages that were filled without loss -/

/-- The message holds these bytes as its attributes, and `reqsize` counts more than the space that is left, but for the four bytes
of a first header. -/
structure Holds (req : Req) (bs : List UInt8) : Prop where
  len : req.nlmsgLen = nlmsgHeaders + bs.length
  dvd : 4 ∣ bs.length
  space : nlmsgHeaders + bs.length ≤ nlmsgSize
  has : req.mem.Has nlmsgHeaders bs
  clear : ∀ i, nlmsgHeaders + bs.length ≤ i → i < nlmsgSize → req.mem i = 0
  room : if bs.length = 0 then req.reqsize = 496 else 500 ≤ req.reqsize + bs.length

/-- A message as the RTM calls start it has no attributes yet. -/
theorem initReq_holds (stack : Image) (type flags : Nat) (seq : UInt32) : Holds (initReq stack type flags seq) [] where
  len := by
    simp only [Req.nlmsgLen, initReq]
    rw [Image.nat_write_outside (by simp), Image.nat_write_outside (by simp), Image.nat_write_leBytes]
    rfl
  dvd := Nat.dvd_zero 4
  space := by decide
  has := Image.has_nil _ _
  clear := by
    intro i hi hi'
    simp only [nlmsgHeaders, List.length_nil] at hi
    simp only [initReq]
    rw [Image.write_outside (by simp; omega), Image.write_outside (by simp; omega), Image.write_outside (by simp; omega),
      Image.write_outside (by simp; omega)]
    simp [Image.clear, hi']
  room := by simp [initReq]

section Holds

variable {bs : List UInt8} {a : Rta}

/-- The index of the interface lies before the attributes. -/
theorem Holds.setIfiIndex (h : Holds req bs) (devindex : UInt32) : Holds (req.setIfiIndex devindex) bs where
  len := by
    rw [Req.nlmsgLen, Req.setIfiIndex, Req.store_mem, Image.nat_write_outside (by simp)]
    exact h.len
  dvd := h.dvd
  space := h.space
  has := h.has.write (.inr (by simp [nlmsgHeaders]))
  clear := by
    intro i hi hi'
    rw [Req.setIfiIndex, Req.store_mem, Image.write_outside (.inr ?_)]
    · exact h.clear i hi hi'
    · simp only [leBytes_length]
      simp only [nlmsgHeaders] at hi
      omega
  room := h.room

/-- The next attribute goes behind those that are there. -/
theorem Holds.tail (h : Holds req bs) : req.tail = nlmsgHeaders + bs.length := by
  have h1 := h.space
  have h2 := h.dvd
  rw [Req.tail, h.len, align4_of_dvd (by simp only [nlmsgHeaders]; omega)]
  simp only [nlmsgHeaders, nlmsgSize] at h1 ⊢
  omega

/-- The attribute is what a put is asked for. -/
structure Asks (a : Rta) (type len : Int32) (data : Option Image) : Prop where
  type : (type.toInt % 2 ^ 16).toNat = a.type.toNat
  len : len.toInt = a.payload.length
  data : data = none ∧ a.payload = [] ∨ ∃ src, data = some src ∧ src.Has 0 a.payload

/-- The attribute and its payload fit: the message has space for the attribute, and a first payload is not one of 496 bytes. -/
def Fits (used size : Nat) : Prop := nlmsgHeaders + used + 4 + size ≤ nlmsgSize ∧ ¬(used = 0 ∧ size = 496)

instance (used size : Nat) : Decidable (Fits used size) := by unfold Fits; infer_instance

/-- What fits is less than the room that is counted. -/
theorem Holds.lt_reqsize (h : Holds req bs) {size : Nat} (hf : Fits bs.length size) : size < req.reqsize := by
  have h1 := h.room
  obtain ⟨hf, hne⟩ := hf
  simp only [nlmsgHeaders, nlmsgSize] at hf
  by_cases hb : bs.length = 0
  · rw [if_pos hb] at h1
    omega
  · rw [if_neg hb] at h1
    omega

/-- The length that is asked for is that of the payload. -/
theorem Asks.sizeT (h : Asks a type len data) : toSizeT len = a.payload.length := by
  rw [toSizeT, h.len]
  have := a.fits
  omega

/-- The payload that is copied for a put that fits. -/
theorem Holds.payloadCopied (h : Holds req bs) (ha : Asks a type len data) (hf : Fits bs.length a.payload.length) :
    (payloadCopied req len data).getD [] = a.payload := by
  have hlt := h.lt_reqsize hf
  rcases ha.data with ⟨rfl, hnil⟩ | ⟨src, rfl, hsrc⟩
  · exact hnil.symm
  · simp only [Rmnet.payloadCopied, ha.sizeT, hlt, if_true, Option.getD_some]
    exact hsrc

/-- The header that a put stores is that of the attribute. -/
theorem putHeader_eq (ha : Asks a type len data) :
    req.putHeader type len =
      (req.store (req.tail + 2) (leBytes 2 a.type.toNat)).store req.tail (leBytes 2 a.len) := by
  have h1 := a.fits
  have hl : ((4 + len.toInt) % 2 ^ 16).toNat = a.len := by
    rw [ha.len, Rta.len]
    omega
  rw [Req.putHeader, ha.type, hl]

/-- The memory after a put that fits. -/
theorem Holds.put_mem (h : Holds req bs) (ha : Asks a type len data) (hf : Fits bs.length a.payload.length) :
    (rtaPut type len data req).2.mem =
      (((req.mem.write (nlmsgHeaders + bs.length + 2) (leBytes 2 a.type.toNat)).write (nlmsgHeaders + bs.length)
        (leBytes 2 a.len)).write (nlmsgHeaders + bs.length + 4) a.payload).write 0
          (leBytes 4 (nlmsgHeaders + bs.length + align4 a.len)) := by
  have hlen := h.len
  have htail := h.tail
  have h2 : a.len % 256 ^ 2 = a.len := Nat.mod_eq_of_lt a.fits
  have h32 : nlmsgHeaders = 32 := rfl
  -- Neither the stores behind the attributes nor those behind the length of the new one change what they say.
  have hlen' : (((req.putHeader type len).copied req.tail (Rmnet.payloadCopied req len data))).nlmsgLen =
      nlmsgHeaders + bs.length := by
    rw [Req.nlmsgLen, Req.copied_mem, putHeader_eq ha, Req.store_mem, Req.store_mem, htail]
    rw [Image.nat_write_outside (by omega), Image.nat_write_outside (by omega), Image.nat_write_outside (by omega)]
    exact hlen
  have htail' : (((req.putHeader type len).copied req.tail (Rmnet.payloadCopied req len data))).tail =
      nlmsgHeaders + bs.length := by
    rw [Req.tail, hlen', ← hlen, ← Req.tail]
    exact htail.trans hlen.symm
  have hattr : (((req.putHeader type len).copied req.tail (Rmnet.payloadCopied req len data))).mem.nat req.tail 2 = a.len := by
    rw [Req.copied_mem, Image.nat_write_outside (by omega), putHeader_eq ha, Req.store_mem, Image.nat_write_leBytes, h2]
  rw [rtaPut_eq]
  simp only [Req.bump, Req.store_mem, htail', hattr]
  rw [Req.copied_mem, h.payloadCopied ha hf, putHeader_eq ha, Req.store_mem, Req.store_mem, htail]

/-- Putting an attribute takes the length of its payload from the room. -/
theorem Holds.put_reqsize (h : Holds req bs) (ha : Asks a type len data) (hf : Fits bs.length a.payload.length) :
    (rtaPut type len data req).2.reqsize = req.reqsize - a.payload.length := by
  rw [rtaPut_eq]
  simp only [Req.bump, Req.store_reqsize]
  rw [Req.copied_reqsize, h.payloadCopied ha hf]
  rfl

/-- The stores of a put, in front of clear memory, leave the attribute with its padding. -/
theorem has_bytes_of_stores {m : Image} {t n : Nat} (a : Rta) (h4 : 4 ≤ t)
    (hz : ∀ i, t ≤ i → i < t + align4 a.len → m i = 0) :
    ((((m.write (t + 2) (leBytes 2 a.type.toNat)).write t (leBytes 2 a.len)).write (t + 4) a.payload).write 0
      (leBytes 4 n)).Has t a.bytes := by
  have hle : 4 + a.payload.length ≤ align4 a.len := le_align4 a.len
  rw [Rta.bytes, Rta.header, Image.has_append, Image.has_append, Image.has_append]
  simp only [List.length_append, leBytes_length]
  refine ⟨⟨⟨?_, ?_⟩, ?_⟩, ?_⟩
  · refine ((Image.has_write _ _ _).write ?_).write ?_
    all_goals simp only [leBytes_length]; omega
  · refine (((Image.has_write _ _ _).write ?_).write ?_).write ?_
    all_goals simp only [leBytes_length]; omega
  · refine (Image.has_write _ _ _).write ?_
    simp only [leBytes_length]
    omega
  · refine Image.has_replicate ?_
    intro i hi hi'
    simp only [Rta.len] at hi'
    rw [Image.write_outside (by simp; omega), Image.write_outside (by omega), Image.write_outside (by simp; omega),
      Image.write_outside (by simp; omega)]
    refine hz i (by omega) ?_
    simp only [Rta.len]
    omega

/-- A put that fits appends its attribute. -/
theorem rtaPut_holds (h : Holds req bs) (ha : Asks a type len data) (hf : Fits bs.length a.payload.length) :
    Holds (rtaPut type len data req).2 (bs ++ a.bytes) := by
  have hmem := h.put_mem ha hf
  have hlt := h.lt_reqsize hf
  have hle : 4 + a.payload.length ≤ align4 a.len := le_align4 a.len
  have hspace : nlmsgHeaders + (bs.length + align4 a.len) ≤ nlmsgSize := by
    obtain ⟨hf, -⟩ := hf
    have hdvd := h.dvd
    simp only [nlmsgHeaders, nlmsgSize] at hf ⊢
    have : align4 a.len ≤ 500 - bs.length := align4_le_of_dvd (by omega) (by simp only [Rta.len]; omega)
    omega
  have h32 : nlmsgHeaders = 32 := rfl
  have h532 : nlmsgSize = 532 := rfl
  refine ⟨?_, ?_, ?_, ?_, ?_, ?_⟩
  · rw [Req.nlmsgLen, hmem, Image.nat_write_leBytes, List.length_append, Rta.bytes_length, Nat.add_assoc]
    exact Nat.mod_eq_of_lt (by omega)
  · rw [List.length_append, Rta.bytes_length]
    exact Nat.dvd_add h.dvd (align4_dvd _)
  · rw [List.length_append, Rta.bytes_length]
    exact hspace
  · rw [hmem, Image.has_append]
    constructor
    · refine (((h.has.write (.inl ?_)).write (.inl ?_)).write (.inl ?_)).write (.inr ?_)
      · omega
      · exact Nat.le_refl _
      · omega
      · rw [leBytes_length]
        omega
    · exact has_bytes_of_stores a (by omega) (fun i hi hi' => h.clear i hi (by omega))
  · intro i hi hi'
    rw [List.length_append, Rta.bytes_length] at hi
    rw [hmem, Image.write_outside (by simp; omega), Image.write_outside (by omega), Image.write_outside (by simp; omega),
      Image.write_outside (by simp; omega)]
    exact h.clear i (by omega) hi'
  · rw [h.put_reqsize ha hf, List.length_append, Rta.bytes_length]
    have hroom := h.room
    rw [if_neg (by omega)]
    split at hroom <;> omega

/-! ## Nested attributes -/

/-- The end of a nested attribute patches the length in its header, so that it covers what was put since its start. -/
theorem rtaNestedEnd_holds {bs cs : List UInt8} (h : Holds req (bs ++ (Rta.start a.type).bytes ++ cs)) (hc : a.payload = cs)
    (hd : 4 ∣ cs.length) : Holds (rtaNestedEnd (nlmsgHeaders + bs.length) req) (bs ++ a.bytes) := by
  have h32 : nlmsgHeaders = 32 := rfl
  have hal : align4 a.len = a.len := align4_of_dvd (by rw [Rta.len, hc]; omega)
  have hbytes : a.bytes = leBytes 2 a.len ++ leBytes 2 a.type.toNat ++ cs := by
    rw [Rta.bytes, hal, Nat.sub_self, List.replicate_zero, List.append_nil, hc]
    rfl
  have hlen : a.bytes.length = 4 + cs.length := by rw [Rta.bytes_length, hal, Rta.len, hc]
  have htotal : (bs ++ (Rta.start a.type).bytes ++ cs).length = (bs ++ a.bytes).length := by
    rw [Rta.start_bytes]
    simp only [List.length_append, leBytes_length, hlen]
    omega
  have hpatch : req.tail - (nlmsgHeaders + bs.length) = a.len := by
    rw [h.tail, htotal, List.length_append, hlen, Rta.len, hc]
    omega
  have hhas := h.has
  rw [Rta.start_bytes, Image.has_append, Image.has_append, Image.has_append] at hhas
  simp only [List.length_append, leBytes_length] at hhas
  obtain ⟨⟨hbs, -, ht⟩, hcs⟩ := hhas
  have h1 := h.len
  have h2 := h.clear
  have h3 := h.room
  rw [htotal] at h1 h2 h3
  refine ⟨?_, htotal ▸ h.dvd, htotal ▸ h.space, ?_, ?_, h3⟩
  · rw [Req.nlmsgLen, rtaNestedEnd, Req.store_mem, Image.nat_write_outside (by omega)]
    exact h1
  · rw [rtaNestedEnd, Req.store_mem, hpatch, hbytes, Image.has_append, Image.has_append, Image.has_append]
    simp only [List.length_append, leBytes_length]
    refine ⟨hbs.write (by omega), ⟨Image.has_write _ _ _, ht.write ?_⟩, hcs.write ?_⟩
    all_goals simp only [leBytes_length]; omega
  · intro i hi hi'
    rw [rtaNestedEnd, Req.store_mem, Image.write_outside (by simp only [leBytes_length, List.length_append] at hi ⊢; omega)]
    exact h2 i hi hi'

end Holds

/-! ## Functions that fill a message -/

/-- Started on a message that holds `bs`, the part of a function goes on with `x` and leaves a message that holds `bs'`. -/
def Fill.Gives {α : Type} (f : Fill α) (bs : List UInt8) (x : α) (bs' : List UInt8) : Prop :=
  ∀ req, Holds req bs → ∃ req', f req = (.ok x, req') ∧ Holds req' bs'

section Gives

variable {α β : Type} {bs bs' bs'' cs : List UInt8} {a : Rta}

/-- After a writer that has succeeded, the next one goes on from its request. -/
theorem Fill.bind_eq {f : Fill α} {g : α → Fill β} {x : α} {req req' : Req} (h : f req = (.ok x, req')) :
    (f >>= g) req = g x req' := by
  change (ExceptT.bindCont g (f req).1) (f req).2 = _
  rw [h]
  rfl

/-- What two writers in sequence give. -/
theorem Fill.Gives.bind {f : Fill α} {g : α → Fill β} {x : α} {y : β} (hf : f.Gives bs x bs') (hg : (g x).Gives bs' y bs'') :
    Fill.Gives (f >>= g) bs y bs'' := by
  intro req h
  obtain ⟨req', hx, h'⟩ := hf req h
  obtain ⟨req'', hy, h''⟩ := hg req' h'
  exact ⟨req'', (bind_eq hx).trans hy, h''⟩

/-- Putting an attribute that fits gives its bytes. -/
theorem Fill.gives_put (ha : Asks a type len data) (hf : Fits bs.length a.payload.length) :
    (Fill.put (rtaPut type len data)).Gives bs () (bs ++ a.bytes) := by
  intro req h
  refine ⟨(rtaPut type len data req).2, ?_, rtaPut_holds h ha hf⟩
  simp only [Fill.put, rtaPut_eq]
  rfl

/-- Starting a nested attribute that fits gives its header. -/
theorem Fill.gives_nestedStart {t : UInt16} (ht : (type.toInt % 2 ^ 16).toNat = t.toNat) (hf : Fits bs.length 0) :
    (Fill.nestedStart type).Gives bs (nlmsgHeaders + bs.length) (bs ++ (Rta.start t).bytes) := by
  intro req h
  have ha : Asks (Rta.start t) type 0 none := ⟨ht, rfl, .inl ⟨rfl, rfl⟩⟩
  obtain ⟨req', hx, h'⟩ := Fill.gives_put ha hf req h
  refine ⟨req', ?_, h'⟩
  rw [← h.tail]
  exact (bind_eq rfl).trans (bind_eq hx)

/-- Ending a nested attribute makes it one with its payload. -/
theorem Fill.gives_nestedEnd (bs : List UInt8) (hc : a.payload = cs) (hd : 4 ∣ cs.length) :
    (Fill.nestedEnd (nlmsgHeaders + bs.length)).Gives (bs ++ (Rta.start a.type).bytes ++ cs) () (bs ++ a.bytes) :=
  fun req h => ⟨rtaNestedEnd (nlmsgHeaders + bs.length) req, rfl, rtaNestedEnd_holds h hc hd⟩

end Gives

end Pixel845.Rmnet
