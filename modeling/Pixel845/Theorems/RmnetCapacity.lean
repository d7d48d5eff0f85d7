import Pixel845.Lemmas.RmnetFill

/-!
# How much fits into a message

The attribute builder keeps to the message and copies what it is given exactly as long as every attribute fits behind those before
it (`capacity_iff`). An attribute that does not fit is not refused: `memscpy_repeat` reports it with `RMNETCTL_LIB_ERR`,
`CHECK_MEMSCPY` takes only a negative value for an error, and `rta_put` goes on to count the attribute as put
(`overlong_put_accepted`).
-/

namespace Pixel845.Rmnet

/-! ## Sequences of puts -/

/-- A call of the attribute builder with its arguments. -/
inductive PutCall where
  | rtaPut (type len : Int32) (data : Option Image)
  | rtaPutU16 (type : Int32) (data : UInt16)
  | rtaPutU32 (type : Int32) (data : UInt32)
  | rtaPutString (type : Int32) (data : CString)
  | rtaNestedStart (type : Int32)

namespace PutCall

/-- The function of a call. -/
def exec : PutCall → Req → Int × Req
  | .rtaPut type len data => Rmnet.rtaPut type len data
  | .rtaPutU16 type data => Rmnet.rtaPutU16 type data
  | .rtaPutU32 type data => Rmnet.rtaPutU32 type data
  | .rtaPutString type data => Rmnet.rtaPutString type data
  | .rtaNestedStart type => Rmnet.rtaNestedStart type

/-- The type that a call passes to `rta_put`. -/
def type : PutCall → Int32
  | .rtaPut type _ _ | .rtaPutU16 type _ | .rtaPutU32 type _ | .rtaPutString type _ | .rtaNestedStart type => type

/-- The length that a call passes to `rta_put`. -/
def len : PutCall → Int32
  | .rtaPut _ len _ => len
  | .rtaPutU16 _ _ => 2
  | .rtaPutU32 _ _ => 4
  | .rtaPutString _ data => .ofNat (data.strlen + 1)
  | .rtaNestedStart _ => 0

/-- The payload that a call passes to `rta_put`. -/
def data : PutCall → Option Image
  | .rtaPut _ _ data => data
  | .rtaPutU16 _ data => some (Image.ofBytes (leBytes 2 data.toNat))
  | .rtaPutU32 _ data => some (Image.ofBytes (leBytes 4 data.toNat))
  | .rtaPutString _ data => some data.mem
  | .rtaNestedStart _ => none

/-- The length of the payload of a call. -/
def size : PutCall → Nat
  | .rtaPutString _ data => data.strlen + 1
  | c => toSizeT c.len

/-- A call puts its attribute. -/
theorem exec_eq (c : PutCall) (req : Req) : c.exec req = Rmnet.rtaPut c.type c.len c.data req := by
  cases c <;> rfl

end PutCall

/-- One call of a sequence: the message before it, what it returns and the message after it. -/
structure Step where
  call : PutCall
  before : Req
  rc : Int
  after : Req

/-- The call on a message. -/
def PutCall.step (c : PutCall) (req : Req) : Step := ⟨c, req, (c.exec req).1, (c.exec req).2⟩

/-- The steps of a sequence of calls. -/
def steps : Req → List PutCall → List Step
  | _, [] => []
  | req, c :: cs => c.step req :: steps (c.exec req).2 cs

/-- What the call of a step has stored, and where. -/
def Step.stores (s : Step) : List (Nat × List UInt8) := s.after.stores.drop s.before.stores.length

/-- The call kept to the message: it stored only into it, its length field is not more than its size, success means that the whole
payload was copied, and an attribute for which there is no space was refused with the counters unchanged. -/
structure Step.Good (s : Step) : Prop where
  inside : ∀ w ∈ s.stores, w.1 + w.2.length ≤ nlmsgSize
  length : s.after.nlmsgLen ≤ nlmsgSize
  copied : s.rc = rmnetctlSuccess →
    s.call.size = 0 ∨ ∃ src, s.call.data = some src ∧ (s.before.tail + 4, src.read 0 s.call.size) ∈ s.stores
  refused : ¬s.before.tail + 4 + s.call.size ≤ nlmsgSize →
    s.rc = rmnetctlLibErr ∧ s.after.nlmsgLen = s.before.nlmsgLen ∧ s.after.reqsize = s.before.reqsize

/-- There is a payload to copy, if there is any length to it. -/
def PutCall.HasData (c : PutCall) : Prop := c.size = 0 ∨ c.data.isSome = true

/-- Every attribute fits behind those before it, of which `used` bytes are used. -/
def FitAll : Nat → List PutCall → Prop
  | _, [] => True
  | used, c :: cs => Fits used c.size ∧ c.HasData ∧ FitAll (used + align4 (4 + c.size)) cs

namespace CapacityAux

variable {c : PutCall} {req : Req} {bs : List UInt8}

/-- The length of a payload that fits into a message is passed on as it is. -/
theorem len_eq (h : c.size ≤ 496) : c.len.toInt = c.size := by
  have hpass : ∀ l : Int32, toSizeT l ≤ 496 → l.toInt = toSizeT l := by
    intro l hl
    have h1 := l.toInt_lt
    have h2 := l.le_toInt
    simp only [toSizeT] at hl ⊢
    omega
  cases c with
  | rtaPutString type data => exact Int32.toInt_ofNat_of_lt (by simp only [PutCall.size] at h; omega)
  | _ => exact hpass _ h

/-- A size that fits is the length that is copied. -/
theorem sizeT_eq (h : c.size ≤ 496) : toSizeT c.len = c.size := by
  rw [toSizeT, len_eq h]
  omega

/-- The attribute that a call puts when its payload fits. -/
def attr (c : PutCall) (h : c.size ≤ 496) : Rta where
  type := .ofNat (c.type.toInt % 2 ^ 16).toNat
  payload := (c.data.getD Image.zero).read 0 c.size
  fits := by
    rw [Image.read_length]
    omega

/-- A call asks for its attribute. -/
theorem asks_attr (h : c.size ≤ 496) (hd : c.HasData) : Asks (attr c h) c.type c.len c.data where
  type := by
    simp only [attr, UInt16.toNat_ofNat']
    omega
  len := by
    rw [len_eq h]
    simp [attr]
  data := by
    cases hdata : c.data with
    | none =>
      rcases hd with hd | hd
      · exact .inl ⟨rfl, by simp [attr, hd, Image.read]⟩
      · simp [hdata] at hd
    | some src =>
      refine .inr ⟨src, rfl, ?_⟩
      simp only [attr, hdata, Option.getD_some]
      exact Image.has_read ..

/-- What fits has at most 496 bytes. -/
theorem Fits.size_le {used size : Nat} (h : Fits used size) : size ≤ 496 := by
  have := h.1
  simp only [nlmsgHeaders, nlmsgSize] at this
  omega

/-- What a call stores: the type and the length of its attribute, the payload if it is copied, and the length of the message. -/
theorem step_stores (c : PutCall) (req : Req) :
    ∃ t l n : List UInt8, t.length = 2 ∧ l.length = 2 ∧ n.length = 4 ∧
      (c.step req).stores = [(req.tail + 2, t), (req.tail, l)] ++
        (payloadCopied req c.len c.data).toList.map (fun bs => (req.tail + 4, bs)) ++ [(0, n)] := by
  obtain ⟨t, l, n, ht, hl, hn, hs⟩ := rtaPut_stores c.type c.len c.data req
  refine ⟨t, l, n, ht, hl, hn, ?_⟩
  simp only [Step.stores, PutCall.step, PutCall.exec_eq, hs, List.append_assoc, List.drop_left]

/-- A call whose attribute fits puts it. -/
theorem holds_step (h : Holds req bs) (hf : Fits bs.length c.size) (hd : c.HasData) :
    ∃ bs', Holds (c.exec req).2 bs' ∧ bs'.length = bs.length + align4 (4 + c.size) := by
  have hsize := Fits.size_le hf
  have hlen : (attr c hsize).payload.length = c.size := by simp [attr]
  refine ⟨bs ++ (attr c hsize).bytes, ?_, ?_⟩
  · rw [PutCall.exec_eq]
    exact rtaPut_holds h (asks_attr hsize hd) (by rwa [hlen])
  · rw [List.length_append, Rta.bytes_length, Rta.len, hlen]

/-- A call whose attribute fits is good. -/
theorem good_of_fits (h : Holds req bs) (hf : Fits bs.length c.size) (hd : c.HasData) : (c.step req).Good := by
  have hsize := Fits.size_le hf
  obtain ⟨t, l, n, ht, hl, hn, hs⟩ := step_stores c req
  obtain ⟨bs', h', -⟩ := holds_step h hf hd
  have htail := h.tail
  have hin := hf.1
  have h32 : nlmsgHeaders = 32 := rfl
  have h532 : nlmsgSize = 532 := rfl
  refine ⟨?_, ?_, ?_, ?_⟩
  · intro w hw
    rw [hs] at hw
    simp only [List.cons_append, List.nil_append, List.mem_cons, List.mem_append, List.mem_map, Option.mem_toList,
      List.not_mem_nil, or_false] at hw
    rcases hw with rfl | rfl | ⟨b, hb, rfl⟩ | rfl
    · simp only [ht]
      omega
    · simp only [hl]
      omega
    · have hblen : b.length = c.size := by
        cases hdata : c.data with
        | none => simp [payloadCopied, hdata] at hb
        | some src =>
          simp only [payloadCopied, hdata, Option.ite_none_right_eq_some, Option.some.injEq] at hb
          rw [← hb.2, Image.read_length, sizeT_eq hsize]
      simp only [hblen]
      omega
    · simp only [hn]
      omega
  · exact (h'.len.trans_le h'.space)
  · intro _
    rcases hd with hd | hd
    · exact .inl hd
    · obtain ⟨src, hsrc⟩ := Option.isSome_iff_exists.mp hd
      have hcopy : payloadCopied req c.len c.data = some (src.read 0 c.size) := by
        simp only [payloadCopied, hsrc, sizeT_eq hsize, h.lt_reqsize hf, if_true]
      exact .inr ⟨src, hsrc, by rw [hs, hcopy]; simp [PutCall.step]⟩
  · intro hno
    refine absurd ?_ hno
    simp only [PutCall.step, htail]
    omega

/-- A call that is good has an attribute that fits: no call returns anything but success. -/
theorem fits_of_good (h : Holds req bs) (hg : (c.step req).Good) : Fits bs.length c.size ∧ c.HasData := by
  have htail := h.tail
  have hrc : (c.step req).rc = rmnetctlSuccess := by simp only [PutCall.step, PutCall.exec_eq, rtaPut_eq]
  have hspace : req.tail + 4 + c.size ≤ nlmsgSize := by
    by_contra hno
    have := (hg.refused hno).1
    rw [hrc] at this
    exact absurd this (by decide)
  have hsize : c.size ≤ 496 := by
    simp only [htail, nlmsgHeaders, nlmsgSize] at hspace
    omega
  obtain ⟨t, l, n, ht, hl, hn, hs⟩ := step_stores c req
  have hcopied : c.size = 0 ∨ c.data.isSome = true ∧ c.size < req.reqsize := by
    rcases hg.copied hrc with h0 | ⟨src, hsrc, hmem⟩
    · exact .inl h0
    · have hsrc' : c.data = some src := hsrc
      right
      refine ⟨by rw [hsrc']; rfl, ?_⟩
      by_contra hno
      rw [hs] at hmem
      have hnot : payloadCopied req c.len c.data = none := by
        simp only [payloadCopied, hsrc', sizeT_eq hsize, hno, if_false]
      simp only [hnot, PutCall.step, Option.toList_none, List.map_nil, List.append_nil, List.cons_append, List.nil_append,
        List.mem_cons, Prod.mk.injEq, List.not_mem_nil, or_false] at hmem
      omega
  refine ⟨⟨by rw [← htail]; exact hspace, ?_⟩, ?_⟩
  · rintro ⟨h0, h496⟩
    have hroom := h.room
    rw [if_pos h0] at hroom
    omega
  · exact hcopied.imp_right And.left

/-- From a message that was filled without loss: the calls are good exactly when all of their attributes fit. -/
theorem steps_good_iff (h : Holds req bs) (cs : List PutCall) : (∀ s ∈ steps req cs, s.Good) ↔ FitAll bs.length cs := by
  induction cs generalizing req bs with
  | nil => simp [steps, FitAll]
  | cons c cs ih =>
    simp only [steps, List.mem_cons, forall_eq_or_imp, FitAll]
    constructor
    · rintro ⟨hg, hrest⟩
      obtain ⟨hf, hd⟩ := fits_of_good h hg
      obtain ⟨bs', h', hlen⟩ := holds_step h hf hd
      exact ⟨hf, hd, hlen ▸ (ih h').mp hrest⟩
    · rintro ⟨hf, hd, hrest⟩
      obtain ⟨bs', h', hlen⟩ := holds_step h hf hd
      exact ⟨good_of_fits h hf hd, (ih h').mpr (hlen ▸ hrest)⟩

end CapacityAux

/-- Over any sequence of puts on a message started as the RTM calls start it: every call keeps to the message, copies what it is
given and refuses what does not fit, exactly when every attribute has its space behind those before it, no payload is missing and
the first payload is not one of 496 bytes. -/
theorem capacity_iff (stack : Image) (type flags : Nat) (seq : UInt32) (cs : List PutCall) :
    (∀ s ∈ steps (initReq stack type flags seq) cs, s.Good) ↔ FitAll 0 cs :=
  CapacityAux.steps_good_iff (initReq_holds stack type flags seq) cs

/-- A put of 600 bytes into an empty message. -/
def overlongPut : Step := (PutCall.rtaPut 1 600 (some Image.zero)).step (initReq Image.zero rtmNewlink nlmFRequestAck 0)

/-- A put of more than the message holds is accepted: it returns success, copies nothing and counts the payload into the length of
the message, which is then more than its size. -/
theorem overlong_put_accepted :
    overlongPut ∈ steps (initReq Image.zero rtmNewlink nlmFRequestAck 0) [.rtaPut 1 600 (some Image.zero)] ∧
      overlongPut.rc = rmnetctlSuccess ∧ overlongPut.after.nlmsgLen = 636 ∧ overlongPut.stores.length = 3 ∧
      ¬overlongPut.Good := by
  have hrc : overlongPut.rc = rmnetctlSuccess := by decide
  refine ⟨List.mem_cons_self, hrc, by decide, by decide, ?_⟩
  intro hg
  have hlen := hg.length
  exact absurd hlen (by decide)

end Pixel845.Rmnet
