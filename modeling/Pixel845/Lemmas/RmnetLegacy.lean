import Pixel845.Rmnet.Handle

/-!
# The legacy calls in one form

A legacy request is written piece by piece over what the stack holds: numbers at fixed places, and names, which are refused if
they are too long (`request_eq`). A piece that no later one overlaps stands in the request (`stored_has`) and in the message that
is sent (`transactMessage_has`), and what no piece covers is what was there before (`stored_outside`).
-/

namespace Pixel845.Rmnet

/-! ## Pieces -/

/-- A piece of a request: bytes at an offset, or a name in a field of `RMNET_MAX_STR_LEN` bytes. -/
inductive Piece where
  | bytes (off : Nat) (bs : List UInt8)
  | name (off : Nat) (s : CString)

namespace Piece

/-- Write the piece into a request. -/
def store (m : Image) : Piece → Except Errno Image
  | .bytes off bs => .ok (m.write off bs)
  | .name off s => copyName off s m

/-- What the piece leaves, and where. -/
def content : Piece → Nat × List UInt8
  | .bytes off bs => (off, bs)
  | .name off s => (off, s.bytes.take (rmnetMaxStrLen - 1) ++ [0])

/-- The piece ends before the other one begins, or the other way round. -/
def Apart (x y : Piece) : Prop :=
  x.content.1 + x.content.2.length ≤ y.content.1 ∨ y.content.1 + y.content.2.length ≤ x.content.1

/-- A name that is not refused. -/
def Taken : Piece → Prop
  | .bytes _ _ => True
  | .name _ s => s.strlen ≤ rmnetMaxStrLen

instance : DecidablePred Taken := fun x => by cases x <;> unfold Taken <;> infer_instance

end Piece

/-- Write pieces, in order. -/
def storePieces (m : Image) (ps : List Piece) : Except Errno Image := ps.foldlM Piece.store m

section Pieces

variable {m m' : Image} {ps pre post : List Piece} {x : Piece} {e : Errno}

@[simp] theorem storePieces_nil (m : Image) : storePieces m [] = .ok m := rfl

/-- The first piece is stored before the others. -/
@[simp] theorem storePieces_cons (m : Image) (x : Piece) (ps : List Piece) :
    storePieces m (x :: ps) = (x.store m).bind fun m => storePieces m ps := rfl

/-- A piece that is taken is written, and another one refused. -/
theorem Piece.store_eq (m : Image) (x : Piece) :
    x.store m = if x.Taken then .ok (m.write x.content.1 x.content.2) else .error rmnetctlApiErrStringTruncation := by
  cases x with
  | bytes off bs => rfl
  | name off s =>
    by_cases h : s.strlen ≤ rmnetMaxStrLen
    · simp [Piece.store, copyName, Piece.Taken, Piece.content, h, not_lt.mpr h]
    · simp [Piece.store, copyName, Piece.Taken, h, not_le.mp h]

/-- Pieces are written one over the other if every name is taken, and refused for a name that is too long. -/
theorem storePieces_eq (m : Image) (ps : List Piece) :
    storePieces m ps =
      if ∀ x ∈ ps, x.Taken then .ok (ps.foldl (fun m x => m.write x.content.1 x.content.2) m)
      else .error rmnetctlApiErrStringTruncation := by
  induction ps generalizing m with
  | nil => simp
  | cons x ps ih =>
    rw [storePieces_cons, Piece.store_eq]
    by_cases hx : x.Taken
    · simp only [hx, if_true, Except.bind, ih, List.forall_mem_cons, true_and, List.foldl_cons]
    · simp [hx, Except.bind]

/-- Pieces can be stored in two parts. -/
theorem storePieces_append (m : Image) (ps qs : List Piece) :
    storePieces m (ps ++ qs) = (storePieces m ps).bind fun m => storePieces m qs := List.foldlM_append

/-- What no piece covers is what was there before. -/
theorem stored_outside {i : Nat} (h : storePieces m ps = .ok m')
    (hi : ∀ x ∈ ps, i < x.content.1 ∨ x.content.1 + x.content.2.length ≤ i) : m' i = m i := by
  induction ps generalizing m with
  | nil => exact congrFun (Except.ok.inj h).symm i
  | cons x ps ih =>
    rw [storePieces_cons, Piece.store_eq] at h
    split at h
    · rw [ih h fun y hy => hi y (List.mem_cons_of_mem x hy)]
      exact Image.write_outside (hi x List.mem_cons_self)
    · cases h

/-- A piece stands in the request if no later one overlaps it. -/
theorem stored_has (h : storePieces m (pre ++ x :: post) = .ok m') (hd : ∀ y ∈ post, x.Apart y) :
    m'.Has x.content.1 x.content.2 := by
  rw [storePieces_append] at h
  cases hpre : storePieces m pre with
  | error e => simp [hpre, Except.bind] at h
  | ok m₁ =>
    rw [hpre] at h
    change (x.store m₁).bind _ = _ at h
    rw [Piece.store_eq] at h
    by_cases hx : x.Taken
    · rw [if_pos hx] at h
      refine (Image.has_write m₁ _ _).congr fun i hi hi' => stored_outside h fun y hy => ?_
      have hxy := hd y hy
      simp only [Piece.Apart] at hxy
      omega
    · rw [if_neg hx] at h
      cases h

end Pieces

/-! ## Requests -/

/-- The pieces that `setType` writes. -/
def typePieces (type : MessageType) (argLength : Nat) : List Piece :=
  [.bytes 2 (leBytes 2 type.ctorIdx), .bytes 6 (leBytes 2 argLength)]

/-- The message type of a call. -/
def LegacyCall.type : LegacyCall → MessageType
  | .associateNetworkDevice _ assocDev => if assocDev = 1 then .associateNetworkDevice else .unassociateNetworkDevice
  | .getNetworkDeviceAssociated _ _ => .getNetworkDeviceAssociated
  | .setLinkEgressDataFormat _ _ _ _ => .setLinkEgressDataFormat
  | .getLinkEgressDataFormat _ _ _ _ => .getLinkEgressDataFormat
  | .setLinkIngressDataFormatTailspace _ _ _ => .setLinkIngressDataFormat
  | .getLinkIngressDataFormatTailspace _ _ _ => .getLinkIngressDataFormat
  | .setLogicalEpConfig _ _ _ _ => .setLogicalEpConfig
  | .unsetLogicalEpConfig _ _ => .unsetLogicalEpConfig
  | .getLogicalEpConfig _ _ _ _ _ => .getLogicalEpConfig
  | .newVnd _ new => if new = 1 then .newVnd else .freeVnd
  | .newVndPrefix _ new pref => if new = 1 then (if pref.isSome then .newVndWithPrefix else .newVnd) else .freeVnd
  | .newVndName _ pref => if pref.isSome then .newVndWithName else .newVnd
  | .getVndName _ _ _ => .getVndName
  | .addDelVndTcFlow _ _ _ setFlow => if setFlow = 1 then .addVndTcFlow else .delVndTcFlow

/-- The argument length that a call sets. -/
def LegacyCall.argLength : LegacyCall → Nat
  | .associateNetworkDevice _ _ | .getNetworkDeviceAssociated _ _ | .getLinkEgressDataFormat _ _ _ _
  | .getLinkIngressDataFormatTailspace _ _ _ => 16
  | .setLinkEgressDataFormat _ _ _ _ | .setLinkIngressDataFormatTailspace _ _ _ => 24
  | .setLogicalEpConfig _ _ _ _ => 37
  | .unsetLogicalEpConfig _ _ | .getLogicalEpConfig _ _ _ _ _ => 20
  | .newVnd _ _ | .newVndPrefix _ _ _ | .newVndName _ _ | .getVndName _ _ _ => 4
  | .addDelVndTcFlow _ _ _ _ => 12

/-- The field of a name, if it is given. -/
def nameField (off : Nat) (name : Option CString) : List Piece := (name.map (.name off)).toList

/-- The fields of a virtual device. -/
def vndFields (id : UInt32) (name : Option CString) : List Piece :=
  .bytes 12 (List.replicate rmnetMaxStrLen 0) :: (nameField 12 name ++ [.bytes 8 (leBytes 4 id.toNat)])

/-- The piece of an `ep_id`. -/
def epPiece (epId : Int32) : Piece := .bytes 24 (leBytes 4 epId.toUInt32.toNat)

/-- The fields that a call writes behind the type and the length. -/
def LegacyCall.fields : LegacyCall → List Piece
  | .associateNetworkDevice devName _ => nameField 8 devName
  | .getNetworkDeviceAssociated devName _ => nameField 8 devName
  | .setLinkEgressDataFormat egressFlags aggSize aggCount devName =>
    nameField 8 devName ++
      [.bytes 24 (leBytes 4 egressFlags.toNat), .bytes 28 (leBytes 2 aggSize.toNat), .bytes 30 (leBytes 2 aggCount.toNat)]
  | .getLinkEgressDataFormat devName _ _ _ => nameField 8 devName
  | .setLinkIngressDataFormatTailspace ingressFlags tailSpacing devName =>
    nameField 8 devName ++ [.bytes 24 (leBytes 4 ingressFlags.toNat), .bytes 32 [tailSpacing]]
  | .getLinkIngressDataFormatTailspace devName _ _ => nameField 8 devName
  | .setLogicalEpConfig epId operatingMode devName nextDev =>
    nameField 8 devName ++ (nameField 29 nextDev ++ [epPiece epId, .bytes 28 [operatingMode]])
  | .unsetLogicalEpConfig epId devName => nameField 8 devName ++ [epPiece epId]
  | .getLogicalEpConfig epId devName _ _ _ => nameField 8 devName ++ [epPiece epId]
  | .newVnd id _ => vndFields id none
  | .newVndPrefix id new pref => vndFields id (if new = 1 then pref else none)
  | .newVndName id pref => vndFields id pref
  | .getVndName id _ _ => [.bytes 8 (leBytes 4 id.toNat)]
  | .addDelVndTcFlow id mapFlowId tcFlowId _ =>
    [.bytes 8 (leBytes 4 id.toNat), .bytes 12 (leBytes 4 mapFlowId.toNat), .bytes 16 (leBytes 4 tcFlowId.toNat)]

/-- The pieces that a call writes, for names that are not `NULL`. -/
def LegacyCall.pieces (q : LegacyCall) : List Piece := typePieces q.type q.argLength ++ q.fields

/-- The name that a piece copies, and where. -/
def Piece.name? : Piece → Option (Nat × CString)
  | .bytes _ _ => none
  | .name off s => some (off, s)

/-- The names that a call copies into its request, with the offsets of their fields. -/
def LegacyCall.names (q : LegacyCall) : List (Nat × CString) := q.fields.filterMap Piece.name?

section Requests

variable {p : Ptrs} {valid : Bool} {devName : Option CString} {s : CString} {r : LegacyRequest} {q : LegacyCall}

/-- A name that passed its check is the argument, and short. -/
theorem checked_eq_some (h : checked p valid devName = some s) : devName = some s ∧ s.strlen < rmnetMaxStrLen := by
  unfold checked at h
  split at h
  · rename_i hc
    subst h
    refine ⟨rfl, ?_⟩
    simp only [Bool.and_eq_true, nameOk, rmnetctlCheckDevName] at hc
    by_contra hlen
    simp [not_lt.mp hlen, rmnetctlInvalidArg, rmnetctlSuccess] at hc
  · cases h

/-- Clearing is writing zeros. -/
theorem clear_eq_write (m : Image) (off n : Nat) : m.clear off n = m.write off (List.replicate n 0) := by
  funext i
  by_cases h : off ≤ i ∧ i < off + n
  · have hlt : i - off < n := by omega
    simp [Image.clear, Image.write, h, List.getD_eq_getElem?_getD, hlt]
  · simp [Image.clear, Image.write, h]

/-- The request of a device stores its type and its fields. -/
theorem vndRequest_eq (type : MessageType) (id : UInt32) (name : Option CString) (m : Image) :
    vndRequest type id name m = storePieces m (typePieces type 4 ++ vndFields id name) := by
  rw [vndRequest.eq_def, clear_eq_write]
  cases name <;> rfl

theorem bind_ok (x : Except Errno Image) : (x.bind fun m => .ok m) = x := by
  cases x <;> rfl

/-- Every legacy call writes its pieces. -/
theorem request_eq (hr : q.call p = some r) (m : Image) : r.request m = storePieces m q.pieces := by
  cases q with
  | newVnd id new =>
    simp only [LegacyCall.call, rmnetNewVnd, rmnetNewVndPrefix] at hr
    split at hr
    · cases hr
      change (if new = 1 then _ else _ : Image → Except Errno Image) m =
        storePieces m (typePieces (if new = 1 then _ else _) 4 ++ _)
      split <;> exact vndRequest_eq _ _ none m
    · cases hr
  | newVndPrefix id new pref =>
    simp only [LegacyCall.call, rmnetNewVndPrefix] at hr
    split at hr
    · cases hr
      change (if new = 1 then _ else _ : Image → Except Errno Image) m =
        storePieces m (typePieces (if new = 1 then _ else _) 4 ++ vndFields id (if new = 1 then _ else _))
      split <;> exact vndRequest_eq _ _ _ m
    · cases hr
  | newVndName id pref =>
    simp only [LegacyCall.call, rmnetNewVndName] at hr
    split at hr
    · cases hr
      exact vndRequest_eq _ _ _ m
    · cases hr
  | getVndName id buf buflen =>
    simp only [LegacyCall.call, rmnetGetVndName] at hr
    split at hr
    · cases hr
      rfl
    · cases hr
  | addDelVndTcFlow id mapFlowId tcFlowId setFlow =>
    simp only [LegacyCall.call, rmnetAddDelVndTcFlow] at hr
    split at hr
    · cases hr
      rfl
    · cases hr
  | setLogicalEpConfig epId operatingMode devName nextDev =>
    obtain ⟨s, hs, hr⟩ := Option.bind_eq_some_iff.mp hr
    obtain ⟨t, ht, hr⟩ := Option.bind_eq_some_iff.mp hr
    cases hr
    rw [(checked_eq_some hs).1, (checked_eq_some ht).1]
    rfl
  | associateNetworkDevice | getNetworkDeviceAssociated | getLinkEgressDataFormat | getLinkIngressDataFormatTailspace =>
    obtain ⟨s, hs, rfl⟩ := Option.map_eq_some_iff.mp hr
    rw [(checked_eq_some hs).1]
    exact (bind_ok _).symm
  | _ =>
    obtain ⟨s, hs, rfl⟩ := Option.map_eq_some_iff.mp hr
    rw [(checked_eq_some hs).1]
    rfl

/-- The names of a call are the fields that are names. -/
theorem mem_names {n : Nat × CString} : n ∈ q.names ↔ .name n.1 n.2 ∈ q.fields := by
  unfold LegacyCall.names
  rw [List.mem_filterMap]
  constructor
  · rintro ⟨x, hx, hn⟩
    cases x with
    | bytes off bs => cases hn
    | name off s =>
      cases hn
      exact hx
  · exact fun h => ⟨_, h, rfl⟩

/-- The pieces of a call are taken if its names are. -/
theorem pieces_taken_iff : (∀ x ∈ q.pieces, x.Taken) ↔ ∀ n ∈ q.names, n.2.strlen ≤ rmnetMaxStrLen := by
  constructor
  · intro h n hn
    exact h (.name n.1 n.2) (List.mem_append_right _ (mem_names.mp hn))
  · intro h x hx
    cases x with
    | bytes off bs => trivial
    | name off s =>
      rcases List.mem_append.mp hx with hx | hx
      · simp [typePieces] at hx
      · exact h (off, s) (mem_names.mpr hx)

/-- A request is written over what the stack holds if every name is taken, and refused for one that is too long. -/
theorem request_ok_iff (hr : q.call p = some r) (m : Image) :
    (∃ request, r.request m = .ok request) ↔ ∀ n ∈ q.names, n.2.strlen ≤ rmnetMaxStrLen := by
  rw [request_eq hr, storePieces_eq, ← pieces_taken_iff]
  split
  · rename_i h
    exact iff_of_true ⟨_, rfl⟩ h
  · rename_i h
    refine iff_of_false ?_ h
    rintro ⟨request, hreq⟩
    cases hreq

/-- The pieces lie behind the reserved half word of a request and before its last byte. -/
def Between (n : Nat) (ps : List Piece) : Prop := ∀ x ∈ ps, n ≤ x.content.1 ∧ x.content.1 + x.content.2.length < rmnetNlMsgSize

variable {n : Nat}

@[simp] theorem between_nil : Between n [] := by simp [Between]

/-- The pieces lie in their place if the first one and the others do. -/
@[simp] theorem between_cons (x : Piece) (ps : List Piece) :
    Between n (x :: ps) ↔ (n ≤ x.content.1 ∧ x.content.1 + x.content.2.length < rmnetNlMsgSize) ∧ Between n ps :=
  List.forall_mem_cons

/-- Two parts of pieces lie in their place exactly if each does. -/
@[simp] theorem between_append (ps qs : List Piece) : Between n (ps ++ qs) ↔ Between n ps ∧ Between n qs :=
  List.forall_mem_append

@[simp] theorem content_bytes (off : Nat) (bs : List UInt8) : (Piece.bytes off bs).content = (off, bs) := rfl

/-- A name lies in its place. -/
theorem between_name {off : Nat} (hn : n ≤ off) (h : off ≤ 29) (name : Option CString) : Between n (nameField off name) := by
  intro x hx
  obtain ⟨s, -, rfl⟩ := Option.map_eq_some_iff.mp (Option.mem_toList.mp hx)
  simp only [Piece.content, List.length_append, List.length_take, List.length_singleton, rmnetMaxStrLen, rmnetNlMsgSize]
  omega

/-- The fields of a call lie behind the header and within the message. -/
theorem fields_between (q : LegacyCall) : Between 8 q.fields := by
  have h8 := between_name (show 8 ≤ 8 by decide) (show 8 ≤ 29 by decide)
  have h12 := between_name (show 8 ≤ 12 by decide) (show 12 ≤ 29 by decide)
  have h29 := between_name (show 8 ≤ 29 by decide) (show 29 ≤ 29 by decide)
  cases q <;> simp [LegacyCall.fields, vndFields, epPiece, h8, h12, h29, rmnetMaxStrLen, rmnetNlMsgSize]

/-- The pieces of a call lie within the message. -/
theorem pieces_between (q : LegacyCall) : Between 2 q.pieces := by
  have hf : Between 2 q.fields := fun x hx => ⟨by have := (fields_between q x hx).1; omega, (fields_between q x hx).2⟩
  simp [LegacyCall.pieces, typePieces, hf, rmnetNlMsgSize]

/-- A request has the type of its call. -/
theorem messageType_stored {m m' : Image} (h : storePieces m q.pieces = .ok m') : messageType m' = q.type.ctorIdx := by
  have hsplit : q.pieces = [] ++ .bytes 2 (leBytes 2 q.type.ctorIdx) :: (.bytes 6 (leBytes 2 q.argLength) :: q.fields) := rfl
  rw [hsplit] at h
  have hhas : m'.Has 2 (leBytes 2 q.type.ctorIdx) := stored_has h fun y hy => by
    rcases List.mem_cons.mp hy with rfl | hy
    · exact .inl (by simp)
    · have := (fields_between q y hy).1
      exact .inl (by simp; omega)
  have hlt : q.type.ctorIdx < 256 ^ 2 := by cases q.type <;> decide
  rw [messageType, Image.Has.nat_eq hhas, Nat.mod_eq_of_lt hlt]

end Requests

/-! ## Transactions -/

/-- The error codes of `rmnetctl_transact`. -/
def transactErrors : List Errno :=
  [rmnetctlApiErrRequestNull, rmnetctlApiErrResponseNull, rmnetctlApiErrMessageSend, rmnetctlApiErrMessageReceive,
    rmnetctlApiErrMessageType]

/-- The response in what was received. -/
def responseIn (bytes : List UInt8) : Image := Image.ofBytes ((Image.ofBytes bytes).read 16 rmnetNlMsgSize)

/-- How a transaction ends, what it has sent and what it has received. -/
inductive Transacts (msg : List UInt8) (request : Image) : Except Errno Image → List (List UInt8) → List (List UInt8) → Prop
  /-- There is no memory for the buffers. -/
  | unsent {e : Errno} (he : e ∈ transactErrors) : Transacts msg request (.error e) [] []
  /-- The request cannot be sent, or no response to it is received. -/
  | unanswered {e : Errno} (he : e ∈ transactErrors) : Transacts msg request (.error e) [msg] []
  | mistyped {e : Errno} {bytes : List UInt8} (he : e ∈ transactErrors)
      (htype : messageType (responseIn bytes) ≠ messageType request) : Transacts msg request (.error e) [msg] [bytes]
  | answered {bytes : List UInt8} (htype : messageType (responseIn bytes) = messageType request) :
      Transacts msg request (.ok (responseIn bytes)) [msg] [bytes]

/-- How a legacy call ends, what it has sent and what it has received. -/
inductive LegacyEnds (call : Option LegacyRequest) (t : Events) : Outcome → List (List UInt8) → List (List UInt8) → Prop
  | invalid (hc : call = none) : LegacyEnds call t { rc := rmnetctlInvalidArg } [] []
  /-- The request is refused. -/
  | refused {r : LegacyRequest} {stack : Image} {e : Errno} (hc : call = some r) (hr : r.request stack = .error e) :
      LegacyEnds call t { rc := rmnetctlLibErr, errorCode := some e } [] []
  /-- The transaction fails. -/
  | failed {r : LegacyRequest} {stack request : Image} {seq pid : UInt32} {e : Errno} {sent received : List (List UInt8)}
      (hc : call = some r) (hr : r.request stack = .ok request) (hu : ⟨.uninit, stack⟩ ∈ t)
      (hh : ⟨.transactionId, seq⟩ ∈ t ∧ ⟨.pid, pid⟩ ∈ t ∨ sent = [])
      (ht : Transacts (transactMessage seq pid request) request (.error e) sent received) :
      LegacyEnds call t { rc := rmnetctlLibErr, errorCode := some e } sent received
  | answered {r : LegacyRequest} {stack request : Image} {seq pid : UInt32} {bytes : List UInt8} (hc : call = some r)
      (hr : r.request stack = .ok request) (hu : ⟨.uninit, stack⟩ ∈ t) (hh : ⟨.transactionId, seq⟩ ∈ t ∧ ⟨.pid, pid⟩ ∈ t)
      (htype : messageType (responseIn bytes) = messageType request) {behind : CString}
      (hb : ∀ s, ⟨.behindResponse, s⟩ ∈ t ↔ s = behind) :
      LegacyEnds call t (r.outcome (responseIn bytes) behind) [transactMessage seq pid request] [bytes]

/-- The name in a field of a response, if it ends in there. -/
def nameIn (response : Image) (off : Nat) : Option (List UInt8) :=
  if 0 ∈ response.read off (rmnetNlMsgSize - off) then some ((response.read off (rmnetNlMsgSize - off)).takeWhile (· != 0))
  else none

section Names

variable {response : Image} {off : Nat} {s : List UInt8}

/-- A name in a response ends in it and is what stands before its end. -/
theorem nameIn_eq_some (h : nameIn response off = some s) :
    0 ∈ response.read off (rmnetNlMsgSize - off) ∧ (response.read off (rmnetNlMsgSize - off)).takeWhile (· != 0) = s := by
  unfold nameIn at h
  split at h
  · rename_i h0
    exact ⟨h0, Option.some.inj h⟩
  · cases h

/-- A name that does not end in a response has no `NUL` in it. -/
theorem not_mem_of_nameIn_none (h : nameIn response off = none) : 0 ∉ response.read off (rmnetNlMsgSize - off) := by
  unfold nameIn at h
  split at h
  · cases h
  · assumption

/-- A name that ends in the response is the string there, whatever lies behind. -/
theorem stringAt_of_name (h : nameIn response off = some s) (behind : CString) : stringAt response behind off = s := by
  obtain ⟨h0, rfl⟩ := nameIn_eq_some h
  rw [stringAt, List.takeWhile_append, if_neg]
  intro hlen
  have hall := List.takeWhile_eq_self_iff.mp ((List.takeWhile_prefix _).eq_of_length hlen) 0 h0
  simp at hall

/-- A name that does not end in the response goes on behind it. -/
theorem stringAt_of_open (h : nameIn response off = none) (behind : CString) :
    stringAt response behind off = response.read off (rmnetNlMsgSize - off) ++ behind.bytes := by
  refine List.takeWhile_eq_self_iff.mpr fun b hb => ?_
  have hne : b ≠ 0 := by
    rintro rfl
    exact (List.mem_append.mp hb).elim (not_mem_of_nameIn_none h) behind.noNul
  simpa using hne

end Names

section Transactions

variable {request m : Image} {off : Nat} {bs : List UInt8} {call : Option LegacyRequest} {response : Image}
  {t : Events} {x : Outcome}

/-- What a transaction sends and makes of what it receives. -/
theorem transacts {request : Image} {res : Except Errno Image} (hx : (rmnetctlTransact request).Exec t res) :
    ∃ seq pid, (⟨.transactionId, seq⟩ ∈ t ∧ ⟨.pid, pid⟩ ∈ t ∨ sent t = []) ∧ (∀ s, ⟨.behindResponse, s⟩ ∉ t) ∧
      Transacts (transactMessage seq pid request) request res (sent t) (received t) := by
  cases hx with | op _ r hx =>
  cases r with
  | error e =>
    cases hx
    exact ⟨0, 0, .inr rfl, by simp, .unsent (by simp [transactErrors])⟩
  | ok _ =>
  cases hx with | op _ r hx =>
  cases r with
  | error e =>
    cases hx
    exact ⟨0, 0, .inr rfl, by simp, .unsent (by simp [transactErrors])⟩
  | ok _ =>
  cases hx with | op _ pid hx =>
  cases hx with | op _ seq hx =>
  cases hx with | op _ r hx =>
  refine ⟨seq, pid, .inl ⟨by simp, by simp⟩, ?_⟩
  cases r with
  | error e =>
    cases hx
    exact ⟨by simp, .unanswered (by simp [transactErrors])⟩
  | ok _ =>
  cases hx with | op _ r hx =>
  cases r with
  | error e =>
    cases hx
    exact ⟨by simp, .unanswered (by simp [transactErrors])⟩
  | ok bytes =>
    change Prog.Exec (if _ then _ else _) _ _ at hx
    split at hx
    · rename_i htype
      cases hx
      exact ⟨by simp, .mistyped (by simp [transactErrors]) (Ne.symm htype)⟩
    · rename_i htype
      cases hx
      exact ⟨by simp, .answered (not_not.mp htype).symm⟩

/-- What a legacy call does, in four cases. -/
theorem legacy_ends (hx : (legacyCall call).Exec t x) : LegacyEnds call t x (sent t) (received t) := by
  cases call with
  | none =>
    cases hx
    exact .invalid rfl
  | some r =>
  rw [legacyCall, Prog.call_bind] at hx
  cases hx with | op _ stack hx =>
  cases hr : r.request stack with
  | error e =>
    simp only [hr] at hx
    cases hx
    exact .refused rfl hr
  | ok request =>
    simp only [hr] at hx
    obtain ⟨t₁, t₂, res, rfl, h1, h2⟩ := Prog.exec_bind hx
    obtain ⟨seq, pid, hh, hno, ht⟩ := transacts h1
    have hu : (⟨.uninit, stack⟩ : Prog.Event Op.Res) ∈ ⟨.uninit, stack⟩ :: (t₁ ++ t₂) := List.mem_cons_self
    cases res with
    | error e =>
      cases h2
      rw [sent_cons, received_cons, List.append_nil]
      rw [List.append_nil] at hu
      exact .failed rfl hr hu (hh.imp_left fun ⟨h1, h2⟩ => ⟨.tail _ h1, .tail _ h2⟩) ht
    | ok response =>
      change (perform .behindResponse >>= fun behind => pure (r.outcome response behind)).Exec _ _ at h2
      rw [Prog.call_bind] at h2
      cases h2 with | op _ behind h2 =>
      cases h2
      have hb (s : CString) : ⟨Op.behindResponse, s⟩ ∈ (⟨Op.uninit, stack⟩ :: (t₁ ++ [⟨Op.behindResponse, behind⟩]) : Events) ↔
          s = behind := by
        simp [hno]
      rw [sent_cons, received_cons, sent_append, received_append]
      change LegacyEnds _ _ _ (sent t₁ ++ []) (received t₁ ++ [])
      rw [List.append_nil, List.append_nil]
      generalize sent t₁ = s at hh ht ⊢
      generalize received t₁ = s' at hh ht ⊢
      cases ht with
      | answered htype =>
        obtain ⟨h1, h2⟩ := hh.resolve_right (by simp)
        exact .answered rfl hr hu ⟨.tail _ (List.mem_append_left _ h1), .tail _ (List.mem_append_left _ h2)⟩ htype hb

/-- What stands in the request stands in the message, behind the netlink header. -/
theorem transactMessage_has {seq pid : UInt32} (h : request.Has off bs) (hoff : 6 ≤ off)
    (hin : off + bs.length ≤ rmnetNlMsgSize) : (Image.ofBytes (transactMessage seq pid request)).Has (16 + off) bs := by
  have hmsg : (Image.ofBytes (transactMessage seq pid request)).Has 0 (transactMessage seq pid request) := Image.has_write _ _ _
  generalize Image.ofBytes (transactMessage seq pid request) = m at hmsg ⊢
  rw [transactMessage, Image.has_append] at hmsg
  have hsplit : (request.write 4 (leBytes 2 (request.nat 4 2 % 2 ^ 14))).read 0 rmnetNlMsgSize =
      (request.write 4 (leBytes 2 (request.nat 4 2 % 2 ^ 14))).read 0 off ++ bs ++
        (request.write 4 (leBytes 2 (request.nat 4 2 % 2 ^ 14))).read (off + bs.length) (rmnetNlMsgSize - (off + bs.length)) := by
    have hbs : (request.write 4 (leBytes 2 (request.nat 4 2 % 2 ^ 14))).read off bs.length = bs := by
      rw [Image.read_write_outside (.inr (by simp only [leBytes_length]; omega))]
      exact h
    have hn : rmnetNlMsgSize = off + bs.length + (rmnetNlMsgSize - (off + bs.length)) := by omega
    conv_lhs => rw [hn, Image.read_add, Image.read_add, Nat.zero_add, hbs]
    simp
  have h2 := hmsg.2
  rw [hsplit, Image.has_append, Image.has_append] at h2
  have h3 := h2.1.2
  simp only [List.length_append, leBytes_length, Image.read_length, Nat.zero_add] at h3
  exact h3

end Transactions

end Pixel845.Rmnet
