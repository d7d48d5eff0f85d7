import Pixel845.Lemmas.RmnetCall
import Pixel845.Lemmas.RmnetLegacy
import Pixel845.Lemmas.RmnetLink

/-!
# What is sent comes from the call

The RTM calls clear their message before they fill it, and the legacy calls do not. Two executions of a call that differ only in
what lies on the stack send the same bytes exactly for the RTM calls and for the legacy calls that send nothing
(`sent_alike_iff`).
-/

namespace Pixel845.Rmnet

/-- Two steps of executions that differ only in what lies in local variables: their operations are answered alike, and what is
sent may differ. -/
def AlikeEvent (e e' : Prog.Event Op.Res) : Prop :=
  (e.1 = .uninit ∧ e'.1 = .uninit) ∨ (∃ msg msg' r, e = ⟨.send msg, r⟩ ∧ e' = ⟨.send msg', r⟩) ∨ e = e'

/-- Two executions that differ only in what lies in local variables. -/
def AlikeEvents (t t' : Events) : Prop := List.Forall₂ AlikeEvent t t'

/-- What a call sends depends on the call only, and on the handle and the indices of its interfaces. -/
def Call.Determined (q : Call) : Prop :=
  ∀ t t' x x', q.body.Exec t x → q.body.Exec t' x' → AlikeEvents t t' → sent t = sent t'

/-- A call that writes all of what it sends: an RTM call, or a legacy call that is refused before it sends anything. -/
def Call.Written : Call → Prop
  | .rtm _ _ => True
  | .legacy p q => q.call p = none ∨ ∃ n ∈ q.names, rmnetMaxStrLen < n.2.strlen

namespace SentAux

variable {p p' : RmM Outcome} {req req' : Req} {t t' : Events} {x : Outcome}

/-! ### Messages of one length on two stacks -/

/-- The two messages agree in all of their bytes, and count the same space. -/
structure AlikeReq (req req' : Req) : Prop where
  reqsize : req.reqsize = req'.reqsize
  mem : ∀ i < nlmsgSize, req.mem i = req'.mem i

theorem alike_initReq (stack stack' : Image) (type flags : Nat) (seq : UInt32) :
    AlikeReq (initReq stack type flags seq) (initReq stack' type flags seq) where
  reqsize := rfl
  mem := by
    intro i hi
    simp only [initReq, Image.write, Image.clear, Nat.zero_le, Nat.zero_add, hi, and_self, if_true]

namespace AlikeReq

theorem store (h : AlikeReq req req') (off : Nat) (bs : List UInt8) : AlikeReq (req.store off bs) (req'.store off bs) where
  reqsize := h.reqsize
  mem := by
    intro i hi
    simp only [Req.store_mem, Image.write, h.mem i hi]

theorem tail (h : AlikeReq req req') : req.tail = req'.tail := by
  have hlen : req.nlmsgLen = req'.nlmsgLen := Image.nat_congr fun i _ hi => h.mem i (by simp only [nlmsgSize]; omega)
  rw [Req.tail, Req.tail, hlen]

theorem copied (h : AlikeReq req req') (attr : Nat) (o : Option (List UInt8)) :
    AlikeReq (req.copied attr o) (req'.copied attr o) := by
  cases o with
  | none => exact h
  | some bs => exact ⟨by rw [Req.copied_reqsize, Req.copied_reqsize, h.reqsize], (h.store _ _).mem⟩

/-- The length of an attribute is read back where it was just stored, also behind the message. -/
theorem length_read (req : Req) (type len : Int32) (o : Option (List UInt8)) :
    ((req.putHeader type len).copied req.tail o).mem.nat req.tail 2 = ((4 + len.toInt) % 2 ^ 16).toNat % 256 ^ 2 := by
  rw [Req.copied_mem, Image.nat_write_outside (by omega), Req.putHeader, Req.store_mem, Image.nat_write_leBytes]

theorem put (h : AlikeReq req req') (type len : Int32) (data : Option Image) :
    AlikeReq (rtaPut type len data req).2 (rtaPut type len data req').2 := by
  have hcopied : payloadCopied req len data = payloadCopied req' len data := by
    cases data with
    | none => rfl
    | some src => rw [payloadCopied, payloadCopied, h.reqsize]
  have hreq : AlikeReq ((req.putHeader type len).copied req.tail (payloadCopied req len data))
      ((req'.putHeader type len).copied req'.tail (payloadCopied req' len data)) := by
    rw [hcopied, h.tail]
    refine copied ?_ _ _
    rw [Req.putHeader, Req.putHeader, h.tail]
    exact (h.store _ _).store _ _
  rw [rtaPut_eq, rtaPut_eq]
  simp only [Req.bump]
  rw [length_read, length_read, hreq.tail]
  exact hreq.store _ _

theorem nestedEnd (h : AlikeReq req req') (start : Nat) : AlikeReq (rtaNestedEnd start req) (rtaNestedEnd start req') := by
  rw [rtaNestedEnd, rtaNestedEnd, h.tail]
  exact h.store _ _

theorem message (h : AlikeReq req req') (hlen : req.nlmsgLen ≤ nlmsgSize) : req.message = req'.message := by
  have heq : req'.nlmsgLen = req.nlmsgLen := Image.nat_congr fun i _ hi => (h.mem i (by simp only [nlmsgSize]; omega)).symm
  rw [Req.message, Req.message, heq]
  exact Image.read_congr fun i _ hi => h.mem i (by omega)

end AlikeReq

/-- The part of a function that fills a message does the same on both. -/
def AlikeFill {α : Type} (f : Fill α) : Prop :=
  ∀ req req', AlikeReq req req' → (f req).1 = (f req').1 ∧ AlikeReq (f req).2 (f req').2

section Filling

variable {α β : Type}

theorem alike_bind {f : Fill α} {g : α → Fill β} (hf : AlikeFill f) (hg : ∀ a, AlikeFill (g a)) : AlikeFill (f >>= g) := by
  intro req req' h
  obtain ⟨h1, h2⟩ := hf req req' h
  change ((ExceptT.bindCont g (f req).1) (f req).2).1 = ((ExceptT.bindCont g (f req').1) (f req').2).1 ∧
    AlikeReq ((ExceptT.bindCont g (f req).1) (f req).2).2 ((ExceptT.bindCont g (f req').1) (f req').2).2
  rw [← h1]
  cases (f req).1 with
  | error e => exact ⟨rfl, h2⟩
  | ok a => exact hg a _ _ h2

theorem alike_put (type len : Int32) (data : Option Image) : AlikeFill (Fill.put (rtaPut type len data)) := by
  intro req req' h
  have hput := h.put type len data
  refine ⟨?_, hput⟩
  simp only [Fill.put, rtaPut_eq]

theorem alike_nestedStart (type : Int32) : AlikeFill (Fill.nestedStart type) := by
  have heq (req : Req) : Fill.nestedStart type req = (.ok req.tail, (rtaPut type 0 none req).2) := by
    have hput : Fill.put (rtaNestedStart type) req = (.ok (), (rtaPut type 0 none req).2) := by
      simp only [Fill.put, rtaNestedStart, rtaPut_eq]
      rfl
    exact (Fill.bind_eq rfl).trans (Fill.bind_eq hput)
  intro req req' h
  rw [heq, heq, h.tail]
  exact ⟨rfl, h.put type 0 none⟩

theorem alike_nestedEnd (start : Nat) : AlikeFill (Fill.nestedEnd start) := fun _ _ h => ⟨rfl, h.nestedEnd start⟩

theorem alike_ends (datainfo linkinfo : Nat) : AlikeFill (do Fill.nestedEnd datainfo; Fill.nestedEnd linkinfo) :=
  alike_bind (alike_nestedEnd _) fun _ => alike_nestedEnd _

theorem alike_rmnetFillNewlinkMsg (devindex : UInt32) (vndname : CString) (index : UInt8) (flagconfig : UInt32) :
    AlikeFill (rmnetFillNewlinkMsg devindex vndname index flagconfig) := by
  refine alike_bind (alike_put _ _ _) fun _ => alike_bind (alike_put _ _ _) fun _ => ?_
  refine alike_bind (alike_nestedStart _) fun linkinfo => alike_bind (alike_put _ _ _) fun _ => ?_
  refine alike_bind (alike_nestedStart _) fun datainfo => alike_bind (alike_put _ _ _) fun _ => ?_
  split
  · exact alike_bind (alike_put _ _ _) fun _ => alike_ends _ _
  · exact alike_ends _ _

theorem alike_fillLinkParams (devindex : UInt32) (vndname : CString) (type : Nat) (params : List UInt8) :
    AlikeFill (fillLinkParams devindex vndname type params) := by
  refine alike_bind (alike_put _ _ _) fun _ => alike_bind (alike_put _ _ _) fun _ => ?_
  refine alike_bind (alike_nestedStart _) fun linkinfo => alike_bind (alike_put _ _ _) fun _ => ?_
  exact alike_bind (alike_nestedStart _) fun datainfo => alike_bind (alike_put _ _ _) fun _ => alike_ends _ _

end Filling

/-! ### RTM calls -/

/-- A request that is built alike on both messages, within the message, and whose reply is received without sending anything. -/
structure Settled (r : RtmRequest) : Prop where
  alike : ∀ is req req', AlikeReq req req' → AlikeReq (r.build is req) (r.build is req')
  short : ∀ is req, Holds req [] → ∃ bs, Holds (r.build is req) bs
  silent : ∀ t x, r.receive.Exec t x → sent t = []

theorem nil_short : ([] : List UInt8).length ≤ 100 := by decide

theorem settled_newlink {p : Ptrs} {devname vndname : Option CString} {valid : Bool} {flags : Nat}
    {fill : UInt32 → CString → Fill Unit} {r : RtmRequest} (hr : newlinkRequest p devname vndname valid flags fill = some r)
    (hname : valid → nameOk vndname = true)
    (hfill : ∀ i v, AlikeFill (fill i v)) (hgives : ∀ i, ∀ v : DevName, ∃ bs, (fill i v.name).Gives [] () bs) : Settled r := by
  cases devname with
  | none => cases hr
  | some devname =>
    cases vndname with
    | none => cases hr
    | some vndname =>
      simp only [newlinkRequest] at hr
      split at hr
      · rename_i hc
        cases hr
        refine ⟨fun is req req' h => (hfill _ _ req req' h).2, ?_, silent_rmnetGetAck⟩
        intro is req h
        have hshort : vndname.strlen < rmnetMaxStrLen := by
          have hok := hname (Bool.and_eq_true_iff.mp hc).2
          by_contra hlen
          simp [nameOk, rmnetctlCheckDevName, not_lt.mp hlen, rmnetctlInvalidArg, rmnetctlSuccess] at hok
        obtain ⟨bs, hgives⟩ := hgives (is.headD 0) ⟨vndname, hshort⟩
        obtain ⟨req', hreq, hholds⟩ := hgives req h
        refine ⟨bs, ?_⟩
        change Holds (fill (is.headD 0) vndname req).2 bs
        rw [hreq]
        exact hholds
      · cases hr

theorem settled_index {valid : Bool} {vndname : Option CString} {type flags : Nat} {receive : RmM Outcome} {r : RtmRequest}
    (hr : indexRequest valid vndname type flags receive = some r) (hs : Silent receive) : Settled r := by
  cases vndname with
  | none => cases hr
  | some vndname =>
    simp only [indexRequest] at hr
    split at hr
    · cases hr
      exact ⟨fun is req req' h => h.store _ _, fun is req h => ⟨[], h.setIfiIndex _⟩, hs⟩
    · cases hr

theorem settled_flow {p : Ptrs} {devname vndname : Option CString} {valid : Bool} {flowinfo : Tcmsg} {r : RtmRequest}
    (hr : flowRequest p devname vndname valid flowinfo = some r) : Settled r := by
  refine settled_newlink hr (fun h => ?_) (fun i v => alike_fillLinkParams _ _ _ _) fun i v =>
    ⟨_, fillLinkParams_gives nil_short (by decide) (by simp [Tcmsg.bytes])⟩
  simp only [Bool.and_eq_true] at h
  exact h.1.2

theorem settled_request {p : Ptrs} {q : RtmCall} {r : RtmRequest} (hr : q.request p = some r) : Settled r := by
  have hqueues := gives_putU32 (t := rmnetIflaNumTxQueues) (by decide) rmnetctlNumTxQueues (by decide : Fits [].length 4)
  cases q with
  | newvnd d v index flagconfig =>
    unfold RtmCall.request at hr
    refine settled_newlink hr (fun h => (Bool.and_eq_true_iff.mp h).1) (fun i v => ?_) fun i v => ?_
    · exact alike_bind (alike_put _ _ _) fun _ => alike_rmnetFillNewlinkMsg _ _ _ _
    · exact ⟨_, .bind hqueues (rmnetFillNewlinkMsg_gives (by decide))⟩
  | changevnd d v index flagconfig =>
    unfold RtmCall.request at hr
    refine settled_newlink hr (fun h => (Bool.and_eq_true_iff.mp h).1) (fun i v => alike_rmnetFillNewlinkMsg _ _ _ _)
      fun i v => ?_
    exact ⟨_, rmnetFillNewlinkMsg_gives nil_short⟩
  | setUplinkAggregationParams d v packetCount byteCount timeLimit features =>
    unfold RtmCall.request at hr
    refine settled_newlink hr (fun h => (Bool.and_eq_true_iff.mp h).2) (fun i v => alike_fillLinkParams _ _ _ _) fun i v => ?_
    exact ⟨_, fillLinkParams_gives nil_short (by decide) (by simp [UplinkParams.bytes])⟩
  | delvnd v => exact settled_index hr silent_rmnetGetAck
  | getvnd v o => exact settled_index hr (silent_receiveLink o)
  | bridgevnd d v =>
    cases d with
    | none => cases hr
    | some d =>
      cases v with
      | none => cases hr
      | some v =>
        simp only [RtmCall.request] at hr
        split at hr
        · cases hr
          refine ⟨fun is req req' h => ?_, fun is req h => ?_, silent_rmnetGetAck⟩
          · exact AlikeReq.put (h.store 20 (leBytes 4 (is.headD 0).toNat)) (.ofNat iflaMaster) 4
              (some (Image.ofBytes (leBytes 4 (is.getD 1 0).toNat)))
          obtain ⟨req', hreq, hholds⟩ := gives_putU32 (t := iflaMaster) (by decide) (is.getD 1 0)
            (by decide : Fits [].length 4) _ (h.setIfiIndex (is.headD 0))
          refine ⟨[] ++ (numAttr iflaMaster 4 (is.getD 1 0).toNat u32_small).bytes, ?_⟩
          change Holds (Fill.put (rtaPutU32 (.ofNat iflaMaster) (is.getD 1 0)) (req.setIfiIndex (is.headD 0))).2 _
          rw [hreq]
          exact hholds
        · cases hr
  | _ => exact settled_flow hr

/-- Two parts of executions of one call send the same. -/
def SendAlike (p p' : RmM Outcome) : Prop :=
  ∀ t t' x x', p.Exec t x → p'.Exec t' x' → AlikeEvents t t' → sent t = sent t'

/-- Programs that send nothing send alike. -/
theorem sendAlike_silent (hp : Silent p) (hp' : Silent p') : SendAlike p p' := by
  intro t t' x x' hx hx' _
  rw [hp t x hx, hp' t' x' hx']

/-- What a variable holds before makes no difference. -/
theorem sendAlike_uninit {k k' : Image → RmM Outcome} (h : ∀ r r', SendAlike (k r) (k' r')) :
    SendAlike (.op .uninit k) (.op .uninit k') := by
  intro t t' x x' hx hx' ha
  cases hx with | op _ r hx =>
  cases hx' with | op _ r' hx' =>
  cases ha with
  | cons h1 h2 => rw [sent_cons, sent_cons, h r r' _ _ x x' hx hx' h2]

/-- The rule for an operation that is answered alike. -/
theorem sendAlike_op {o : Op} {k k' : o.Res → RmM Outcome} (ho : o ≠ .uninit) (h : ∀ r, SendAlike (k r) (k' r)) :
    SendAlike (.op o k) (.op o k') := by
  intro t t' x x' hx hx' ha
  cases hx with | op _ r hx =>
  cases hx' with | op _ r' hx' =>
  cases ha with
  | cons h1 h2 =>
    rcases h1 with ⟨h1, -⟩ | ⟨msg, msg', s, h1, h1'⟩ | h1
    · exact absurd h1 ho
    · cases h1
      cases h1'
      rw [sent_cons, sent_cons, h s _ _ x x' hx hx' h2]
    · cases h1
      rw [sent_cons, sent_cons, h r _ _ x x' hx hx' h2]

/-- Requests with one message send alike. -/
theorem sendAlike_sendReq {receive : RmM Outcome} (hm : req.message = req'.message) (hs : Silent receive) :
    SendAlike (sendReq req receive) (sendReq req' receive) := by
  unfold sendReq
  rw [hm]
  refine sendAlike_op (by simp) ?_
  intro r
  cases r with
  | error e => exact sendAlike_silent (silent_ret _) (silent_ret _)
  | ok _ => exact sendAlike_silent hs hs

/-- Looking up names leaves programs that send alike. -/
theorem sendAlike_withIndices (names : List CString) {k k' : List UInt32 → RmM Outcome} (h : ∀ is, SendAlike (k is) (k' is)) :
    SendAlike (withIndices names k) (withIndices names k') := by
  induction names generalizing k k' with
  | nil => exact h []
  | cons name names ih =>
    refine sendAlike_op (by simp) ?_
    intro r
    change SendAlike (if r.1 = 0 then _ else _) (if r.1 = 0 then _ else _)
    split
    · exact sendAlike_silent (silent_ret _) (silent_ret _)
    · exact ih fun is => h _

/-- What an RTM call sends is determined. -/
theorem rtm_determined (p : Ptrs) (q : RtmCall) : (Call.rtm p q).Determined := by
  change SendAlike (q.body p) (q.body p)
  rw [body_eq]
  cases hr : q.request p with
  | none => exact sendAlike_silent (silent_ret _) (silent_ret _)
  | some r =>
    have hs := settled_request hr
    refine sendAlike_uninit fun stack stack' => sendAlike_op (by simp) fun seq => sendAlike_withIndices _ fun is => ?_
    obtain ⟨bs, hholds⟩ := hs.short is _ (initReq_holds stack r.type r.flags seq)
    have hlen := hholds.len
    have hspace := hholds.space
    exact sendAlike_sendReq ((hs.alike is _ _ (alike_initReq stack stack' _ _ seq)).message (by omega)) hs.silent

/-! ### Legacy calls -/

variable {ptrs : Ptrs} {q : LegacyCall} {r : LegacyRequest}

/-- A refused call sends nothing. -/
theorem unsent (hq : (Call.legacy ptrs q).Written) (hx : (legacyCall (q.call ptrs)).Exec t x) : sent t = [] := by
  have hno {r : LegacyRequest} {stack request : Image} (hc : q.call ptrs = some r)
      (hr : r.request stack = .ok request) : False := by
    rcases hq with hq | ⟨n, hn, hlong⟩
    · rw [hq] at hc
      cases hc
    · exact absurd ((request_ok_iff hc stack).mp ⟨request, hr⟩ n hn) (not_le.mpr hlong)
  have hends := legacy_ends hx
  generalize sent t = ms at hends ⊢
  generalize received t = bs at hends
  cases hends with
  | invalid hc => rfl
  | refused hc hr => rfl
  | failed hc hr hu hh ht => exact (hno hc hr).elim
  | answered hc hr hu hh htype hb => exact (hno hc hr).elim

/-- An execution in which the request is sent and no response to it is received. -/
def unansweredEvents (stack request : Image) : Events :=
  [⟨.uninit, stack⟩, ⟨.malloc maxBufSize, .ok ()⟩, ⟨.malloc maxBufSize, .ok ()⟩, ⟨.pid, (0 : UInt32)⟩,
    ⟨.transactionId, (0 : UInt32)⟩, ⟨.send (transactMessage 0 0 request), .ok ()⟩, ⟨.recvfrom maxBufSize, .error 4⟩]

/-- One operation in front. -/
theorem exec_step (o : Op) (r : o.Res) {k : o.Res → RmM Outcome} (h : (k r).Exec t x) : Prog.Exec (.op o k) (⟨o, r⟩ :: t) x :=
  .op o r h

/-- A call whose request is not answered. -/
theorem unanswered_exec {stack request : Image} (hr : r.request stack = .ok request) :
    (legacyCall (some r)).Exec (unansweredEvents stack request)
      { rc := rmnetctlLibErr, errorCode := some rmnetctlApiErrMessageReceive } := by
  rw [legacyCall, Prog.call_bind]
  refine exec_step .uninit stack ?_
  simp only [hr]
  refine exec_step (.malloc maxBufSize) (.ok ()) (exec_step (.malloc maxBufSize) (.ok ()) ?_)
  refine exec_step .pid (0 : UInt32) (exec_step .transactionId (0 : UInt32) ?_)
  exact exec_step (.send _) (.ok ()) (exec_step (.recvfrom maxBufSize) (.error 4) (.ret _))

/-- Two calls that are not answered have the same answers. -/
theorem unanswered_alike (stack stack' request request' : Image) :
    AlikeEvents (unansweredEvents stack request) (unansweredEvents stack' request') :=
  .cons (.inl ⟨rfl, rfl⟩) (.cons (.inr (.inr rfl)) (.cons (.inr (.inr rfl)) (.cons (.inr (.inr rfl)) (.cons (.inr (.inr rfl))
    (.cons (.inr (.inl ⟨_, _, _, rfl, rfl⟩)) (.cons (.inr (.inr rfl)) .nil))))))

/-- The last byte of a request is never written. -/
theorem last_byte {stack request : Image} (hc : q.call ptrs = some r) (hr : r.request stack = .ok request) :
    request 71 = stack 71 := by
  rw [request_eq hc] at hr
  refine stored_outside hr fun x hx => .inr ?_
  have := (pieces_between q x hx).2
  simp only [rmnetNlMsgSize] at this
  omega

/-- The last byte of a message is that of its request. -/
theorem transactMessage_last (seq pid : UInt32) (request : Image) :
    (transactMessage seq pid request).getLast? = some (request 71) := by
  have h72 : rmnetNlMsgSize = 71 + 1 := rfl
  rw [transactMessage, h72, Image.read_add, ← List.append_assoc, List.getLast?_append]
  simp only [Image.read, List.range_one, List.map_cons, List.map_nil, List.getLast?_singleton, Nat.zero_add, Nat.add_zero,
    Option.some_or]
  rw [Image.write_outside (.inr (by simp))]

/-- What a legacy call sends is determined exactly if all is written. -/
theorem legacy_determined_iff : (Call.legacy ptrs q).Determined ↔ (Call.legacy ptrs q).Written := by
  constructor
  · intro hdet
    by_contra hw
    simp only [Call.Written, not_or, not_exists, not_and, not_lt] at hw
    obtain ⟨hsome, hnames⟩ := hw
    obtain ⟨r, hc⟩ := Option.ne_none_iff_exists'.mp hsome
    -- Two stacks that differ in the last byte of the request.
    obtain ⟨request, hr⟩ := (request_ok_iff hc Image.zero).mpr hnames
    obtain ⟨request', hr'⟩ := (request_ok_iff hc (fun _ => 1)).mpr hnames
    have hx := unanswered_exec hr
    have hx' := unanswered_exec hr'
    rw [← hc] at hx hx'
    have hsent := hdet _ _ _ _ hx hx' (unanswered_alike _ _ _ _)
    have hmsg : transactMessage 0 0 request = transactMessage 0 0 request' := (List.cons.inj hsent).1
    have hlast := congrArg List.getLast? hmsg
    rw [transactMessage_last, transactMessage_last, last_byte hc hr, last_byte hc hr'] at hlast
    exact absurd hlast (by decide)
  · intro hw t t' x x' hx hx' _
    rw [unsent hw hx, unsent hw hx']

end SentAux

open SentAux in
/-- Two executions of a call that differ only in what lies in local variables send the same bytes, for all such executions,
exactly if the call writes all of what it sends. -/
theorem sent_alike_iff (q : Call) : q.Determined ↔ q.Written := by
  cases q with
  | rtm p q => exact iff_of_true (rtm_determined p q) trivial
  | legacy p q => exact legacy_determined_iff

open SentAux in
/-- A call that asks for the name of a virtual device sends what the stack holds. -/
theorem not_sent_alike : ¬∀ q : Call, q.Determined := by
  intro hall
  have hdet : (Call.legacy ⟨true, true⟩ (.getVndName 0 true 32)).Determined := hall _
  rcases legacy_determined_iff.mp hdet with h | ⟨n, hn, -⟩
  · cases h
  · cases hn

end Pixel845.Rmnet
