import Pixel845.Lemmas.RmnetFill
import Pixel845.Rmnet.Link

/-!
# The RTM calls in one form

Every RTM call with valid arguments starts a request, looks up the indices of one or two names, builds its message, sends it and
receives the reply (`rtmCall`); the functions that fill a message never fail, so that nothing else can happen. What is shown of
this form holds of all of them (`body_eq`).
-/

namespace Pixel845.Rmnet

/-! ## Filling never fails -/

/-- The part of a function that fills a message goes on whatever the message. -/
def Fill.Total {α : Type} (f : Fill α) : Prop := ∀ req, ∃ a req', f req = (.ok a, req')

section Total

variable {α β : Type}

theorem Fill.total_bind {f : Fill α} {g : α → Fill β} (hf : f.Total) (hg : ∀ a, (g a).Total) : Fill.Total (f >>= g) := by
  intro req
  obtain ⟨a, req', hx⟩ := hf req
  obtain ⟨b, req'', hy⟩ := hg a req'
  exact ⟨b, req'', (Fill.bind_eq hx).trans hy⟩

theorem Fill.total_pure (a : α) : Fill.Total (pure a) := fun req => ⟨a, req, rfl⟩

theorem Fill.total_put (type len : Int32) (data : Option Image) : (Fill.put (rtaPut type len data)).Total := by
  intro req
  refine ⟨(), (rtaPut type len data req).2, ?_⟩
  simp only [Fill.put, rtaPut_eq]
  rfl

theorem Fill.total_nestedStart (type : Int32) : (Fill.nestedStart type).Total :=
  Fill.total_bind (fun req => ⟨req, req, rfl⟩) fun _ => Fill.total_bind (Fill.total_put _ _ _) fun _ => Fill.total_pure _

theorem Fill.total_nestedEnd (start : Nat) : (Fill.nestedEnd start).Total := fun req => ⟨(), rtaNestedEnd start req, rfl⟩

theorem Fill.total_ends (datainfo linkinfo : Nat) : Fill.Total (do Fill.nestedEnd datainfo; Fill.nestedEnd linkinfo) :=
  Fill.total_bind (Fill.total_nestedEnd _) fun _ => Fill.total_nestedEnd _

/-- The message of a new link is filled to its end, with success or not. -/
theorem rmnetFillNewlinkMsg_total (devindex : UInt32) (vndname : CString) (index : UInt8) (flagconfig : UInt32) :
    (rmnetFillNewlinkMsg devindex vndname index flagconfig).Total := by
  refine Fill.total_bind (Fill.total_put _ _ _) fun _ => Fill.total_bind (Fill.total_put _ _ _) fun _ => ?_
  refine Fill.total_bind (Fill.total_nestedStart _) fun linkinfo => Fill.total_bind (Fill.total_put _ _ _) fun _ => ?_
  refine Fill.total_bind (Fill.total_nestedStart _) fun datainfo => Fill.total_bind (Fill.total_put _ _ _) fun _ => ?_
  split
  · exact Fill.total_bind (Fill.total_put _ _ _) fun _ => Fill.total_ends _ _
  · exact Fill.total_ends _ _

/-- The parameters of a link are filled to their end, with success or not. -/
theorem fillLinkParams_total (devindex : UInt32) (vndname : CString) (type : Nat) (params : List UInt8) :
    (fillLinkParams devindex vndname type params).Total := by
  refine Fill.total_bind (Fill.total_put _ _ _) fun _ => Fill.total_bind (Fill.total_put _ _ _) fun _ => ?_
  refine Fill.total_bind (Fill.total_nestedStart _) fun linkinfo => Fill.total_bind (Fill.total_put _ _ _) fun _ => ?_
  refine Fill.total_bind (Fill.total_nestedStart _) fun datainfo => Fill.total_bind (Fill.total_put _ _ _) fun _ => ?_
  exact Fill.total_ends _ _

/-- A request that is filled is sent. -/
theorem fillAndSend_eq {fill : Fill Unit} (hf : fill.Total) (req : Req) :
    fillAndSend fill req = sendReq (fill req).2 rmnetGetAck := by
  obtain ⟨a, req', hx⟩ := hf req
  rw [fillAndSend, hx]

end Total

/-! ## The form -/

/-- A call with valid arguments: the type and the flags of its request, the names whose indices it looks up, the message that it
makes of the one it has started, and how it receives the reply. -/
structure RtmRequest where
  type : Nat
  flags : Nat
  names : List CString
  build : List UInt32 → Req → Req
  receive : RmM Outcome

/-- Go on with the indices of all names. -/
def withIndices : List CString → (List UInt32 → RmM Outcome) → RmM Outcome
  | [], k => k []
  | name :: names, k => withIndex name fun i => withIndices names fun is => k (i :: is)

/-- What the calls do. -/
def rtmCall : Option RtmRequest → RmM Outcome
  | none => invalidArg
  | some r => do
    let req ← startReq r.type r.flags
    withIndices r.names fun is => sendReq (r.build is req) r.receive

/-- The request of a call that fills a message for a device and a link. -/
def newlinkRequest (p : Ptrs) (devname vndname : Option CString) (valid : Bool) (flags : Nat)
    (fill : UInt32 → CString → Fill Unit) : Option RtmRequest :=
  match devname, vndname with
  | some devname, some vndname =>
    if p.ok && valid then some {
      type := rtmNewlink
      flags := flags
      names := [devname]
      build := fun is req => (fill (is.headD 0) vndname req).2
      receive := rmnetGetAck }
    else none
  | _, _ => none

/-- The request of a call about one interface. -/
def indexRequest (valid : Bool) (vndname : Option CString) (type flags : Nat) (receive : RmM Outcome) : Option RtmRequest :=
  match vndname with
  | some vndname =>
    if valid then some {
      type := type
      flags := flags
      names := [vndname]
      build := fun is req => req.setIfiIndex (is.headD 0)
      receive := receive }
    else none
  | none => none

/-- How `rtrmnet_ctl_getvnd` receives its reply. -/
def receiveLink (o : GetvndOuts) : RmM Outcome := do
  match ← perform .peek with
  | .error errno => return { rc := rmnetctlApiErrMessageReceive.toNat, errorCode := some errno }
  | .ok respLen =>
    match ← perform (.malloc respLen) with
    | .error errno => return { rc := rmnetctlLibErr, errorCode := some errno }
    | .ok _ =>
      match ← perform (.recv respLen) with
      | .error errno => return { rc := rmnetctlApiErrMessageReceive.toNat, errorCode := some errno }
      | .ok _ => fromBuffer (readLink o)

/-- The request of a flow call. -/
def flowRequest (p : Ptrs) (devname vndname : Option CString) (valid : Bool) (flowinfo : Tcmsg) : Option RtmRequest :=
  newlinkRequest p devname vndname (nameOk devname && nameOk vndname && valid) nlmFRequestAck fun devindex vndname =>
    rmnetFillFlowMsg devindex vndname flowinfo

/-- The request of a call, if its arguments are valid. -/
def RtmCall.request (p : Ptrs) : RtmCall → Option RtmRequest
  | .newvnd d v index flagconfig =>
    newlinkRequest p d v (nameOk v && nameOk d) nlmFRequestCreate fun devindex vndname => do
      Fill.put (rtaPutU32 (.ofNat rmnetIflaNumTxQueues) rmnetctlNumTxQueues)
      rmnetFillNewlinkMsg devindex vndname index flagconfig
  | .delvnd v => indexRequest p.ok v rtmDellink nlmFRequestAck rmnetGetAck
  | .changevnd d v index flagconfig =>
    newlinkRequest p d v (nameOk v && nameOk d) nlmFRequestAck fun devindex vndname =>
      rmnetFillNewlinkMsg devindex vndname index flagconfig
  | .getvnd v o =>
    indexRequest (p.ok && (o.muxId || o.flagconfig) && nameOk v) v rtmGetlink nlmFRequest (receiveLink o)
  | .bridgevnd d v =>
    match d, v with
    | some d, some v =>
      if p.ok && nameOk (some v) then some {
        type := rtmNewlink
        flags := nlmFRequestAck
        names := [d, v]
        build := fun is req =>
          (Fill.put (rtaPutU32 (.ofNat iflaMaster) (is.getD 1 0)) (req.setIfiIndex (is.headD 0))).2
        receive := rmnetGetAck }
      else none
    | _, _ => none
  | .setUplinkAggregationParams d v packetCount byteCount timeLimit features =>
    newlinkRequest p d v (nameOk d && nameOk v) nlmFRequestAck fun devindex vndname =>
      fillLinkParams devindex vndname rmnetctlIflaUplinkParams (UplinkParams.bytes ⟨byteCount, packetCount, features, timeLimit⟩)
  | .activateFlow d v bearerId flowId ipType tcmHandle =>
    flowRequest p d v true
      { tcmHandle := tcmHandle, tcmFamily := 1, tcmPad1 := bearerId, tcmIfindex := ipType, tcmParent := flowId }
  | .deleteFlow d v bearerId flowId ipType =>
    flowRequest p d v true { tcmFamily := 2, tcmIfindex := ipType, tcmPad1 := bearerId, tcmParent := flowId }
  | .controlFlow d v bearerId sequence grantsize ack =>
    flowRequest p d v true
      { tcmFamily := 3, tcmPad1 := bearerId, tcmPad2 := sequence, tcmParent := ack.toUInt32, tcmInfo := grantsize }
  | .flowStateUp d v inst epType ifaceid flags =>
    flowRequest p d v true { tcmHandle := inst, tcmFamily := 4, tcmIfindex := flags, tcmParent := ifaceid, tcmInfo := epType }
  | .flowStateDown d v inst => flowRequest p d v true { tcmHandle := inst, tcmFamily := 5 }
  | .setQmiScale d v scale => flowRequest p d v (scale != 0) { tcmIfindex := scale, tcmFamily := 6 }
  | .setWdaFreq d v freq => flowRequest p d v true { tcmIfindex := freq, tcmFamily := 7 }

/-- The calls that make or change a link are such calls. -/
theorem newlinkCall_eq (p : Ptrs) (devname vndname : Option CString) (valid : Bool) (flags : Nat)
    {fill : UInt32 → CString → Fill Unit} (hfill : ∀ i v, (fill i v).Total) :
    newlinkCall p devname vndname valid flags fill = rtmCall (newlinkRequest p devname vndname valid flags fill) := by
  cases devname with
  | none => rfl
  | some devname =>
    cases vndname with
    | none => rfl
    | some vndname =>
      simp only [newlinkCall, newlinkRequest]
      split
      · simp only [fillAndSend_eq (hfill _ _)]
        rfl
      · rfl

/-- The calls about flows are such calls. -/
theorem flowCall_eq (p : Ptrs) (devname vndname : Option CString) (valid : Bool) (flowinfo : Tcmsg) :
    flowCall p devname vndname valid flowinfo = rtmCall (flowRequest p devname vndname valid flowinfo) :=
  newlinkCall_eq _ _ _ _ _ fun _ _ => fillLinkParams_total _ _ _ _

/-- Every RTM call has the form. -/
theorem body_eq (p : Ptrs) (q : RtmCall) : q.body p = rtmCall (q.request p) := by
  cases q with
  | newvnd d v index flagconfig =>
    exact newlinkCall_eq _ _ _ _ _ fun _ _ => Fill.total_bind (Fill.total_put _ _ _) fun _ => rmnetFillNewlinkMsg_total _ _ _ _
  | changevnd d v index flagconfig => exact newlinkCall_eq _ _ _ _ _ fun _ _ => rmnetFillNewlinkMsg_total _ _ _ _
  | setUplinkAggregationParams => exact newlinkCall_eq _ _ _ _ _ fun _ _ => fillLinkParams_total _ _ _ _
  | delvnd v =>
    cases v with
    | none => rfl
    | some v =>
      simp only [RtmCall.body, rtrmnetCtlDelvnd, RtmCall.request, indexRequest]
      split <;> rfl
  | getvnd v o =>
    cases v with
    | none => rfl
    | some v =>
      simp only [RtmCall.body, rtrmnetCtlGetvnd, RtmCall.request, indexRequest]
      split <;> rfl
  | bridgevnd d v =>
    cases d with
    | none => rfl
    | some d =>
      cases v with
      | none => rfl
      | some v =>
        simp only [RtmCall.body, rtrmnetCtlBridgevnd, RtmCall.request]
        split
        · have hput : ∀ i, (Fill.put (rtaPutU32 (.ofNat iflaMaster) i)).Total := fun i => Fill.total_put _ _ _
          simp only [fillAndSend_eq (hput _)]
          rfl
        · rfl
  | _ => exact flowCall_eq _ _ _ _ _

/-! ## How the reply is received -/

/-- How a call receives its reply. -/
def RtmCall.receive : RtmCall → RmM Outcome
  | .getvnd _ o => receiveLink o
  | _ => rmnetGetAck

/-- The calls that make or change a link read an acknowledgement. -/
theorem receive_newlink {p : Ptrs} {devname vndname : Option CString} {valid : Bool} {flags : Nat}
    {fill : UInt32 → CString → Fill Unit} {r : RtmRequest} (hr : newlinkRequest p devname vndname valid flags fill = some r) :
    r.receive = rmnetGetAck := by
  cases devname with
  | none => cases hr
  | some devname =>
    cases vndname with
    | none => cases hr
    | some vndname =>
      simp only [newlinkRequest] at hr
      split at hr
      · cases hr
        rfl
      · cases hr

/-- A call with an index reads what it is given. -/
theorem receive_index {valid : Bool} {vndname : Option CString} {type flags : Nat} {receive : RmM Outcome} {r : RtmRequest}
    (hr : indexRequest valid vndname type flags receive = some r) : r.receive = receive := by
  cases vndname with
  | none => cases hr
  | some vndname =>
    simp only [indexRequest] at hr
    split at hr
    · cases hr
      rfl
    · cases hr

/-- What a call reads does not depend on its request. -/
theorem receive_request {p : Ptrs} {q : RtmCall} {r : RtmRequest} (hr : q.request p = some r) : r.receive = q.receive := by
  cases q with
  | getvnd v o => exact receive_index hr
  | delvnd v => exact receive_index hr
  | bridgevnd d v =>
    cases d with
    | none => cases hr
    | some d =>
      cases v with
      | none => cases hr
      | some v =>
        simp only [RtmCall.request] at hr
        split at hr
        · cases hr
          rfl
        · cases hr
  | newvnd | changevnd | setUplinkAggregationParams =>
    unfold RtmCall.request at hr
    exact receive_newlink hr
  | _ =>
    unfold RtmCall.request flowRequest at hr
    exact receive_newlink hr

/-! ## What is sent -/

section Sent

variable {p : RmM Outcome} {t : Events} {x : Outcome}

/-- Nothing is sent. -/
def Silent (p : RmM Outcome) : Prop := ∀ t x, p.Exec t x → sent t = []

theorem silent_ret (x : Outcome) : Silent (.ret x) := by
  intro t y hy
  cases hy
  rfl

theorem silent_op {o : Op} {k : o.Res → RmM Outcome} (ho : o.sent? = none) (hk : ∀ r, Silent (k r)) : Silent (.op o k) := by
  intro t x hx
  cases hx with
  | op _ r hx => rw [sent_cons, ho, hk r _ x hx, Option.toList_none, List.nil_append]

theorem silent_fromBuffer (r : Reader Outcome) : Silent (fromBuffer r) := by
  induction r with
  | ret x => exact silent_ret x
  | op l k ih => exact silent_op rfl ih

theorem silent_rmnetGetAck : Silent rmnetGetAck := by
  refine silent_op rfl ?_
  intro r
  cases r with
  | error e => exact silent_ret _
  | ok n => exact silent_fromBuffer readAck

theorem silent_receiveLink (o : GetvndOuts) : Silent (receiveLink o) := by
  refine silent_op rfl ?_
  intro r
  cases r with
  | error e => exact silent_ret _
  | ok n =>
  refine silent_op rfl ?_
  intro r
  cases r with
  | error e => exact silent_ret _
  | ok _ =>
  refine silent_op rfl ?_
  intro r
  cases r with
  | error e => exact silent_ret _
  | ok n => exact silent_fromBuffer (readLink o)

/-- A call for one device sends one message, for the index that it has found, or it ends with the error of `if_nametoindex`. -/
theorem rtmCall_sent {r : RtmRequest} {name : CString} (hn : r.names = [name]) (hs : Silent r.receive)
    (hx : (rtmCall (some r)).Exec t x) :
    ∃ stack seq index errno, (⟨.ifNametoindex name, (index, errno)⟩ : Prog.Event Op.Res) ∈ t ∧
      sent t = if index = 0 then [] else [(r.build [index] (initReq stack r.type r.flags seq)).message] := by
  cases hx with | op _ stack hx =>
  cases hx with | op _ seq hx =>
  change Prog.Exec (withIndices r.names _) _ _ at hx
  rw [hn] at hx
  cases hx with | op _ answer hx =>
  refine ⟨stack, seq, answer.1, answer.2, by simp, ?_⟩
  change Prog.Exec (if answer.1 = 0 then _ else _) _ _ at hx
  split at hx
  · rename_i h0
    cases hx
    rw [if_pos h0]
    rfl
  · rename_i h0
    rw [if_neg h0]
    cases hx with | op _ r' hx =>
    cases r' with
    | error e =>
      cases hx
      rfl
    | ok _ =>
      have hsilent := hs _ _ hx
      simp only [sent_cons, hsilent]
      rfl

end Sent

end Pixel845.Rmnet
