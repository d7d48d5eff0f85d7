import Pixel845.Rmnet.Reply

/-!
# The RTM calls

The `rtrmnet_*` functions of `librmnetctl.c`. Most of them differ in their checks, in the flags of the request and in what they
fill it with: `newlinkCall` is what they share. A call is given which of `hndl` and `error_code` are not `NULL` (`Ptrs`); a string
that is `NULL` is `none`. An `int` argument is given by its bits.
-/

namespace Pixel845.Rmnet

/-- Whether the pointers that every call is given are not `NULL`. -/
structure Ptrs where
  hndl : Bool
  errorCode : Bool

/-- `hndl && error_code` -/
def Ptrs.ok (p : Ptrs) : Bool := p.hndl && p.errorCode

/-- `_rmnetctl_check_dev_name` accepts the name. -/
def nameOk (devName : Option CString) : Bool := rmnetctlCheckDevName devName == rmnetctlSuccess

/-! ## Parts of a call -/

/-- The end of a call with wrong arguments. -/
def invalidArg : RmM Outcome := return { rc := rmnetctlInvalidArg }

/-- Start a request: a cleared message on the stack, with the next sequence number. -/
def startReq (type flags : Nat) : RmM Req := do
  let stack ← perform .uninit
  let seq ← perform .transactionId
  return initReq stack type flags seq

/-- Go on with the index of an interface, or end with the error of `if_nametoindex`. -/
def withIndex (name : CString) (k : UInt32 → RmM Outcome) : RmM Outcome := do
  let (devindex, errno) ← perform (.ifNametoindex name)
  if devindex = 0 then return { rc := rmnetctlKernelErr, errorCode := some errno }
  else k devindex

/-- Send the request and go on with the reply. -/
def sendReq (req : Req) (receive : RmM Outcome) : RmM Outcome := do
  match ← perform (.send req.message) with
  | .error _ => return { rc := rmnetctlLibErr, errorCode := some rmnetctlApiErrMessageSend }
  | .ok _ => receive

/-- Fill the request, send it and wait for the acknowledgement. -/
def fillAndSend (fill : Fill Unit) (req : Req) : RmM Outcome :=
  match fill req with
  | (.error rc, _) => return { rc := rc, errorCode := some rmnetctlApiErrRtaFailure }
  | (.ok _, req) => sendReq req rmnetGetAck

/-- A call that sends an `RTM_NEWLINK` request for a device and a link, if its arguments are valid. -/
def newlinkCall (p : Ptrs) (devname vndname : Option CString) (valid : Bool) (flags : Nat)
    (fill : UInt32 → CString → Fill Unit) : RmM Outcome :=
  match devname, vndname with
  | some devname, some vndname =>
    if p.ok && valid then do
      let req ← startReq rtmNewlink flags
      withIndex devname fun devindex => fillAndSend (fill devindex vndname) req
    else invalidArg
  | _, _ => invalidArg

/-! ## The calls -/

/-- `rtrmnet_ctl_newvnd` -/
def rtrmnetCtlNewvnd (p : Ptrs) (devname vndname : Option CString) (index : UInt8) (flagconfig : UInt32) : RmM Outcome :=
  newlinkCall p devname vndname (nameOk vndname && nameOk devname) nlmFRequestCreate fun devindex vndname => do
    Fill.put (rtaPutU32 (.ofNat rmnetIflaNumTxQueues) rmnetctlNumTxQueues)
    rmnetFillNewlinkMsg devindex vndname index flagconfig

/-- `rtrmnet_ctl_changevnd` -/
def rtrmnetCtlChangevnd (p : Ptrs) (devname vndname : Option CString) (index : UInt8) (flagconfig : UInt32) :
    RmM Outcome :=
  newlinkCall p devname vndname (nameOk vndname && nameOk devname) nlmFRequestAck fun devindex vndname =>
    rmnetFillNewlinkMsg devindex vndname index flagconfig

/-- `rtrmnet_ctl_delvnd`: the name may have any length. -/
def rtrmnetCtlDelvnd (p : Ptrs) (vndname : Option CString) : RmM Outcome :=
  match vndname with
  | some vndname =>
    if p.ok then do
      let req ← startReq rtmDellink nlmFRequestAck
      withIndex vndname fun devindex => sendReq (req.setIfiIndex devindex) rmnetGetAck
    else invalidArg
  | none => invalidArg

/-- `rtrmnet_ctl_getvnd`: the size of the reply is asked for first, and a buffer of that size is allocated. -/
def rtrmnetCtlGetvnd (p : Ptrs) (vndname : Option CString) (o : GetvndOuts) : RmM Outcome :=
  match vndname with
  | some vndname =>
    if p.ok && (o.muxId || o.flagconfig) && nameOk (some vndname) then do
      let req ← startReq rtmGetlink nlmFRequest
      withIndex vndname fun devindex => sendReq (req.setIfiIndex devindex) do
        match ← perform .peek with
        | .error errno => return { rc := rmnetctlApiErrMessageReceive.toNat, errorCode := some errno }
        | .ok respLen =>
          match ← perform (.malloc respLen) with
          | .error errno => return { rc := rmnetctlLibErr, errorCode := some errno }
          | .ok _ =>
            match ← perform (.recv respLen) with
            | .error errno => return { rc := rmnetctlApiErrMessageReceive.toNat, errorCode := some errno }
            | .ok _ => fromBuffer (readLink o)
    else invalidArg
  | none => invalidArg

/-- `rtrmnet_ctl_bridgevnd`: the index of the link is looked up too, and the name of the device may have any length. -/
def rtrmnetCtlBridgevnd (p : Ptrs) (devname vndname : Option CString) : RmM Outcome :=
  match devname, vndname with
  | some devname, some vndname =>
    if p.ok && nameOk (some vndname) then do
      let req ← startReq rtmNewlink nlmFRequestAck
      withIndex devname fun devindex => withIndex vndname fun vndindex =>
        fillAndSend (Fill.put (rtaPutU32 (.ofNat iflaMaster) vndindex)) (req.setIfiIndex devindex)
    else invalidArg
  | _, _ => invalidArg

/-- `rtrmnet_set_uplink_aggregation_params` -/
def rtrmnetSetUplinkAggregationParams (p : Ptrs) (devname vndname : Option CString) (packetCount : UInt8)
    (byteCount : UInt16) (timeLimit : UInt32) (features : UInt8) : RmM Outcome :=
  newlinkCall p devname vndname (nameOk devname && nameOk vndname) nlmFRequestAck fun devindex vndname =>
    fillLinkParams devindex vndname rmnetctlIflaUplinkParams (UplinkParams.bytes ⟨byteCount, packetCount, features, timeLimit⟩)

/-- What the flow calls share: they differ in the message for the DFC driver. -/
def flowCall (p : Ptrs) (devname vndname : Option CString) (valid : Bool) (flowinfo : Tcmsg) : RmM Outcome :=
  newlinkCall p devname vndname (nameOk devname && nameOk vndname && valid) nlmFRequestAck fun devindex vndname =>
    rmnetFillFlowMsg devindex vndname flowinfo

/-- `rtrmnet_activate_flow`, with `RMNET_FLOW_MSG_ACTIVATE`. -/
def rtrmnetActivateFlow (p : Ptrs) (devname vndname : Option CString) (bearerId : UInt8) (flowId ipType tcmHandle : UInt32) :
    RmM Outcome :=
  flowCall p devname vndname true
    { tcmHandle := tcmHandle, tcmFamily := 1, tcmPad1 := bearerId, tcmIfindex := ipType, tcmParent := flowId }

/-- `rtrmnet_delete_flow`, with `RMNET_FLOW_MSG_DEACTIVATE`. -/
def rtrmnetDeleteFlow (p : Ptrs) (devname vndname : Option CString) (bearerId : UInt8) (flowId ipType : UInt32) :
    RmM Outcome :=
  flowCall p devname vndname true { tcmFamily := 2, tcmIfindex := ipType, tcmPad1 := bearerId, tcmParent := flowId }

/-- `rtrmnet_control_flow`, with `RMNET_FLOW_MSG_CONTROL`. -/
def rtrmnetControlFlow (p : Ptrs) (devname vndname : Option CString) (bearerId : UInt8) (sequence : UInt16)
    (grantsize : UInt32) (ack : UInt8) : RmM Outcome :=
  flowCall p devname vndname true
    { tcmFamily := 3, tcmPad1 := bearerId, tcmPad2 := sequence, tcmParent := ack.toUInt32, tcmInfo := grantsize }

/-- `rtrmnet_flow_state_up`, with `RMNET_FLOW_MSG_UP`. -/
def rtrmnetFlowStateUp (p : Ptrs) (devname vndname : Option CString) (inst epType ifaceid flags : UInt32) : RmM Outcome :=
  flowCall p devname vndname true
    { tcmHandle := inst, tcmFamily := 4, tcmIfindex := flags, tcmParent := ifaceid, tcmInfo := epType }

/-- `rtrmnet_flow_state_down`, with `RMNET_FLOW_MSG_DOWN`. -/
def rtrmnetFlowStateDown (p : Ptrs) (devname vndname : Option CString) (inst : UInt32) : RmM Outcome :=
  flowCall p devname vndname true { tcmHandle := inst, tcmFamily := 5 }

/-- `rtrmnet_set_qmi_scale`, with `RMNET_FLOW_MSG_QMI_SCALE`: a scale of zero is refused. -/
def rtrmnetSetQmiScale (p : Ptrs) (devname vndname : Option CString) (scale : UInt32) : RmM Outcome :=
  flowCall p devname vndname (scale != 0) { tcmIfindex := scale, tcmFamily := 6 }

/-- `rtrmnet_set_wda_freq`, with `RMNET_FLOW_MSG_WDA_FREQ`. -/
def rtrmnetSetWdaFreq (p : Ptrs) (devname vndname : Option CString) (freq : UInt32) : RmM Outcome :=
  flowCall p devname vndname true { tcmIfindex := freq, tcmFamily := 7 }

/-! ## The calls as requests -/

/-- An RTM call with its arguments. -/
inductive RtmCall where
  | newvnd (devname vndname : Option CString) (index : UInt8) (flagconfig : UInt32)
  | delvnd (vndname : Option CString)
  | changevnd (devname vndname : Option CString) (index : UInt8) (flagconfig : UInt32)
  | getvnd (vndname : Option CString) (o : GetvndOuts)
  | bridgevnd (devname vndname : Option CString)
  | setUplinkAggregationParams (devname vndname : Option CString) (packetCount : UInt8) (byteCount : UInt16)
      (timeLimit : UInt32) (features : UInt8)
  | activateFlow (devname vndname : Option CString) (bearerId : UInt8) (flowId ipType tcmHandle : UInt32)
  | deleteFlow (devname vndname : Option CString) (bearerId : UInt8) (flowId ipType : UInt32)
  | controlFlow (devname vndname : Option CString) (bearerId : UInt8) (sequence : UInt16) (grantsize : UInt32) (ack : UInt8)
  | flowStateUp (devname vndname : Option CString) (inst epType ifaceid flags : UInt32)
  | flowStateDown (devname vndname : Option CString) (inst : UInt32)
  | setQmiScale (devname vndname : Option CString) (scale : UInt32)
  | setWdaFreq (devname vndname : Option CString) (freq : UInt32)

/-- The function of a call. -/
def RtmCall.body (p : Ptrs) : RtmCall → RmM Outcome
  | .newvnd d v index flagconfig => rtrmnetCtlNewvnd p d v index flagconfig
  | .delvnd v => rtrmnetCtlDelvnd p v
  | .changevnd d v index flagconfig => rtrmnetCtlChangevnd p d v index flagconfig
  | .getvnd v o => rtrmnetCtlGetvnd p v o
  | .bridgevnd d v => rtrmnetCtlBridgevnd p d v
  | .setUplinkAggregationParams d v packetCount byteCount timeLimit features =>
    rtrmnetSetUplinkAggregationParams p d v packetCount byteCount timeLimit features
  | .activateFlow d v bearerId flowId ipType tcmHandle => rtrmnetActivateFlow p d v bearerId flowId ipType tcmHandle
  | .deleteFlow d v bearerId flowId ipType => rtrmnetDeleteFlow p d v bearerId flowId ipType
  | .controlFlow d v bearerId sequence grantsize ack => rtrmnetControlFlow p d v bearerId sequence grantsize ack
  | .flowStateUp d v inst epType ifaceid flags => rtrmnetFlowStateUp p d v inst epType ifaceid flags
  | .flowStateDown d v inst => rtrmnetFlowStateDown p d v inst
  | .setQmiScale d v scale => rtrmnetSetQmiScale p d v scale
  | .setWdaFreq d v freq => rtrmnetSetWdaFreq p d v freq

/-- What the function makes of the message that it has received as the reply. -/
def RtmCall.read : RtmCall → Reader Outcome
  | .getvnd _ o => readLink o
  | _ => readAck

end Pixel845.Rmnet
