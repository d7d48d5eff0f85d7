import Pixel845.Rmnet.Link

/-!
# The legacy calls

The `rmnet_*` functions of `librmnetctl.c`. Each checks its arguments, writes a request of its message type into a local `struct
rmnet_nl_msg_s`, sends it with `rmnetctl_transact` and takes its outcome from the response: `legacyCall` is what they share. A
request is 72 bytes of memory, whatever was there before; a response is 72 bytes of what was received, and what lies behind them
on the stack is read by `strlcpy` if the name in it does not end (`Op.behindResponse`).
-/

namespace Pixel845.Rmnet

/-! ## Messages -/

/-- `sizeof(struct rmnet_nl_msg_s)` -/
def rmnetNlMsgSize : Nat := 72

/-- `MAX_BUF_SIZE`: a netlink header and a message. -/
def maxBufSize : Nat := 88

def rmnetNetlinkMsgReturncode : Nat := 1
def rmnetNetlinkMsgReturndata : Nat := 2

/-- `RMNET_CONFIG_OK` -/
def rmnetConfigOk : Nat := 0

/-- The message types, `enum rmnet_netlink_message_types_e`. -/
inductive MessageType where
  | associateNetworkDevice
  | unassociateNetworkDevice
  | getNetworkDeviceAssociated
  | setLinkEgressDataFormat
  | getLinkEgressDataFormat
  | setLinkIngressDataFormat
  | getLinkIngressDataFormat
  | setLogicalEpConfig
  | unsetLogicalEpConfig
  | getLogicalEpConfig
  | newVnd
  | newVndWithPrefix
  | getVndName
  | freeVnd
  | addVndTcFlow
  | delVndTcFlow
  | newVndWithName

/-- Set `message_type` and `arg_length`. -/
def setType (type : MessageType) (argLength : Nat) (m : Image) : Image :=
  (m.write 2 (leBytes 2 type.ctorIdx)).write 6 (leBytes 2 argLength)

/-- `strlcpy` of a name into a field of `RMNET_MAX_STR_LEN` bytes at an offset, with `_rmnetctl_check_len`. -/
def copyName (off : Nat) (name : CString) (m : Image) : Except Errno Image :=
  if rmnetMaxStrLen < name.strlen then .error rmnetctlApiErrStringTruncation
  else .ok (m.write off (name.bytes.take (rmnetMaxStrLen - 1) ++ [0]))

/-- The string that begins in a response: if it does not end there, it goes on in what lies behind. -/
def stringAt (response : Image) (behind : CString) (off : Nat) : List UInt8 :=
  (response.read off (rmnetNlMsgSize - off) ++ behind.bytes).takeWhile (· != 0)

/-- The string that `strlcpy` leaves in a buffer of a size. -/
def strlcpyInto (size : Nat) (s : List UInt8) : List UInt8 := s.take (size - 1)

def messageType (m : Image) : Nat := m.nat 2 2

/-- The two upper bits of the third half word. -/
def crd (m : Image) : Nat := m.nat 4 2 / 2 ^ 14

def returnCode (m : Image) : Nat := m.nat 6 2

/-! ## Transactions -/

/-- The request as it is sent: the netlink header and the message with `crd` set to `RMNET_NETLINK_MSG_COMMAND`. -/
def transactMessage (seq pid : UInt32) (request : Image) : List UInt8 :=
  leBytes 4 maxBufSize ++ leBytes 4 0 ++ leBytes 4 seq.toNat ++ leBytes 4 pid.toNat ++
    (request.write 4 (leBytes 2 (request.nat 4 2 % 2 ^ 14))).read 0 rmnetNlMsgSize

/-- `rmnetctl_transact`, for a handle and messages that are not `NULL`: the response, or the code it returns. -/
def rmnetctlTransact (request : Image) : RmM (Except Errno Image) := do
  match ← perform (.malloc maxBufSize) with
  | .error _ => return .error rmnetctlApiErrRequestNull
  | .ok _ =>
    match ← perform (.malloc maxBufSize) with
    | .error _ => return .error rmnetctlApiErrResponseNull
    | .ok _ =>
      let pid ← perform .pid
      let seq ← perform .transactionId
      match ← perform (.send (transactMessage seq pid request)) with
      | .error _ => return .error rmnetctlApiErrMessageSend
      | .ok _ =>
        match ← perform (.recvfrom maxBufSize) with
        | .error _ => return .error rmnetctlApiErrMessageReceive
        | .ok bytes =>
          let response := Image.ofBytes ((Image.ofBytes bytes).read 16 rmnetNlMsgSize)
          if messageType request ≠ messageType response then return .error rmnetctlApiErrMessageType
          else return .ok response

/-! ## Outcomes -/

/-- `_rmnetctl_set_codes`, with the error code assigned before. -/
def rmnetctlSetCodes (errorVal : Nat) (errorCode : Errno) : Outcome :=
  if errorVal = rmnetConfigOk then { rc := rmnetctlSuccess, errorCode := some errorCode }
  else { rc := rmnetctlKernelErr, errorCode := some (.ofNat errorVal + rmnetctlKernelFirstErr) }

/-- The outcome of a call that expects a return code: `_rmnetctl_check_code`, then `_rmnetctl_set_codes`. -/
def codeOutcome (response : Image) : Outcome :=
  if crd response ≠ rmnetNetlinkMsgReturncode then { rc := rmnetctlLibErr, errorCode := some rmnetctlApiErrReturnType }
  else rmnetctlSetCodes (returnCode response) rmnetctlApiSuccess

/-- The outcome of a call that expects data: without data the response may hold a return code, and the error code is that of
`_rmnetctl_check_data` by then. -/
def dataOutcome (read : Image → Outcome) (response : Image) : Outcome :=
  if crd response ≠ rmnetNetlinkMsgReturndata then
    if crd response = rmnetNetlinkMsgReturncode then rmnetctlSetCodes (returnCode response) rmnetctlApiErrReturnType
    else { rc := rmnetctlLibErr, errorCode := some rmnetctlApiErrReturnType }
  else read response

/-- Success with these output arguments assigned. -/
def success (outs : List Output) : Outcome :=
  { rc := rmnetctlSuccess, errorCode := some rmnetctlApiSuccess, outs := outs }

/-- A call with valid arguments: the request that it writes over what the local variable holds, and what it makes of the response
and of what lies behind it. -/
structure LegacyRequest where
  request : Image → Except Errno Image
  outcome : Image → CString → Outcome

/-- What the calls share. -/
def legacyCall : Option LegacyRequest → RmM Outcome
  | none => invalidArg
  | some r => do
    let stack ← perform .uninit
    match r.request stack with
    | .error errorCode => return { rc := rmnetctlLibErr, errorCode := some errorCode }
    | .ok request =>
      match ← rmnetctlTransact request with
      | .error errorCode => return { rc := rmnetctlLibErr, errorCode := some errorCode }
      | .ok response =>
        let behind ← perform .behindResponse
        return r.outcome response behind

/-! ## The calls -/

/-- The name, if the check of the pointers and of the other arguments and `_rmnetctl_check_dev_name` accept them. -/
def checked (p : Ptrs) (valid : Bool) (devName : Option CString) : Option CString :=
  if p.ok && valid && nameOk devName then devName else none

/-- `rmnet_associate_network_device` -/
def rmnetAssociateNetworkDevice (p : Ptrs) (devName : Option CString) (assocDev : UInt8) : Option LegacyRequest :=
  (checked p (assocDev == 1 || assocDev == 0) devName).map fun devName => {
    request := fun m =>
      let type := if assocDev = 1 then MessageType.associateNetworkDevice else .unassociateNetworkDevice
      copyName 8 devName (setType type 16 m)
    outcome := fun r _ => codeOutcome r }

/-- `rmnet_get_network_device_associated` -/
def rmnetGetNetworkDeviceAssociated (p : Ptrs) (devName : Option CString) (registerStatus : Bool) : Option LegacyRequest :=
  (checked p registerStatus devName).map fun devName => {
    request := fun m => copyName 8 devName (setType .getNetworkDeviceAssociated 16 m)
    outcome := fun r _ => dataOutcome (fun r => success [.registerStatus (returnCode r)]) r }

/-- `rmnet_set_link_egress_data_format`, with `EGRESS_FLAGS_MASK`. -/
def rmnetSetLinkEgressDataFormat (p : Ptrs) (egressFlags : UInt32) (aggSize aggCount : UInt16) (devName : Option CString) :
    Option LegacyRequest :=
  (checked p (egressFlags &&& ~~~0x3f == 0) devName).map fun devName => {
    request := fun m => do
      let m ← copyName 8 devName (setType .setLinkEgressDataFormat 24 m)
      return ((m.write 24 (leBytes 4 egressFlags.toNat)).write 28 (leBytes 2 aggSize.toNat)).write 30 (leBytes 2 aggCount.toNat)
    outcome := fun r _ => codeOutcome r }

/-- `rmnet_get_link_egress_data_format` -/
def rmnetGetLinkEgressDataFormat (p : Ptrs) (devName : Option CString) (egressFlags aggSize aggCount : Bool) :
    Option LegacyRequest :=
  (checked p (egressFlags && aggSize && aggCount) devName).map fun devName => {
    request := fun m => copyName 8 devName (setType .getLinkEgressDataFormat 16 m)
    outcome := fun r _ =>
      dataOutcome (fun r => success [.egressFlags (r.nat 24 4), .aggSize (r.nat 28 2), .aggCount (r.nat 30 2)]) r }

/-- `rmnet_set_link_ingress_data_format_tailspace`, with `INGRESS_FLAGS_MASK`. -/
def rmnetSetLinkIngressDataFormatTailspace (p : Ptrs) (ingressFlags : UInt32) (tailSpacing : UInt8)
    (devName : Option CString) : Option LegacyRequest :=
  (checked p (ingressFlags &&& ~~~0x7f == 0) devName).map fun devName => {
    request := fun m => do
      let m ← copyName 8 devName (setType .setLinkIngressDataFormat 24 m)
      return (m.write 24 (leBytes 4 ingressFlags.toNat)).write 32 [tailSpacing]
    outcome := fun r _ => codeOutcome r }

/-- `rmnet_get_link_ingress_data_format_tailspace`: the output arguments may be `NULL`. -/
def rmnetGetLinkIngressDataFormatTailspace (p : Ptrs) (devName : Option CString) (ingressFlags tailSpacing : Bool) :
    Option LegacyRequest :=
  (checked p true devName).map fun devName => {
    request := fun m => copyName 8 devName (setType .getLinkIngressDataFormat 16 m)
    outcome := fun r _ => dataOutcome (fun r => success
      ((if ingressFlags then [.ingressFlags (r.nat 24 4)] else []) ++
        if tailSpacing then [.tailSpacing (r.nat 32 1)] else [])) r }

/-- `ep_id` is not less than `-1` and not more than 31. -/
def epIdOk (epId : Int32) : Bool := decide (-1 ≤ epId.toInt ∧ epId.toInt ≤ 31)

/-- Set `local_ep_config.ep_id`. -/
def setEpId (epId : Int32) (m : Image) : Image := m.write 24 (leBytes 4 epId.toUInt32.toNat)

/-- `rmnet_set_logical_ep_config`: an operating mode is less than `RMNET_EPMODE_LENGTH`. -/
def rmnetSetLogicalEpConfig (p : Ptrs) (epId : Int32) (operatingMode : UInt8) (devName nextDev : Option CString) :
    Option LegacyRequest := do
  let devName ← checked p (epIdOk epId && operatingMode < 3) devName
  let nextDev ← checked p true nextDev
  return {
    request := fun m => do
      let m ← copyName 8 devName (setType .setLogicalEpConfig 37 m)
      let m ← copyName 29 nextDev m
      return (setEpId epId m).write 28 [operatingMode]
    outcome := fun r _ => codeOutcome r }

/-- `rmnet_unset_logical_ep_config` -/
def rmnetUnsetLogicalEpConfig (p : Ptrs) (epId : Int32) (devName : Option CString) : Option LegacyRequest :=
  (checked p (epIdOk epId) devName).map fun devName => {
    request := fun m => do
      let m ← copyName 8 devName (setType .unsetLogicalEpConfig 20 m)
      return setEpId epId m
    outcome := fun r _ => codeOutcome r }

/-- `rmnet_get_logical_ep_config`: the name is copied to the caller before its length is checked. -/
def rmnetGetLogicalEpConfig (p : Ptrs) (epId : Int32) (devName : Option CString) (operatingMode nextDev : Bool)
    (nextDevLen : UInt32) : Option LegacyRequest :=
  (checked p (operatingMode && epIdOk epId && nextDev && nextDevLen != 0) devName).map fun devName => {
    request := fun m => do
      let m ← copyName 8 devName (setType .getLogicalEpConfig 20 m)
      return setEpId epId m
    outcome := fun r behind => dataOutcome (fun r =>
      let name := stringAt r behind 29
      let copied := Output.nextDev (strlcpyInto (min rmnetMaxStrLen nextDevLen.toNat) name)
      if rmnetMaxStrLen < name.length then
        { rc := rmnetctlLibErr, errorCode := some rmnetctlApiErrStringTruncation, outs := [copied] }
      else success [copied, .operatingMode (r.nat 28 1)]) r }

/-- The request of the functions that create a virtual device: a name is cleared first, then copied if it is given. -/
def vndRequest (type : MessageType) (id : UInt32) (name : Option CString) (m : Image) : Except Errno Image := do
  let m := (setType type 4 m).clear 12 rmnetMaxStrLen
  let m ← match name with
    | some name => copyName 12 name m
    | none => pure m
  return m.write 8 (leBytes 4 id.toNat)

/-- `rmnet_new_vnd_prefix` -/
def rmnetNewVndPrefix (p : Ptrs) (id : UInt32) (newVnd : UInt8) (pref : Option CString) : Option LegacyRequest :=
  if p.ok && (newVnd == 1 || newVnd == 0) then some {
    request :=
      if newVnd = 1 then vndRequest (if pref.isSome then .newVndWithPrefix else .newVnd) id pref
      else vndRequest .freeVnd id none
    outcome := fun r _ => codeOutcome r }
  else none

/-- `rmnet_new_vnd_name` -/
def rmnetNewVndName (p : Ptrs) (id : UInt32) (pref : Option CString) : Option LegacyRequest :=
  if p.ok then some {
    request := vndRequest (if pref.isSome then .newVndWithName else .newVnd) id pref
    outcome := fun r _ => codeOutcome r }
  else none

/-- `rmnet_new_vnd` -/
def rmnetNewVnd (p : Ptrs) (id : UInt32) (newVnd : UInt8) : Option LegacyRequest := rmnetNewVndPrefix p id newVnd none

/-- `rmnet_get_vnd_name`: the name is copied to the caller before its length is checked. -/
def rmnetGetVndName (p : Ptrs) (id : UInt32) (buf : Bool) (buflen : UInt32) : Option LegacyRequest :=
  if p.ok && buf && buflen != 0 then some {
    request := fun m => .ok ((setType .getVndName 4 m).write 8 (leBytes 4 id.toNat))
    outcome := fun r behind => dataOutcome (fun r =>
      let name := stringAt r behind 12
      let copied := Output.buf (strlcpyInto buflen.toNat name)
      if buflen.toNat ≤ name.length then
        { rc := rmnetctlLibErr, errorCode := some rmnetctlApiErrStringTruncation, outs := [copied] }
      else success [copied]) r }
  else none

/-- `rmnet_add_del_vnd_tc_flow` -/
def rmnetAddDelVndTcFlow (p : Ptrs) (id mapFlowId tcFlowId : UInt32) (setFlow : UInt8) : Option LegacyRequest :=
  if p.ok && (setFlow == 1 || setFlow == 0) then some {
    request := fun m =>
      let m := setType (if setFlow = 1 then .addVndTcFlow else .delVndTcFlow) 12 m
      .ok (((m.write 8 (leBytes 4 id.toNat)).write 12 (leBytes 4 mapFlowId.toNat)).write 16 (leBytes 4 tcFlowId.toNat))
    outcome := fun r _ => codeOutcome r }
  else none

end Pixel845.Rmnet
