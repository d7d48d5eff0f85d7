import Pixel845.Lib.Attr

/-!
# Link messages

The part of `librmnetctl.c` that builds the message of an RTM call in its `struct nlmsg`: a netlink header, an `ifinfomsg` and 500
bytes for attributes, 532 bytes in all. The message is memory from `&req` on, and everything the attribute builder stores goes
through `Req.store`, which keeps a log of it. Integers are stored in the width of their fields, lengths wrap where C wraps them,
and a pointer to data is memory from that pointer on, or `none` for `NULL`.
-/

namespace Pixel845.Rmnet

/-! ## Codes -/

def rmnetctlSuccess : Int := 0
def rmnetctlLibErr : Int := 1
def rmnetctlKernelErr : Int := 2
def rmnetctlInvalidArg : Int := 3

/-- `RMNET_MAX_STR_LEN` -/
def rmnetMaxStrLen : Nat := 16

/-- `IFLA_IFNAME` -/
def iflaIfname : Nat := 3
/-- `IFLA_LINK` -/
def iflaLink : Nat := 5
/-- `IFLA_MASTER` -/
def iflaMaster : Nat := 10
/-- `IFLA_LINKINFO` -/
def iflaLinkinfo : Nat := 18
/-- `IFLA_INFO_KIND` -/
def iflaInfoKind : Nat := 1
/-- `IFLA_INFO_DATA` -/
def iflaInfoData : Nat := 2
/-- `RMNET_IFLA_NUM_TX_QUEUES` -/
def rmnetIflaNumTxQueues : Nat := 31
/-- `RMNETCTL_NUM_TX_QUEUES` -/
def rmnetctlNumTxQueues : UInt32 := 10

/-- `RMNETCTL_IFLA_MUX_ID` -/
def rmnetctlIflaMuxId : Nat := 1
/-- `RMNETCTL_IFLA_FLAGS` -/
def rmnetctlIflaFlags : Nat := 2
/-- `RMNETCTL_IFLA_DFC_QOS` -/
def rmnetctlIflaDfcQos : Nat := 3
/-- `RMNETCTL_IFLA_UPLINK_PARAMS` -/
def rmnetctlIflaUplinkParams : Nat := 4
/-- `__RMNETCTL_IFLA_MAX`, the number of entries of an attribute table. -/
def rmnetctlIflaMax : Nat := 5

/-- `RTM_NEWLINK` -/
def rtmNewlink : Nat := 16
/-- `RTM_DELLINK` -/
def rtmDellink : Nat := 17
/-- `RTM_GETLINK` -/
def rtmGetlink : Nat := 18

/-- `NLM_F_REQUEST` -/
def nlmFRequest : Nat := 0x1
/-- `NLM_F_REQUEST | NLM_F_ACK` -/
def nlmFRequestAck : Nat := 0x5
/-- `NLM_F_REQUEST | NLM_F_CREATE | NLM_F_EXCL | NLM_F_ACK` -/
def nlmFRequestCreate : Nat := 0x605

/-! ## Strings -/

/-- A C string: the bytes before its terminator. -/
structure CString where
  bytes : List UInt8
  noNul : 0 ∉ bytes
deriving DecidableEq

namespace CString

def strlen (s : CString) : Nat := s.bytes.length

/-- The string with no bytes. -/
def empty : CString := ⟨[], List.not_mem_nil⟩

/-- The string in memory, with its terminator. -/
def mem (s : CString) : Image := Image.ofBytes (s.bytes ++ [0])

/-- The kind of the links, `"rmnet"`. -/
def rmnet : CString := ⟨[0x72, 0x6d, 0x6e, 0x65, 0x74], by decide⟩

end CString

/-- `_rmnetctl_check_dev_name` -/
def rmnetctlCheckDevName : Option CString → Int
  | none => rmnetctlInvalidArg
  | some devName => if rmnetMaxStrLen ≤ devName.strlen then rmnetctlInvalidArg else rmnetctlSuccess

/-! ## The message under construction -/

/-- `sizeof(struct nlmsg)` -/
def nlmsgSize : Nat := 532

/-- `NLMSG_LENGTH(sizeof(struct ifinfomsg))`, the offset of the first attribute. -/
def nlmsgHeaders : Nat := 32

/-- A message and the space its builder counts as left: `req` and `reqsize`. -/
structure Req where
  mem : Image
  reqsize : Nat
  /-- What was stored into the message, and where. -/
  stores : List (Nat × List UInt8)

namespace Req

/-- Store bytes at an offset from `&req`. -/
def store (req : Req) (off : Nat) (bs : List UInt8) : Req :=
  { req with mem := req.mem.write off bs, stores := req.stores ++ [(off, bs)] }

/-- `req->nl_addr.nlmsg_len` -/
def nlmsgLen (req : Req) : Nat := req.mem.nat 0 4

/-- `NLMSG_TAIL(&req->nl_addr)` as an offset. The length is an `unsigned int`, and so is the aligned length. -/
def tail (req : Req) : Nat := align4 req.nlmsgLen % 2 ^ 32

/-- The `nlmsg_len` bytes at `&req`. -/
def message (req : Req) : List UInt8 := req.mem.read 0 req.nlmsgLen

end Req

/-- The message as the RTM calls start it in a place on the stack: cleared, then the type, the length of the headers, the flags
and the sequence number; `reqsize` is `NLMSG_DATA_SIZE - sizeof(struct rtattr)`. -/
def initReq (stack : Image) (type flags : Nat) (seq : UInt32) : Req where
  mem := ((((stack.clear 0 nlmsgSize).write 4 (leBytes 2 type)).write 0 (leBytes 4 nlmsgHeaders)).write 6
    (leBytes 2 flags)).write 8 (leBytes 4 seq.toNat)
  reqsize := 496
  stores := []

/-- `req.ifmsg.ifi_index = devindex` -/
def Req.setIfiIndex (req : Req) (devindex : UInt32) : Req := req.store 20 (leBytes 4 devindex.toNat)

/-! ## Attributes -/

/-- A length as a `size_t`. -/
def toSizeT (len : Int32) : Nat := (len.toInt % 2 ^ 64).toNat

/-- `memscpy_repeat`: copy to an offset of the message if less than `*dst_size` bytes are to be copied. The error it returns is
`RMNETCTL_LIB_ERR`, which is positive. -/
def memscpyRepeat (dst : Nat) (src : Option Image) (srcSize : Nat) (req : Req) : Int × Req :=
  match src with
  | none => (rmnetctlLibErr, req)
  | some src =>
    if req.reqsize ≤ srcSize then (rmnetctlLibErr, req)
    else
      let req := { req.store dst (src.read 0 srcSize) with reqsize := req.reqsize - srcSize }
      (req.reqsize, req)

/-- `rta_put` -/
def rtaPut (type len : Int32) (data : Option Image) (req : Req) : Int × Req :=
  let attr := req.tail
  let req := req.store (attr + 2) (leBytes 2 (type.toInt % 2 ^ 16).toNat)
  let req := req.store attr (leBytes 2 ((4 + len.toInt) % 2 ^ 16).toNat)
  let (left, req) := memscpyRepeat (attr + 4) data (toSizeT len) req
  -- `CHECK_MEMSCPY` takes only a negative value for an error.
  if left < 0 then (rmnetctlLibErr, req)
  else (rmnetctlSuccess, req.store 0 (leBytes 4 (req.tail + align4 (req.mem.nat attr 2))))

/-- `rta_put_u16` -/
def rtaPutU16 (type : Int32) (data : UInt16) : Req → Int × Req := rtaPut type 2 (some (Image.ofBytes (leBytes 2 data.toNat)))

/-- `rta_put_u32` -/
def rtaPutU32 (type : Int32) (data : UInt32) : Req → Int × Req := rtaPut type 4 (some (Image.ofBytes (leBytes 4 data.toNat)))

/-- `rta_put_string`: the length with the terminator is passed as an `int`. -/
def rtaPutString (type : Int32) (data : CString) : Req → Int × Req :=
  rtaPut type (Int32.ofNat (data.strlen + 1)) (some data.mem)

/-- `rta_nested_start`, less the pointer it hands out, which is the tail of the message before the call. -/
def rtaNestedStart (type : Int32) : Req → Int × Req := rtaPut type 0 none

/-- `rta_nested_end`, for a start given by its offset. -/
def rtaNestedEnd (start : Nat) (req : Req) : Req := req.store start (leBytes 2 (req.tail - start))

/-! ## Filling a message -/

/-- A part of a function that fills the message: it goes on until a call returns something other than `RMNETCTL_SUCCESS`, which
the function then returns itself. -/
abbrev Fill (α : Type) : Type := ExceptT Int (StateM Req) α

/-- `rc = …; if (rc != RMNETCTL_SUCCESS) return rc;` -/
def Fill.put (call : Req → Int × Req) : Fill Unit := fun req =>
  let (rc, req) := call req
  (if rc ≠ rmnetctlSuccess then .error rc else .ok (), req)

/-- Start a nested attribute and keep the pointer to it. -/
def Fill.nestedStart (type : Int32) : Fill Nat := do
  let start := (← get).tail
  Fill.put (rtaNestedStart type)
  return start

/-- End a nested attribute. -/
def Fill.nestedEnd (start : Nat) : Fill Unit := modify (rtaNestedEnd start)

/-- `struct ifla_vlan_flags` with its two fields. -/
def iflaVlanFlags (flags mask : UInt32) : List UInt8 := leBytes 4 flags.toNat ++ leBytes 4 mask.toNat

/-- `rmnet_fill_newlink_msg` -/
def rmnetFillNewlinkMsg (devindex : UInt32) (vndname : CString) (index : UInt8) (flagconfig : UInt32) : Fill Unit := do
  Fill.put (rtaPutU32 (.ofNat iflaLink) devindex)
  Fill.put (rtaPutString (.ofNat iflaIfname) vndname)
  let linkinfo ← Fill.nestedStart (.ofNat iflaLinkinfo)
  Fill.put (rtaPutString (.ofNat iflaInfoKind) .rmnet)
  let datainfo ← Fill.nestedStart (.ofNat iflaInfoData)
  Fill.put (rtaPutU16 (.ofNat rmnetctlIflaMuxId) index.toUInt16)
  if flagconfig ≠ 0 then
    Fill.put (rtaPut (.ofNat rmnetctlIflaFlags) 8 (some (Image.ofBytes (iflaVlanFlags flagconfig flagconfig))))
  Fill.nestedEnd datainfo
  Fill.nestedEnd linkinfo

/-- `struct tcmsg`, cleared but for the fields that are set. -/
structure Tcmsg where
  tcmFamily : UInt8 := 0
  tcmPad1 : UInt8 := 0
  tcmPad2 : UInt16 := 0
  tcmIfindex : UInt32 := 0
  tcmHandle : UInt32 := 0
  tcmParent : UInt32 := 0
  tcmInfo : UInt32 := 0

/-- The 20 bytes of a `struct tcmsg`. -/
def Tcmsg.bytes (t : Tcmsg) : List UInt8 :=
  [t.tcmFamily, t.tcmPad1] ++ leBytes 2 t.tcmPad2.toNat ++ leBytes 4 t.tcmIfindex.toNat ++ leBytes 4 t.tcmHandle.toNat ++
    leBytes 4 t.tcmParent.toNat ++ leBytes 4 t.tcmInfo.toNat

/-- The attributes around the parameters of a link: `IFLA_LINK`, `IFLA_IFNAME` and, in `IFLA_LINKINFO`, the kind and the
parameters as one attribute of `IFLA_INFO_DATA`. -/
def fillLinkParams (devindex : UInt32) (vndname : CString) (type : Nat) (params : List UInt8) : Fill Unit := do
  Fill.put (rtaPutU32 (.ofNat iflaLink) devindex)
  Fill.put (rtaPutString (.ofNat iflaIfname) vndname)
  let linkinfo ← Fill.nestedStart (.ofNat iflaLinkinfo)
  Fill.put (rtaPutString (.ofNat iflaInfoKind) .rmnet)
  let datainfo ← Fill.nestedStart (.ofNat iflaInfoData)
  Fill.put (rtaPut (.ofNat type) (.ofNat params.length) (some (Image.ofBytes params)))
  Fill.nestedEnd datainfo
  Fill.nestedEnd linkinfo

/-- `rmnet_fill_flow_msg` -/
def rmnetFillFlowMsg (devindex : UInt32) (vndname : CString) (flowinfo : Tcmsg) : Fill Unit :=
  fillLinkParams devindex vndname rmnetctlIflaDfcQos flowinfo.bytes

/-- `struct rmnetctl_uplink_params`, as built with the uplink features. -/
structure UplinkParams where
  byteCount : UInt16
  packetCount : UInt8
  features : UInt8
  timeLimit : UInt32

/-- The 8 bytes of a `struct rmnetctl_uplink_params`. -/
def UplinkParams.bytes (p : UplinkParams) : List UInt8 :=
  leBytes 2 p.byteCount.toNat ++ [p.packetCount, p.features] ++ leBytes 4 p.timeLimit.toNat

end Pixel845.Rmnet
