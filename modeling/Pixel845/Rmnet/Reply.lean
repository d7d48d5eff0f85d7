import Pixel845.Rmnet.Message

/-!
# Replies

The operations of the calls of `librmnetctl.c`, and the functions that receive a reply and read it. A reply is received into a
buffer and read from there: every read of the buffer is an operation of its own (`Op.load`), so that its place can be compared
with what was received. `rmnetctl_transact` clears its buffer first, so that the bytes received say all (`Op.recvfrom`).

`errno` is kept as it is stored, in an `uint16_t`. The checks of `hndl` and `error_code` in `rmnet_get_ack` are left out: its
callers have made them.
-/

namespace Pixel845.Rmnet

/-- An error number, or an error code of the library. -/
abbrev Errno : Type := UInt16

def rmnetctlApiSuccess : Errno := 0
def rmnetctlApiFirstErr : Errno := 1
def rmnetctlApiErrMessageSend : Errno := 3
def rmnetctlApiErrMessageReceive : Errno := 4
def rmnetctlApiErrRequestNull : Errno := 10
def rmnetctlApiErrResponseNull : Errno := 11
def rmnetctlApiErrMessageType : Errno := 12
def rmnetctlApiErrReturnType : Errno := 13
def rmnetctlApiErrStringTruncation : Errno := 14
def rmnetctlKernelFirstErr : Errno := 15
def rmnetctlApiErrRtaFailure : Errno := 25

/-- `NLMSG_ERROR` -/
def nlmsgError : Nat := 2

/-- `NLA_TYPE_MASK` -/
def nlaTypeMask : Nat := 0x3fff

/-! ## Operations -/

/-- The operations of the calls. -/
inductive Op where
  /-- What a local variable holds before it is written. -/
  | uninit
  /-- `hndl->transaction_id++` -/
  | transactionId
  /-- `hndl->pid` -/
  | pid
  | ifNametoindex (name : CString)
  | malloc (size : Nat)
  /-- `send` and `sendto` on the socket of the handle. -/
  | send (msg : List UInt8)
  /-- `recv(hndl->netlink_fd, NULL, 0, MSG_PEEK | MSG_TRUNC)` -/
  | peek
  /-- `recv` into a buffer of `cap` bytes. -/
  | recv (cap : Nat)
  /-- `recvfrom` into a cleared buffer of `cap` bytes. -/
  | recvfrom (cap : Nat)
  /-- A read of the buffer that `recv` has filled. -/
  | load (l : Load)
  /-- What lies on the stack behind a local `response`, to the next `NUL`. -/
  | behindResponse
deriving DecidableEq

/-- What an operation answers: a system call what it returns or `errno`, `if_nametoindex` the index and `errno`. -/
@[reducible] def Op.Res : Op → Type
  | .uninit => Image
  | .transactionId | .pid => UInt32
  | .ifNametoindex _ => UInt32 × Errno
  | .malloc _ | .send _ => Except Errno Unit
  | .peek | .recv _ => Except Errno Nat
  | .recvfrom _ => Except Errno (List UInt8)
  | .load _ => Nat
  | .behindResponse => CString

/-- The bytes that an operation sends. -/
def Op.sent? : Op → Option (List UInt8)
  | .send msg => some msg
  | _ => none

/-- A call of the library, or a part of one. -/
abbrev RmM (α : Type) : Type := Prog Op Op.Res α

/-- The operations of an execution, with their answers. -/
abbrev Events : Type := List (Prog.Event Op.Res)

/-- What is sent in an execution. -/
def sent (t : Events) : List (List UInt8) := t.filterMap fun e => e.1.sent?

/-- The bytes that `recvfrom` has answered an operation with. -/
def received? : Prog.Event Op.Res → Option (List UInt8)
  | ⟨.recvfrom _, .ok bytes⟩ => some bytes
  | _ => none

/-- What is received by `recvfrom` in an execution. -/
def received (t : Events) : List (List UInt8) := t.filterMap received?

@[simp] theorem sent_nil : sent [] = [] := rfl

@[simp] theorem sent_cons (o : Op) (r : o.Res) (t : Events) : sent (⟨o, r⟩ :: t) = (Op.sent? o).toList ++ sent t := by
  cases o <;> rfl

@[simp] theorem sent_append (t t' : Events) : sent (t ++ t') = sent t ++ sent t' := List.filterMap_append

@[simp] theorem received_nil : received [] = [] := rfl

@[simp] theorem received_cons (e : Prog.Event Op.Res) (t : Events) : received (e :: t) = (received? e).toList ++ received t := by
  unfold received
  rw [List.filterMap_cons]
  cases received? e <;> rfl

@[simp] theorem received_append (t t' : Events) : received (t ++ t') = received t ++ received t' := List.filterMap_append

/-- Perform one operation. -/
abbrev perform (o : Op) : RmM o.Res := Prog.call o

/-- Read the buffer. -/
def fromBuffer {α : Type} (p : Reader α) : RmM α := p.lift Op.load (fun _ v => v)

/-- Surroundings in which everything succeeds: what an uninitialised variable holds, the numbers in the handle, the indices of the
interfaces, the bytes received as the reply and the memory behind them, and the string behind a local response. -/
structure Surroundings where
  stack : Image
  transactionId : UInt32
  pid : UInt32
  index : CString → UInt32 × Errno
  reply : List UInt8
  behind : Image
  behindResponse : CString

/-- The answers of such surroundings. What a shorter buffer cuts off a reply is left in it here: no call reads so far. -/
def Surroundings.answer (e : Surroundings) : (o : Op) → o.Res
  | .uninit => e.stack
  | .transactionId => e.transactionId
  | .pid => e.pid
  | .ifNametoindex name => e.index name
  | .malloc _ | .send _ => .ok ()
  | .peek => .ok e.reply.length
  | .recv cap => .ok (min cap e.reply.length)
  | .recvfrom cap => .ok (e.reply.take cap)
  | .load l => (e.behind.write 0 e.reply).load l
  | .behindResponse => e.behindResponse

/-! ## Outcomes -/

/-- An assignment to an output argument of a call. -/
inductive Output where
  | muxId (v : Nat)
  | flagconfig (v : Nat)
  | aggCount (v : Nat)
  | aggSize (v : Nat)
  | aggTime (v : Nat)
  | features (v : Nat)
  | registerStatus (v : Nat)
  | egressFlags (v : Nat)
  | ingressFlags (v : Nat)
  | tailSpacing (v : Nat)
  | operatingMode (v : Nat)
  | nextDev (s : List UInt8)
  | buf (s : List UInt8)
deriving DecidableEq

/-- How a call ends: its return value, the value of `*error_code` if it was assigned, and the output arguments assigned. -/
structure Outcome where
  rc : Int
  errorCode : Option Errno := none
  outs : List Output := []
deriving DecidableEq

/-! ## Attributes of a reply -/

/-- `rta_find`, for an attribute given by its offset. -/
def rtaFind (rta : Nat) (attrlen : Int) (type : Nat) : Reader (Option Nat) :=
  rtaLoop (fun t => t == type &&& nlaTypeMask) (fun rta t found => if t = type &&& nlaTypeMask then some rta else found)
    rta attrlen none

/-- The table of `rta_parse`: what is in its entries, and the indices that were written, in order. -/
structure Table where
  entries : Nat → Option Nat
  written : List Nat

/-- The table behind the `memset`. -/
def Table.cleared : Table := ⟨fun _ => none, []⟩

/-- `tb[type] = rta` -/
def Table.set (tb : Table) (type rta : Nat) : Table := ⟨Function.update tb.entries type (some rta), tb.written ++ [type]⟩

@[simp] theorem Table.set_entries (tb : Table) (type rta : Nat) :
    (tb.set type rta).entries = Function.update tb.entries type (some rta) := rfl
@[simp] theorem Table.set_written (tb : Table) (type rta : Nat) : (tb.set type rta).written = tb.written ++ [type] := rfl

/-- `rta_parse`: the table has `maxtype` entries, and a type of `maxtype` is still taken in. -/
def rtaParse (maxtype head : Nat) (len : Int) : Reader Table :=
  rtaLoop (fun _ => false)
    (fun rta t tb =>
      let type := t &&& nlaTypeMask
      if 0 < type ∧ type ≤ maxtype then tb.set type rta else tb)
    head len .cleared

/-! ## Acknowledgements -/

/-- What `rmnet_get_ack` makes of the message it has received. -/
def readAck : Reader Outcome := do
  let nlmsgType ← rd 4 2
  if nlmsgType = nlmsgError then
    let error ← rd 16 4
    if error = 0 then
      return { rc := rmnetctlSuccess, errorCode := some rmnetctlApiSuccess }
    else
      return { rc := rmnetctlKernelErr, errorCode := some (.ofNat (2 ^ 32 - error)) }
  else
    return { rc := rmnetctlApiFirstErr.toNat, errorCode := some rmnetctlApiErrReturnType }

/-- `rmnet_get_ack`. The buffer is a netlink header, a `struct nlmsgerr` and 256 bytes. -/
def rmnetGetAck : RmM Outcome := do
  match ← perform (.recv 292) with
  | .error errno => return { rc := rmnetctlApiErrMessageReceive.toNat, errorCode := some errno }
  | .ok _ => fromBuffer readAck

/-! ## Links -/

/-- `NLMSG_PAYLOAD(resp, sizeof(req.ifmsg))` as the `int` it is passed as. -/
def nlmsgPayload (nlmsgLen : Nat) : Int := ((nlmsgLen : Int) - nlmsgHeaders).bmod (2 ^ 32)

/-- The attributes of the link in a reply, as `rtrmnet_ctl_getvnd` finds them: the table of the payload of `IFLA_INFO_DATA` in
`IFLA_LINKINFO`. -/
def readLinkTable : Reader (Option Table) := do
  let nlmsgLen ← rd 0 4
  match ← rtaFind nlmsgHeaders (nlmsgPayload nlmsgLen) iflaLinkinfo with
  | none => return none
  | some linkinfo =>
    let linkinfoLen ← rd linkinfo 2
    match ← rtaFind (linkinfo + 4) (linkinfoLen - 4) iflaInfoData with
    | none => return none
    | some datainfo =>
      let datainfoLen ← rd datainfo 2
      let tb ← rtaParse rmnetctlIflaMax (datainfo + 4) (datainfoLen - 4)
      return some tb

/-- A field of an attribute that is assigned to an output argument: the type of the attribute, the offset of the field in its
payload, its width and the argument. -/
structure Field where
  type : Nat
  off : Nat
  width : Nat
  out : Nat → Output

/-- The output arguments of `rtrmnet_ctl_getvnd` that are not `NULL`. -/
structure GetvndOuts where
  muxId : Bool
  flagconfig : Bool
  aggCount : Bool
  aggSize : Bool
  aggTime : Bool
  features : Bool

/-- The fields that `rtrmnet_ctl_getvnd` reads, in order: the MUX ID, `flags` of `struct ifla_vlan_flags`, and the fields of
`struct rmnetctl_uplink_params`. -/
def GetvndOuts.fields (o : GetvndOuts) : List Field :=
  (if o.muxId then [⟨rmnetctlIflaMuxId, 0, 2, .muxId⟩] else []) ++
  (if o.flagconfig then [⟨rmnetctlIflaFlags, 0, 4, .flagconfig⟩] else []) ++
  (if o.aggSize then [⟨rmnetctlIflaUplinkParams, 0, 2, .aggSize⟩] else []) ++
  (if o.aggCount then [⟨rmnetctlIflaUplinkParams, 2, 1, .aggCount⟩] else []) ++
  (if o.features then [⟨rmnetctlIflaUplinkParams, 3, 1, .features⟩] else []) ++
  (if o.aggTime then [⟨rmnetctlIflaUplinkParams, 4, 4, .aggTime⟩] else [])

/-- Assign the fields whose attributes are in the table. -/
def readFields (tb : Table) : List Field → Reader (List Output)
  | [] => return []
  | f :: fs => do
    match tb.entries f.type with
    | none => readFields tb fs
    | some attr =>
      let v ← rd (attr + 4 + f.off) f.width
      let outs ← readFields tb fs
      return f.out v :: outs

/-- What `rtrmnet_ctl_getvnd` makes of the message it has received. -/
def readLink (o : GetvndOuts) : Reader Outcome := do
  match ← readLinkTable with
  | none => return { rc := rmnetctlKernelErr, errorCode := some rmnetctlApiErrRtaFailure }
  | some tb =>
    let outs ← readFields tb o.fields
    return { rc := rmnetctlApiSuccess.toNat, outs := outs }

end Pixel845.Rmnet
