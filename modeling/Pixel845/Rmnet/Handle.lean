import Pixel845.Lib.Exchange
import Pixel845.Lib.Machine
import Pixel845.Rmnet.Legacy

/-!
# Calls on one handle

All calls on a handle share its socket. The kernel answers every request once, in order, with its `nlmsg_seq`; the handle's side
of this is an `Exchange`, and a call is served by `hndlMachine`, in which any `send`, `recv`, `recvfrom` or `malloc` may fail. A
receive that fails takes no datagram, and one that finds none blocks.
-/

namespace Pixel845.Rmnet

/-! ## The calls as requests -/

/-- A legacy call with its arguments. Of an output argument it is given whether it is not `NULL`. -/
inductive LegacyCall where
  | associateNetworkDevice (devName : Option CString) (assocDev : UInt8)
  | getNetworkDeviceAssociated (devName : Option CString) (registerStatus : Bool)
  | setLinkEgressDataFormat (egressFlags : UInt32) (aggSize aggCount : UInt16) (devName : Option CString)
  | getLinkEgressDataFormat (devName : Option CString) (egressFlags aggSize aggCount : Bool)
  | setLinkIngressDataFormatTailspace (ingressFlags : UInt32) (tailSpacing : UInt8) (devName : Option CString)
  | getLinkIngressDataFormatTailspace (devName : Option CString) (ingressFlags tailSpacing : Bool)
  | setLogicalEpConfig (epId : Int32) (operatingMode : UInt8) (devName nextDev : Option CString)
  | unsetLogicalEpConfig (epId : Int32) (devName : Option CString)
  | getLogicalEpConfig (epId : Int32) (devName : Option CString) (operatingMode nextDev : Bool) (nextDevLen : UInt32)
  | newVnd (id : UInt32) (newVnd : UInt8)
  | newVndPrefix (id : UInt32) (newVnd : UInt8) (pref : Option CString)
  | newVndName (id : UInt32) (pref : Option CString)
  | getVndName (id : UInt32) (buf : Bool) (buflen : UInt32)
  | addDelVndTcFlow (id mapFlowId tcFlowId : UInt32) (setFlow : UInt8)

/-- The function of a call. -/
def LegacyCall.call (p : Ptrs) : LegacyCall → Option LegacyRequest
  | .associateNetworkDevice devName assocDev => rmnetAssociateNetworkDevice p devName assocDev
  | .getNetworkDeviceAssociated devName registerStatus => rmnetGetNetworkDeviceAssociated p devName registerStatus
  | .setLinkEgressDataFormat egressFlags aggSize aggCount devName =>
    rmnetSetLinkEgressDataFormat p egressFlags aggSize aggCount devName
  | .getLinkEgressDataFormat devName egressFlags aggSize aggCount =>
    rmnetGetLinkEgressDataFormat p devName egressFlags aggSize aggCount
  | .setLinkIngressDataFormatTailspace ingressFlags tailSpacing devName =>
    rmnetSetLinkIngressDataFormatTailspace p ingressFlags tailSpacing devName
  | .getLinkIngressDataFormatTailspace devName ingressFlags tailSpacing =>
    rmnetGetLinkIngressDataFormatTailspace p devName ingressFlags tailSpacing
  | .setLogicalEpConfig epId operatingMode devName nextDev => rmnetSetLogicalEpConfig p epId operatingMode devName nextDev
  | .unsetLogicalEpConfig epId devName => rmnetUnsetLogicalEpConfig p epId devName
  | .getLogicalEpConfig epId devName operatingMode nextDev nextDevLen =>
    rmnetGetLogicalEpConfig p epId devName operatingMode nextDev nextDevLen
  | .newVnd id new => rmnetNewVnd p id new
  | .newVndPrefix id new pref => rmnetNewVndPrefix p id new pref
  | .newVndName id pref => rmnetNewVndName p id pref
  | .getVndName id buf buflen => rmnetGetVndName p id buf buflen
  | .addDelVndTcFlow id mapFlowId tcFlowId setFlow => rmnetAddDelVndTcFlow p id mapFlowId tcFlowId setFlow

/-- A call of the library, with the pointers it is given. -/
inductive Call where
  | rtm (p : Ptrs) (q : RtmCall)
  | legacy (p : Ptrs) (q : LegacyCall)

/-- The function of a call. -/
def Call.body : Call → RmM Outcome
  | .rtm p q => q.body p
  | .legacy p q => legacyCall (q.call p)

/-! ## The socket -/

/-- `nlmsg_seq` of a message. -/
def seqOf (msg : List UInt8) : Nat := (Image.ofBytes msg).nat 8 4

/-- The reply of the kernel to a request: a message with the same `nlmsg_seq`. -/
def Echoes (msg reply : List UInt8) : Prop := 16 ≤ reply.length ∧ seqOf reply = seqOf msg

instance (msg reply : List UInt8) : Decidable (Echoes msg reply) := inferInstanceAs (Decidable (_ ∧ _))

/-- The socket of a handle: the requests that were sent, the replies that the kernel has given, and how many were taken. -/
abbrev Socket : Type := Exchange (List UInt8) (List UInt8) Echoes

/-- A `struct rmnetctl_hndl_s`, and the buffer that `recv` has filled last. -/
structure Hndl where
  transactionId : UInt32
  pid : UInt32
  socket : Socket
  buf : Image

/-- A handle that was just opened. `transaction_id` may start anywhere. -/
def Hndl.opened (transactionId pid : UInt32) (buf : Image) : Hndl := ⟨transactionId, pid, .empty, buf⟩

/-- What the world decides about an operation: the error it fails with, if it fails, what lies in memory that was not written, the
string that lies behind a response, and the answer of `if_nametoindex`. -/
structure Choice where
  fails : Option Errno := none
  memory : Image := Image.zero
  behindResponse : CString := .empty
  index : UInt32 × Errno := (7, 0)

/-- The answer of a system call that may fail. -/
def Choice.orElse {α : Type} (c : Choice) (h : Hndl) (succeed : Option (α × Hndl)) : Option (Except Errno α × Hndl) :=
  match c.fails with
  | some errno => some (.error errno, h)
  | none => succeed.map (fun x => (.ok x.1, x.2))

/-- What an operation does to the handle. -/
def hndlExec : (o : Op) → Choice → Hndl → Option (o.Res × Hndl)
  | .uninit, c, h => some (c.memory, h)
  | .transactionId, _, h => some (h.transactionId, { h with transactionId := h.transactionId + 1 })
  | .pid, _, h => some (h.pid, h)
  | .ifNametoindex _, c, h => some (c.index, h)
  | .malloc _, c, h => c.orElse h (some ((), h))
  | .send msg, c, h => c.orElse h (some ((), { h with socket := h.socket.send msg }))
  | .peek, c, h => c.orElse h (h.socket.queue.head?.map fun r => (r.length, h))
  | .recv cap, c, h => c.orElse h (h.socket.receive.map fun x =>
      (min cap x.1.length, { h with socket := x.2, buf := c.memory.write 0 (x.1.take cap) }))
  | .recvfrom cap, c, h => c.orElse h (h.socket.receive.map fun x => (x.1.take cap, { h with socket := x.2 }))
  | .load l, _, h => some (h.buf.load l, h)
  | .behindResponse, c, h => some (c.behindResponse, h)

/-- A handle with the calls on it. The environment is the kernel: it gives the next reply. -/
def hndlMachine : Machine Op Op.Res Hndl Choice (List UInt8) where
  exec := hndlExec
  env := fun reply h => if ha : h.socket.Awaits reply then some { h with socket := h.socket.answer reply ha } else none

/-! ## Verdicts -/

/-- The call reports a verdict of the kernel: `RMNETCTL_SUCCESS` or `RMNETCTL_KERNEL_ERR`. -/
def Verdict (x : Outcome) : Prop := x.rc = rmnetctlSuccess ∨ x.rc = rmnetctlKernelErr

instance (x : Outcome) : Decidable (Verdict x) := inferInstanceAs (Decidable (_ ∨ _))

/-- The size of the buffer into which an RTM call receives a reply: that of `rmnet_get_ack`, or the length which
`rtrmnet_ctl_getvnd` has peeked before. -/
def RtmCall.room (reply : List UInt8) : RtmCall → Nat
  | .getvnd .. => reply.length
  | _ => 292

/-- The outcome is what the call makes of a reply. An RTM call reads it in its buffer, with whatever lies behind the bytes that
were received; a legacy call takes the message behind the netlink header, with whatever string lies behind it. -/
def Call.Makes (reply : List UInt8) (x : Outcome) : Call → Prop
  | .rtm _ q => ∃ memory : Image, x = q.read.run (memory.write 0 (reply.take (q.room reply))).load
  | .legacy p q => ∃ r behind, q.call p = some r ∧
      x = r.outcome (Image.ofBytes ((Image.ofBytes (reply.take maxBufSize)).read 16 rmnetNlMsgSize)) behind

end Pixel845.Rmnet
