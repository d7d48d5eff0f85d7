import Pixel845.Lib.Numeral
import Pixel845.Rmnet.Handle

/-!
# The command line

`rmnet_api_call` of `rmnetcli.c`. It reads a word, opens a handle, checks some of the arguments of the command, converts the
numbers among them and makes one call of the library. The branches for the commands differ in these four things
(`CliCommand.checks`, `CliCommand.uses`, `CliCommand.call`), and `runCommand` is what they share. The CLI is built with
`NO_UPLINK_FEATURES`: it gives no features. What is printed about the result of a getter is left out.
-/

namespace Pixel845.Rmnet

/-! ## Operations -/

/-- The operations of the command line. -/
inductive CliOp where
  /-- `argv[k]`, counted from the `argv` that `rmnet_api_call` is given. -/
  | argv (k : Nat)
  /-- `strtoul(s, NULL, 0)` -/
  | strtoul (s : Option CString)
  /-- `strtol(s, NULL, 0)` -/
  | strtol (s : Option CString)
  | malloc (size : Nat)
  | rmnetctlInit
  | rtrmnetCtlInit
  /-- A call of the library with the handle. -/
  | call (q : Call)
  | rmnetctlCleanup
  | rtrmnetCtlDeinit
  | printStatus (rc : Int) (errorNumber : Errno)

/-- What an operation answers: `malloc` whether it has succeeded, an init function its return value and the error code, a call how
it ends and what it has sent. -/
@[reducible] def CliOp.Res : CliOp → Type
  | .argv _ => Option CString
  | .strtoul _ => Nat
  | .strtol _ => Int
  | .malloc _ => Bool
  | .rmnetctlInit | .rtrmnetCtlInit => Int × Errno
  | .call _ => Outcome × List (List UInt8)
  | .rmnetctlCleanup | .rtrmnetCtlDeinit | .printStatus _ _ => Unit

/-- The command line, or a part of it. -/
abbrev CliM (α : Type) : Type := Prog CliOp CliOp.Res α

/-- The operations of an execution, with their answers. -/
abbrev CliEvents : Type := List (Prog.Event CliOp.Res)

/-- Perform one operation. -/
abbrev ask (o : CliOp) : CliM o.Res := Prog.call o

def rmnetctlCfgSuccessHelpCommand : Errno := 100
def rmnetctlCfgFailureNoCommand : Errno := 101
def rmnetctlCfgFailureEgressDevNameNull : Errno := 102

/-! ## Commands -/

/-- The commands, first those behind `-n`. -/
inductive CliCommand where
  | newlink
  | changelink
  | getlink
  | dellink
  | bridge
  | uplinkparam
  | flowactivate
  | flowdel
  | flowcontrol
  | systemup
  | systemdown
  | qmiscale
  | wdafreq
  | assocnetdev
  | unassocnetdev
  | getnetdevassoc
  | getledf
  | getlidf
  | newvndPrefix
  | newvndname
  | newvnd
  | getvndname
  | freevnd
  | setlidf
  | delvnctcflow
  | getlepc
  | addvnctcflow
  | setledf
  | setlepc
  | unsetlepc
deriving DecidableEq

/-- An ASCII string as bytes. -/
def ascii (s : String) : List UInt8 := s.toList.map fun c => UInt8.ofNat c.toNat

/-- The words of the commands behind `-n`. -/
def rtmWords : List (List UInt8 × CliCommand) :=
  [(ascii "newlink", .newlink), (ascii "changelink", .changelink), (ascii "getlink", .getlink), (ascii "dellink", .dellink),
    (ascii "bridge", .bridge), (ascii "uplinkparam", .uplinkparam), (ascii "flowactivate", .flowactivate),
    (ascii "flowdel", .flowdel), (ascii "flowcontrol", .flowcontrol), (ascii "systemup", .systemup),
    (ascii "systemdown", .systemdown), (ascii "qmiscale", .qmiscale), (ascii "wdafreq", .wdafreq)]

/-- The words of the legacy commands. -/
def legacyWords : List (List UInt8 × CliCommand) :=
  [(ascii "assocnetdev", .assocnetdev), (ascii "unassocnetdev", .unassocnetdev), (ascii "getnetdevassoc", .getnetdevassoc),
    (ascii "getledf", .getledf), (ascii "getlidf", .getlidf), (ascii "newvndprefix", .newvndPrefix),
    (ascii "newvndname", .newvndname), (ascii "newvnd", .newvnd), (ascii "getvndname", .getvndname), (ascii "freevnd", .freevnd),
    (ascii "setlidf", .setlidf), (ascii "delvnctcflow", .delvnctcflow), (ascii "getlepc", .getlepc),
    (ascii "addvnctcflow", .addvnctcflow), (ascii "setledf", .setledf), (ascii "setlepc", .setlepc),
    (ascii "unsetlepc", .unsetlepc)]

/-- The number of arguments that `_RMNETCLI_CHECKNULL` checks: the first ones. -/
def CliCommand.checks : CliCommand → Nat
  | .assocnetdev | .unassocnetdev | .getnetdevassoc | .getledf | .getlidf => 0
  | .getlink | .dellink | .newvnd | .getvndname | .freevnd | .getlepc | .unsetlepc => 1
  | .bridge | .newvndPrefix | .newvndname | .setlepc => 2
  | .newlink | .systemdown | .qmiscale | .wdafreq | .setlidf | .delvnctcflow | .addvnctcflow | .setledf => 3
  | .changelink => 4
  | .uplinkparam | .flowactivate | .flowdel => 5
  | .flowcontrol | .systemup => 6

/-- How a command uses an argument: as a string, converted by `strtoul` or `strtol`, or converted by `strtol` if it is given. -/
inductive Use where
  | str (k : Nat)
  | ul (k : Nat)
  | l (k : Nat)
  | optL (k : Nat)
deriving DecidableEq

/-- The arguments that a command uses for its call. -/
def CliCommand.uses : CliCommand → List Use
  | .newlink => [.optL 4, .str 1, .str 2, .l 3]
  | .changelink => [.str 1, .str 2, .l 3, .l 4]
  | .getlink | .dellink => [.str 1]
  | .bridge => [.str 1, .str 2]
  | .uplinkparam => [.str 1, .str 2, .ul 3, .ul 4, .ul 5]
  | .flowactivate => [.str 1, .str 2, .ul 3, .l 4, .ul 5, .ul 6]
  | .flowdel => [.str 1, .str 2, .ul 3, .ul 4, .l 5]
  | .flowcontrol | .systemup => [.str 1, .str 2, .ul 3, .ul 4, .ul 5, .ul 6]
  | .systemdown | .qmiscale | .wdafreq => [.str 1, .str 2, .ul 3]
  | .assocnetdev | .unassocnetdev | .getnetdevassoc | .getledf | .getlidf => [.str 1]
  | .newvndPrefix | .newvndname => [.ul 1, .str 2]
  | .newvnd | .getvndname | .freevnd => [.ul 1]
  | .setlidf => [.ul 1, .ul 2, .str 3]
  | .delvnctcflow | .addvnctcflow => [.ul 1, .ul 2, .ul 3]
  | .getlepc => [.l 1, .str 2]
  | .setledf => [.ul 1, .ul 2, .ul 3, .str 4]
  | .setlepc => [.l 1, .ul 2, .str 3, .str 4]
  | .unsetlepc => [.l 1, .str 2]

/-- The values of the arguments that were used. -/
structure Values where
  str : Nat → Option CString := fun _ => none
  ul : Nat → Nat := fun _ => 0
  l : Nat → Int := fun _ => 0

/-- `_STRTOUI32` -/
def strtoui32 (v : Nat) : UInt32 := .ofNat v

/-- `_STRTOUI16` -/
def strtoui16 (v : Nat) : UInt16 := .ofNat v

/-- `_STRTOUI8` -/
def strtoui8 (v : Nat) : UInt8 := .ofNat v

/-- `_STRTOI32` -/
def strtoi32 (v : Int) : Int32 := .ofInt v

/-- The pointers that the command line gives to a call. -/
def given : Ptrs := ⟨true, true⟩

/-- The call that a command makes. -/
def CliCommand.call (a : Values) : CliCommand → Call
  | .newlink => .rtm given (.newvnd (a.str 1) (a.str 2) (strtoi32 (a.l 3)).toUInt32.toUInt8 (strtoi32 (a.l 4)).toUInt32)
  | .changelink => .rtm given (.changevnd (a.str 1) (a.str 2) (strtoi32 (a.l 3)).toUInt32.toUInt8 (strtoi32 (a.l 4)).toUInt32)
  | .getlink => .rtm given (.getvnd (a.str 1) ⟨true, true, true, true, true, true⟩)
  | .dellink => .rtm given (.delvnd (a.str 1))
  | .bridge => .rtm given (.bridgevnd (a.str 1) (a.str 2))
  | .uplinkparam => .rtm given
      (.setUplinkAggregationParams (a.str 1) (a.str 2) (strtoui8 (a.ul 3)) (strtoui16 (a.ul 4)) (strtoui32 (a.ul 5)) 0)
  | .flowactivate => .rtm given
      (.activateFlow (a.str 1) (a.str 2) (strtoui8 (a.ul 3)) (strtoi32 (a.l 4)).toUInt32 (strtoui32 (a.ul 5))
        (strtoui32 (a.ul 6)))
  | .flowdel => .rtm given
      (.deleteFlow (a.str 1) (a.str 2) (strtoui8 (a.ul 3)) (strtoui32 (a.ul 4)) (strtoi32 (a.l 5)).toUInt32)
  | .flowcontrol => .rtm given
      (.controlFlow (a.str 1) (a.str 2) (strtoui8 (a.ul 3)) (strtoui32 (a.ul 4)).toUInt16 (strtoui16 (a.ul 5)).toUInt32
        (strtoui8 (a.ul 6)))
  | .systemup => .rtm given
      (.flowStateUp (a.str 1) (a.str 2) (strtoui32 (a.ul 3)) (strtoui32 (a.ul 4)) (strtoui32 (a.ul 5)) (strtoui32 (a.ul 6)))
  | .systemdown => .rtm given (.flowStateDown (a.str 1) (a.str 2) (strtoui32 (a.ul 3)))
  | .qmiscale => .rtm given (.setQmiScale (a.str 1) (a.str 2) (strtoui32 (a.ul 3)))
  | .wdafreq => .rtm given (.setWdaFreq (a.str 1) (a.str 2) (strtoui32 (a.ul 3)))
  | .assocnetdev => .legacy given (.associateNetworkDevice (a.str 1) 1)
  | .unassocnetdev => .legacy given (.associateNetworkDevice (a.str 1) 0)
  | .getnetdevassoc => .legacy given (.getNetworkDeviceAssociated (a.str 1) true)
  | .getledf => .legacy given (.getLinkEgressDataFormat (a.str 1) true true true)
  | .getlidf => .legacy given (.getLinkIngressDataFormatTailspace (a.str 1) true true)
  | .newvndPrefix => .legacy given (.newVndPrefix (strtoui32 (a.ul 1)) 1 (a.str 2))
  | .newvndname => .legacy given (.newVndName (strtoui32 (a.ul 1)) (a.str 2))
  | .newvnd => .legacy given (.newVnd (strtoui32 (a.ul 1)) 1)
  | .getvndname => .legacy given (.getVndName (strtoui32 (a.ul 1)) true 32)
  | .freevnd => .legacy given (.newVnd (strtoui32 (a.ul 1)) 0)
  | .setlidf => .legacy given (.setLinkIngressDataFormatTailspace (strtoui32 (a.ul 1)) (strtoui8 (a.ul 2)) (a.str 3))
  | .delvnctcflow => .legacy given (.addDelVndTcFlow (strtoui32 (a.ul 1)) (strtoui32 (a.ul 2)) (strtoui32 (a.ul 3)) 0)
  | .getlepc => .legacy given (.getLogicalEpConfig (strtoi32 (a.l 1)) (a.str 2) true true 16)
  | .addvnctcflow => .legacy given (.addDelVndTcFlow (strtoui32 (a.ul 1)) (strtoui32 (a.ul 2)) (strtoui32 (a.ul 3)) 1)
  | .setledf => .legacy given
      (.setLinkEgressDataFormat (strtoui32 (a.ul 1)) (strtoui16 (a.ul 2)) (strtoui16 (a.ul 3)) (a.str 4))
  | .setlepc => .legacy given (.setLogicalEpConfig (strtoi32 (a.l 1)) (strtoui8 (a.ul 2)) (a.str 3) (a.str 4))
  | .unsetlepc => .legacy given (.unsetLogicalEpConfig (strtoi32 (a.l 1)) (a.str 2))

/-! ## The function -/

/-- Print a status and return. -/
def printAndReturn (rc : Int) (errorNumber : Errno) (ret : Int) : CliM Int := do
  ask (.printStatus rc errorNumber)
  return ret

/-- `end:` -/
def finish (rc : Int) (errorNumber : Errno) : CliM Int := do
  ask (.printStatus rc errorNumber)
  ask .rmnetctlCleanup
  ask .rtrmnetCtlDeinit
  return rc

/-- `_RMNETCLI_CHECKNULL` of `n` arguments from the `k`-th on, where the command is `argv[base]`. -/
def checkNull (base : Nat) : Nat → Nat → CliM Int → CliM Int
  | _, 0, rest => rest
  | k, n + 1, rest => do
    match ← ask (.argv (base + k)) with
    | none =>
      ask (.printStatus rmnetctlInvalidArg rmnetctlCfgFailureNoCommand)
      ask .rmnetctlCleanup
      return rmnetctlInvalidArg
    | some _ => checkNull base (k + 1) n rest

/-- Use an argument. -/
def Use.eval (base : Nat) (a : Values) : Use → CliM Values
  | .str k => do
    let s ← ask (.argv (base + k))
    return { a with str := Function.update a.str k s }
  | .ul k => do
    let s ← ask (.argv (base + k))
    let v ← ask (.strtoul s)
    return { a with ul := Function.update a.ul k v }
  | .l k => do
    let s ← ask (.argv (base + k))
    let v ← ask (.strtol s)
    return { a with l := Function.update a.l k v }
  | .optL k => do
    match ← ask (.argv (base + k)) with
    | none => return a
    | some s =>
      let v ← ask (.strtol (some s))
      return { a with l := Function.update a.l k v }

/-- Use arguments, in order. -/
def evalUses (base : Nat) : List Use → Values → CliM Values
  | [], a => return a
  | u :: us, a => do
    let a ← u.eval base a
    evalUses base us a

/-- Make the call of a command. -/
def makeCall (base : Nat) (c : CliCommand) : CliM Int := do
  let a ← evalUses base c.uses {}
  let (x, _) ← ask (.call (c.call a))
  finish x.rc (x.errorCode.getD rmnetctlCfgFailureNoCommand)

/-- The branch of a command: `getlepc` needs a buffer of `RMNET_MAX_STR_LEN` bytes for its call. -/
def runCommand (base : Nat) (c : CliCommand) : CliM Int :=
  checkNull base 1 c.checks <|
    if c = .getlepc then do
      match ← ask (.malloc rmnetMaxStrLen) with
      | false =>
        ask (.printStatus rmnetctlLibErr rmnetctlCfgFailureEgressDevNameNull)
        ask .rmnetctlCleanup
        return rmnetctlLibErr
      | true => makeCall base c
    else makeCall base c

/-- The branch of the word of a command, if there is one. -/
def branch (base : Nat) (c : Option CliCommand) : CliM Int :=
  match c with
  | some c => runCommand base c
  | none => finish rmnetctlLibErr rmnetctlCfgFailureNoCommand

/-- `rmnet_api_call` -/
def rmnetApiCall (argc : Nat) : CliM Int :=
  if argc = 0 then printAndReturn rmnetctlLibErr rmnetctlCfgFailureNoCommand rmnetctlLibErr
  else do
    match ← ask (.argv 0) with
    | none => printAndReturn rmnetctlLibErr rmnetctlCfgFailureNoCommand rmnetctlLibErr
    | some word =>
      if word.bytes = ascii "help" then printAndReturn rmnetctlLibErr rmnetctlCfgSuccessHelpCommand rmnetctlLibErr
      else if word.bytes = ascii "-n" then do
        let (rc, errorNumber) ← ask .rtrmnetCtlInit
        if rc ≠ rmnetctlSuccess then printAndReturn rc errorNumber rmnetctlLibErr
        else if argc - 1 = 0 then printAndReturn rmnetctlLibErr rmnetctlCfgFailureNoCommand rmnetctlLibErr
        else
          match ← ask (.argv 1) with
          | none => printAndReturn rmnetctlLibErr rmnetctlCfgFailureNoCommand rmnetctlLibErr
          | some word => branch 1 (rtmWords.lookup word.bytes)
      else do
        let (rc, errorNumber) ← ask .rmnetctlInit
        if rc ≠ rmnetctlSuccess then printAndReturn rc errorNumber rmnetctlLibErr
        else branch 0 (legacyWords.lookup word.bytes)

end Pixel845.Rmnet
