import Mathlib.Data.List.Infix
import Mathlib.Data.UInt

/-!
# The USB gadget service: what it works on

The vocabulary of `UsbGadget.cpp` and `UsbGadget.h`: the function masks, the files of the gadget in configfs, the links of its
configuration, the endpoint files of the FunctionFS functions, the members of `UsbGadget`, and the state the service shares
with its monitor thread, the kernel and other processes.

Property values and names are C strings, kept as lists of characters. The masks and the status codes are those of the HIDL
interface the service implements.
-/

namespace Pixel845.Usb

/-- A C string: its `char`s, without the NUL. -/
abbrev CStr := List Char

/-- The status codes of the gadget interface. -/
inductive Status where
  | success | error | functionsApplied | functionsNotApplied | configurationNotSupported
  deriving DecidableEq, Repr

/-! ## Masks -/

namespace GadgetFunction

def none : UInt64 := 0
def adb : UInt64 := 1
def accessory : UInt64 := 2
def mtp : UInt64 := 4
def midi : UInt64 := 8
def ptp : UInt64 := 16
def rndis : UInt64 := 32
def audioSource : UInt64 := 64

end GadgetFunction

/-- The gadget functions the service can link: the directories under `functions/` that `linkFunction` is called with. -/
inductive Function where
  | ffsMtp | ffsPtp | midi | accessory | audioSource | rndis | diag | serialCdev | rmnetGsi | ffsAdb
  deriving DecidableEq, Repr

/-- The text `linkFunction` is called with. -/
def Function.dir : Function → String
  | .ffsMtp => "ffs.mtp"
  | .ffsPtp => "ffs.ptp"
  | .midi => "midi.gs5"
  | .accessory => "accessory.gs2"
  | .audioSource => "audio_source.gs3"
  | .rndis => "gsi.rndis"
  | .diag => "diag.diag"
  | .serialCdev => "cser.dun.0"
  | .rmnetGsi => "gsi.rmnet"
  | .ffsAdb => "ffs.adb"

/-! ## Files -/

/-- The configfs files the service writes. -/
inductive Path where
  | pullup | vendorId | productId | deviceClass | deviceSubClass | deviceProtocol | descUse
  deriving DecidableEq, Repr

/-- The texts the service writes: `"none"`, `GADGET_NAME`, `"0"`, `"1"` and the hexadecimal identifiers. -/
inductive Content where
  | none | gadgetName | zero | one | hex (n : Nat)
  deriving DecidableEq, Repr

/-- An entry of the configuration directory `configs/b.1/`: its name and, if it is a link to one of the functions, which. -/
structure Link where
  name : CStr
  target : Option Function
  deriving DecidableEq, Repr

/-- `FUNCTION_NAME`, the text by which `unlinkFunctions` knows the links. -/
def functionName : CStr := "function".toList

/-- The name `linkFunction` gives to the link with an index. -/
def functionLink (index : Nat) : CStr := functionName ++ Nat.toDigits 10 index

/-- `CONFIG_PATH` -/
def configPath : CStr := "/config/usb_gadget/g1/configs/b.1/".toList

/-- `MAX_FILE_PATH_LENGTH`, the size of `filepath` in `unlinkFunctions`. -/
def maxFilePathLength : Nat := 256

/-- The test of `unlinkFunctions`: `strstr(d_name, FUNCTION_NAME) != NULL`. -/
def isFunctionLink (name : CStr) : Bool := decide (functionName <:+: name)

/-- The directories of the FunctionFS functions under `/dev/usb-ffs/`. -/
inductive FfsDir where
  | mtp | ptp | adb
  deriving DecidableEq, Repr

/-- An endpoint file of a FunctionFS function: `/dev/usb-ffs/<dir>/ep<number>`. -/
structure Endpoint where
  dir : FfsDir
  number : Nat
  deriving DecidableEq, Repr

/-- An event of an inotify queue. Of its fields the monitor reads only the length of the name that follows it. -/
structure InotifyEvent where
  len : Nat
  deriving DecidableEq, Repr

/-- The system properties the service reads. -/
inductive PropKey where
  | buildType | bootMode | persistVendorConfig | vendorConfig
  deriving DecidableEq, Repr

/-! ## The members of the service -/

/-- The members of `UsbGadget` that outlive a call, and the global `gadgetPullup`. -/
structure Fields where
  mCurrentUsbFunctions : UInt64
  mCurrentUsbFunctionsApplied : Bool
  mMonitorCreated : Bool
  mEndpointList : List Endpoint
  gadgetPullup : Bool
  deriving DecidableEq, Repr

/-! ## The monitor thread -/

/-- The descriptors the monitor waits on. -/
inductive Fd where
  | inotify | event
  deriving DecidableEq, Repr

/-- Where a check of the endpoints comes from, and so where the monitor goes on: the check made once at the start, or the check
made for one event, with the events of the batch that are left and the ready descriptors that are left. -/
inductive CheckFor where
  | start
  | event (batch : List InotifyEvent) (ready : List Fd)
  deriving DecidableEq, Repr

/-- The program points of `monitorFfs`. -/
inductive MonitorPc where
  /-- `access` on endpoint `j`; all endpoints before it were present. -/
  | access (j : Nat) (c : CheckFor)
  /-- `usleep(PULL_UP_DELAY)` -/
  | delay (c : CheckFor)
  /-- `WriteStringToFile(GADGET_NAME, PULLUP_PATH)` -/
  | pullUp (c : CheckFor)
  /-- The write succeeded; the block under `lock_guard` is next. -/
  | publish (c : CheckFor)
  | epollWait
  /-- The loop over `events`: the descriptors not handled yet. -/
  | dispatch (ready : List Fd)
  /-- The loop over the events read into `buf`: those not handled yet. -/
  | handle (batch : List InotifyEvent) (ready : List Fd)
  /-- The thread has returned. -/
  | done
  deriving DecidableEq, Repr

/-- The monitor thread: its program point and its local variables. -/
structure Monitor where
  pc : MonitorPc
  writeUdc : Bool
  disconnect : Nat
  deriving DecidableEq, Repr

/-! ## What has happened since a call began -/

/-- The two threads of the service. -/
inductive Who where
  | main | monitor
  deriving DecidableEq, Repr

/-- What a call of `setCurrentUsbFunctions`, the monitor and other processes leave behind, in the order it happened. -/
inductive Event where
  /-- The call began. -/
  | entered (functions : UInt64) (callback : Bool)
  | wrote (who : Who) (content : Content) (path : Path) (ok : Bool)
  /-- A check of the monitor found an endpoint missing. -/
  | foundMissing
  /-- The directory of the configuration was read. -/
  | listed (names : List CStr)
  | linked (function : Function) (index : Nat) (ok : Bool)
  /-- A property was read. -/
  | got (key : PropKey) (value : CStr)
  /-- Another process changed a property. -/
  | propChanged
  /-- The monitor thread was started. -/
  | started
  /-- The stop flag was written to the eventfd, or the write failed. -/
  | signalled (ok : Bool)
  /-- `mCurrentUsbFunctionsApplied` was assigned. -/
  | applied (who : Who) (value : Bool)
  /-- `setCurrentUsbFunctionsCb` was invoked. -/
  | called (functions : UInt64) (status : Status)
  deriving DecidableEq, Repr

/-! ## The state -/

/-- The state the service shares with its monitor, the kernel and other processes. -/
structure State where
  mem : Fields
  /-- What was last written to each file, if anything was. -/
  files : Path → Option Content
  /-- The gadget is bound to the controller: the kernel's own view of the pull-up. -/
  bound : Bool
  /-- The entries of `configs/b.1/`. -/
  links : List Link
  props : PropKey → CStr
  present : Endpoint → Bool
  watches : List FfsDir
  queue : List InotifyEvent
  /-- The counter of the eventfd. -/
  eventCount : Nat
  /-- `mLock` is held by the thread that serves the calls. -/
  lockHeld : Bool
  monitor : Option Monitor
  /-- What has happened since the last call of `setCurrentUsbFunctions` began. -/
  trace : List Event

/-- `WriteStringToFile`, by either thread: a successful write replaces the file's text, and a write to `UDC` binds the gadget
or unbinds it. -/
def State.write (s : State) (who : Who) (content : Content) (path : Path) (ok : Bool) : State :=
  if ok then
    { s with
      files := fun p => if p = path then some content else s.files p
      bound := if path = .pullup then decide (content = .gadgetName) else s.bound
      trace := s.trace ++ [.wrote who content path true] }
  else { s with trace := s.trace ++ [.wrote who content path false] }

/-- Append an event to what has happened. -/
def State.log (s : State) (e : Event) : State := { s with trace := s.trace ++ [e] }

/-- All monitored endpoints are there. -/
def State.allPresent (s : State) : Bool := s.mem.mEndpointList.all s.present

end Pixel845.Usb
