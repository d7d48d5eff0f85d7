import Pixel845.Lib.Machine
import Pixel845.Usb.Monitor

/-!
# The calls of the USB gadget service

The functions of `UsbGadget.cpp` as programs over the operations they perform: the file and descriptor operations, the reads
and writes of the members, the lock, the condition variable, the monitor thread and the callbacks. `gadgetMachine` says what
each operation does to the shared state; between any two of them the monitor and the other processes move.

A helper that can only end a function early returns `none` there, and its caller returns the error. Of `timeout` nothing is kept:
the wait may time out at any moment. A descriptor that a failed `setupFunctions` closes on its way out is one nobody holds. What
`sprintf` writes is kept with the operation, and nothing is said of what a text does that is longer than `filepath`.
-/

namespace Pixel845.Usb

/-- The operations of the calls. -/
inductive Op where
  /-- `std::unique_lock<std::mutex> lk(mLockSetCurrentFunction)`, where a call of `setCurrentUsbFunctions` begins. -/
  | lockSetCurrentFunction (functions : UInt64) (callback : Bool)
  | writeString (content : Content) (path : Path)
  | opendir
  /-- `sprintf` of a text into `filepath`. -/
  | sprintf (text : CStr)
  | remove (name : CStr)
  | symlink (function : Function) (index : Nat)
  | inotifyInit
  | inotifyAddWatch (dir : FfsDir)
  | eventfd
  | epollCreate
  | epollAdd (fd : Fd)
  | closeFds
  | writeEventFd (flag : Nat)
  | join
  | spawn
  | getProperty (key : PropKey)
  | setProperty (key : PropKey) (value : CStr)
  | load
  | store (f : Fields → Fields)
  /-- `mCurrentUsbFunctionsApplied = value` -/
  | setApplied (value : Bool)
  | lock
  | unlock
  /-- The condition variable releases `mLock` to wait. -/
  | cvRelease
  /-- The wait is over, notified or timed out, and `mLock` is held again. -/
  | cvAcquire
  | usleep
  | setCurrentUsbFunctionsCb (functions : UInt64) (status : Status)
  | getCurrentUsbFunctionsCb (functions : UInt64) (status : Status)

/-- What an operation answers: a file or descriptor operation whether it succeeded, a read what it read. -/
@[reducible] def Op.Res : Op → Type
  | .writeString _ _ | .remove _ | .symlink _ _ | .inotifyInit | .inotifyAddWatch _ | .eventfd | .epollCreate | .epollAdd _
  | .writeEventFd _ => Bool
  | .opendir => Option (List CStr)
  | .getProperty _ => CStr
  | .load => Fields
  | _ => Unit

/-- A call of the service, or a part of one. -/
abbrev UsbM (α : Type) : Type := Prog Op Op.Res α

/-- Perform one operation. -/
abbrev perform (o : Op) : UsbM o.Res := Prog.call o

/-! ## Tearing down -/

/-- The loop of `unlinkFunctions` over the entries of the directory. -/
def unlinkEntries : List CStr → UsbM Int
  | [] => return 0
  | name :: names => do
    if !isFunctionLink name then
      unlinkEntries names
    else
      perform (.sprintf (configPath ++ '/' :: name))
      let removed ← perform (.remove name)
      if removed then unlinkEntries names else return -1

/-- `unlinkFunctions`, for the one directory it is called with, `CONFIG_PATH`. -/
def unlinkFunctions : UsbM Int := do
  let config ← perform .opendir
  match config with
  | none => return -1
  | some names => unlinkEntries names

/-- The end of `tearDownGadget`: stop the monitor if it runs and forget its descriptors and endpoints. -/
def stopMonitor : UsbM Status := do
  let m ← perform .load
  if m.mMonitorCreated then
    -- A failed or short write is only logged: the join below waits all the same.
    let _ ← perform (.writeEventFd stopFlag)
    perform .join
    perform (.store fun m => { m with mMonitorCreated := false })
  perform .closeFds
  perform (.store fun m => { m with mEndpointList := [] })
  return .success

/-- `UsbGadget::tearDownGadget` -/
def tearDownGadget : UsbM Status := do
  -- The pull-down may fail: that is logged and ignored.
  let _ ← perform (.writeString .none .pullup)
  let class0 ← perform (.writeString .zero .deviceClass)
  if !class0 then return .error
  let subClass0 ← perform (.writeString .zero .deviceSubClass)
  if !subClass0 then return .error
  let protocol0 ← perform (.writeString .zero .deviceProtocol)
  if !protocol0 then return .error
  let descUse0 ← perform (.writeString .zero .descUse)
  if !descUse0 then return .error
  let unlinked ← unlinkFunctions
  if unlinked ≠ 0 then return .error
  stopMonitor

/-- `UsbGadget::reset` -/
def reset : UsbM Status := do
  let down ← perform (.writeString .none .pullup)
  if !down then return .error
  return .success

/-! ## The identity of the gadget -/

/-- `linkFunction` -/
def linkFunction (function : Function) (index : Nat) : UsbM Int := do
  let linked ← perform (.symlink function index)
  if !linked then return -1
  return 0

/-- `setVidPid` -/
def setVidPid (vid pid : Nat) : UsbM Status := do
  let vidWritten ← perform (.writeString (.hex vid) .vendorId)
  if !vidWritten then return .error
  let pidWritten ← perform (.writeString (.hex pid) .productId)
  if !pidWritten then return .error
  return .success

/-- `getVendorFunctions` -/
def getVendorFunctions : UsbM CStr := do
  let buildType ← perform (.getProperty .buildType)
  if buildType = "user".toList then return "user".toList
  let bootMode ← perform (.getProperty .bootMode)
  let persistVendorFunctions ← perform (.getProperty .persistVendorConfig)
  let vendorFunctions ← perform (.getProperty .vendorConfig)
  if vendorFunctions ≠ [] then
    return vendorFunctions
  else if bootMode = "usbradio".toList then
    let ret := if persistVendorFunctions ≠ [] then persistVendorFunctions else "diag".toList
    perform (.setProperty .vendorConfig ret)
    return ret
  else
    return []

/-- The vendor strings that stand for no vendor function: the test `vendorFunctions == "user" || vendorFunctions == ""`. -/
def noVendorFunctions (v : CStr) : Bool := decide (v = "user".toList ∨ v = [])

open GadgetFunction in
/-- The identifiers that `validateAndSetVidPid` chooses for a mask and a vendor string, or none where it refuses the combination.
The accessory and audio source masks only log an unexpected vendor string. -/
def chooseVidPid (functions : UInt64) (v : CStr) : Option (Nat × Nat) :=
  if functions = mtp then
    if v = "diag".toList then some (0x05C6, 0x901B)
    else if !noVendorFunctions v then none else some (0x18d1, 0x4ee1)
  else if functions = adb ||| mtp then
    if v = "diag".toList then some (0x05C6, 0x903A)
    else if !noVendorFunctions v then none else some (0x18d1, 0x4ee2)
  else if functions = rndis then
    if v = "diag".toList then some (0x05C6, 0x902C)
    else if v = "serial_cdev,diag".toList then some (0x05C6, 0x90B5)
    else if !noVendorFunctions v then none else some (0x18d1, 0x4ee3)
  else if functions = adb ||| rndis then
    if v = "diag".toList then some (0x05C6, 0x902D)
    else if v = "serial_cdev,diag".toList then some (0x05C6, 0x90B6)
    else if !noVendorFunctions v then none else some (0x18d1, 0x4ee4)
  else if functions = ptp then
    if !noVendorFunctions v then none else some (0x18d1, 0x4ee5)
  else if functions = adb ||| ptp then
    if !noVendorFunctions v then none else some (0x18d1, 0x4ee6)
  else if functions = adb then
    if v = "diag".toList then some (0x05C6, 0x901D)
    else if v = "diag,serial_cdev,rmnet_gsi".toList then some (0x05C6, 0x9091)
    else if v = "diag,serial_cdev".toList then some (0x05C6, 0x901F)
    else if !noVendorFunctions v then none else some (0x18d1, 0x4ee7)
  else if functions = midi then
    if !noVendorFunctions v then none else some (0x18d1, 0x4ee8)
  else if functions = adb ||| midi then
    if !noVendorFunctions v then none else some (0x18d1, 0x4ee9)
  else if functions = accessory then some (0x18d1, 0x2d00)
  else if functions = adb ||| accessory then some (0x18d1, 0x2d01)
  else if functions = audioSource then some (0x18d1, 0x2d02)
  else if functions = adb ||| audioSource then some (0x18d1, 0x2d03)
  else if functions = accessory ||| audioSource then some (0x18d1, 0x2d04)
  else if functions = adb ||| accessory ||| audioSource then some (0x18d1, 0x2d05)
  else none

/-- `validateAndSetVidPid` -/
def validateAndSetVidPid (functions : UInt64) : UsbM Status := do
  let vendorFunctions ← getVendorFunctions
  match chooseVidPid functions vendorFunctions with
  | none => return .configurationNotSupported
  | some (vid, pid) => setVidPid vid pid

/-! ## Setting up -/

/-- What `setupFunctions` keeps while it links: the next index and whether a FunctionFS function is among the links. -/
structure Setup where
  index : Nat
  ffsEnabled : Bool
  deriving DecidableEq, Repr

/-- `linkFunction(function, i++)`, or `none` where `setupFunctions` returns the error. -/
def link (function : Function) (st : Setup) : UsbM (Option Setup) := do
  let rc ← linkFunction function st.index
  if rc ≠ 0 then return none
  return some { st with index := st.index + 1 }

/-- The endpoints `setupFunctions` adds for a FunctionFS function. -/
def ffsEndpoints (dir : FfsDir) : List Endpoint :=
  match dir with
  | .mtp | .ptp => [⟨dir, 1⟩, ⟨dir, 2⟩, ⟨dir, 3⟩]
  | .adb => [⟨dir, 1⟩, ⟨dir, 2⟩]

/-- A FunctionFS branch of `setupFunctions`: MTP, PTP or ADB. -/
def linkFfs (dir : FfsDir) (function : Function) (st : Setup) : UsbM (Option Setup) := do
  let descUse1 ← perform (.writeString .one .descUse)
  if !descUse1 then return none
  let watched ← perform (.inotifyAddWatch dir)
  if !watched then return none
  let linked ← link function st
  match linked with
  | none => return none
  | some st' =>
    perform (.store fun m => { m with mEndpointList := m.mEndpointList ++ ffsEndpoints dir })
    return some { st' with ffsEnabled := true }

/-- The test `(functions & f) != 0`. -/
def has (functions f : UInt64) : Bool := decide (functions &&& f ≠ 0)

/-- The branch of `setupFunctions` for MTP or, failing that, PTP. -/
def linkMtpOrPtp (functions : UInt64) (st : Setup) : UsbM (Option Setup) :=
  if has functions GadgetFunction.mtp then linkFfs .mtp .ffsMtp st
  else if has functions GadgetFunction.ptp then linkFfs .ptp .ffsPtp st
  else return some st

/-- A branch of `setupFunctions` that links one function and nothing else. -/
def linkIf (functions f : UInt64) (function : Function) (st : Setup) : UsbM (Option Setup) :=
  if has functions f then link function st else return some st

/-- The words `strtok` cuts a string into at the commas. It skips empty ones. -/
def strtokWords (v : CStr) : List CStr := (v.splitOn ',').filter (fun w => w ≠ [])

/-- The function `setupFunctions` links for a word of the vendor string, if it knows the word. -/
def vendorFunction? (word : CStr) : Option Function :=
  if word = "diag".toList then some .diag
  else if word = "serial_cdev".toList then some .serialCdev
  else if word = "rmnet_gsi".toList then some .rmnetGsi
  else none

/-- The loop of `setupFunctions` over the words of the vendor string. -/
def linkVendorWords : List CStr → Setup → UsbM (Option Setup)
  | [], st => return some st
  | word :: words, st =>
    match vendorFunction? word with
    | none => linkVendorWords words st
    | some function => do
      let linked ← link function st
      match linked with
      | none => return none
      | some st' => linkVendorWords words st'

/-- The branch of `setupFunctions` for the vendor functions. -/
def linkVendor (st : Setup) : UsbM (Option Setup) := do
  let vendorFunctions ← getVendorFunctions
  if vendorFunctions ≠ [] then linkVendorWords (strtokWords vendorFunctions) st else return some st

/-- The branch of `setupFunctions` for ADB. -/
def linkAdb (functions : UInt64) (st : Setup) : UsbM (Option Setup) :=
  if has functions GadgetFunction.adb then linkFfs .adb .ffsAdb st else return some st

/-- Perform the next branch unless an earlier one has ended the function. -/
def orReturn (p : UsbM (Option Setup)) (f : Setup → UsbM (Option Setup)) : UsbM (Option Setup) := do
  let linked ← p
  match linked with
  | none => return none
  | some st => f st

/-- The linking part of `setupFunctions`. -/
def linkFunctions (functions : UInt64) : UsbM (Option Setup) :=
  orReturn (orReturn (orReturn (orReturn (orReturn (orReturn
    (linkMtpOrPtp functions { index := 0, ffsEnabled := false })
    (linkIf functions GadgetFunction.midi .midi))
    (linkIf functions GadgetFunction.accessory .accessory))
    (linkIf functions GadgetFunction.audioSource .audioSource))
    (linkIf functions GadgetFunction.rndis .rndis))
    linkVendor)
    (linkAdb functions)

/-- The descriptors `setupFunctions` creates for the monitor; false where it returns the error. -/
def createFds : UsbM Bool := do
  let eventCreated ← perform .eventfd
  if !eventCreated then return false
  let epollCreated ← perform .epollCreate
  if !epollCreated then return false
  let inotifyAdded ← perform (.epollAdd .inotify)
  if !inotifyAdded then return false
  let eventAdded ← perform (.epollAdd .event)
  if !eventAdded then return false
  return true

/-- `mCv.wait_for(lk, timeout * 1ms, [] { return gadgetPullup; })`: it waits only if the predicate is false. -/
def waitForPullup : UsbM Unit := do
  let m ← perform .load
  if m.gadgetPullup then return ()
  perform .cvRelease
  perform .cvAcquire

/-- The end of `setupFunctions` for a FunctionFS configuration: start the monitor and, for a caller that wants to know, wait for
the pull-up and report it. -/
def startMonitor (functions : UInt64) (callback : Bool) : UsbM Status := do
  perform (.store fun m => { m with gadgetPullup := false })
  perform .spawn
  perform (.store fun m => { m with mMonitorCreated := true })
  if callback then
    waitForPullup
    let m ← perform .load
    perform (.setCurrentUsbFunctionsCb functions (if m.gadgetPullup then .success else .error))
  return .success

/-- The end of `setupFunctions` without a FunctionFS function: pull up right away. -/
def pullUpNow (functions : UInt64) (callback : Bool) : UsbM Status := do
  let up ← perform (.writeString .gadgetName .pullup)
  if !up then return .error
  perform (.setApplied true)
  if callback then
    perform (.setCurrentUsbFunctionsCb functions .success)
  return .success

/-- `UsbGadget::setupFunctions`, under `mLock`. -/
def setupLocked (functions : UInt64) (callback : Bool) : UsbM Status := do
  let inotifyCreated ← perform .inotifyInit
  if !inotifyCreated then return .error
  let _ ← perform (.getProperty .bootMode)
  let linked ← linkFunctions functions
  match linked with
  | none => return .error
  | some st =>
    if !st.ffsEnabled then
      pullUpNow functions callback
    else
      let created ← createFds
      if !created then return .error
      startMonitor functions callback

/-- `UsbGadget::setupFunctions` -/
def setupFunctions (functions : UInt64) (callback : Bool) : UsbM Status := do
  perform .lock
  let status ← setupLocked functions callback
  perform .unlock
  return status

/-! ## The calls -/

/-- `UsbGadget::getCurrentUsbFunctions` -/
def getCurrentUsbFunctions : UsbM Unit := do
  let m ← perform .load
  perform (.getCurrentUsbFunctionsCb m.mCurrentUsbFunctions
    (if m.mCurrentUsbFunctionsApplied then .functionsApplied else .functionsNotApplied))

/-- The error exit of `setCurrentUsbFunctions`. -/
def setError (functions : UInt64) (callback : Bool) (status : Status) : UsbM Status := do
  if callback then
    perform (.setCurrentUsbFunctionsCb functions status)
  return status

/-- `UsbGadget::setCurrentUsbFunctions`, with its local `status` as the value of the program. -/
def setCurrentUsbFunctions (functions : UInt64) (callback : Bool) : UsbM Status := do
  perform (.lockSetCurrentFunction functions callback)
  perform (.store fun m => { m with mCurrentUsbFunctions := functions })
  perform (.setApplied false)
  let tornDown ← tearDownGadget
  if tornDown ≠ .success then
    setError functions callback tornDown
  else
    perform .usleep
    if functions = GadgetFunction.none then
      if callback then
        perform (.setCurrentUsbFunctionsCb functions .success)
      return tornDown
    else
      let validated ← validateAndSetVidPid functions
      if validated ≠ .success then
        setError functions callback validated
      else
        let status ← setupFunctions functions callback
        if status ≠ .success then
          setError functions callback status
        else
          return status

/-- A request to the service. -/
inductive Req where
  | setCurrentUsbFunctions (functions : UInt64) (callback : Bool)
  | getCurrentUsbFunctions
  | reset
  deriving DecidableEq, Repr

/-- The program a request runs. -/
def body : Req → UsbM Status
  | .setCurrentUsbFunctions functions callback => setCurrentUsbFunctions functions callback
  | .getCurrentUsbFunctions => do
    getCurrentUsbFunctions
    return .success
  | .reset => reset

/-! ## What the operations do -/

/-- What the world chooses at an operation: it succeeds, it fails or times out, or `opendir` succeeds and the entries are read in
some order. -/
inductive Choice where
  | ok
  | fail
  | listing (names : List CStr)
  deriving DecidableEq, Repr

/-- A file or descriptor operation that may fail at any time and changes the state only when it succeeds. -/
def mayFail (s s' : State) : Choice → Option (Bool × State)
  | .ok => some (true, s')
  | .fail => some (false, s)
  | .listing _ => none

/-- An operation of the service itself, which does not fail. -/
def always (s' : State) : Choice → Option (Unit × State)
  | .ok => some ((), s')
  | _ => none

/-- What an operation does and answers. -/
def exec : (o : Op) → Choice → State → Option (o.Res × State)
  | .lockSetCurrentFunction functions callback, ch, s => always { s with trace := [.entered functions callback] } ch
  | .writeString content path, ch, s =>
    match ch with
    | .ok => some (true, s.write .main content path true)
    | .fail => some (false, s.write .main content path false)
    | .listing _ => none
  | .opendir, ch, s =>
    match ch with
    | .listing names => if names.isPerm (s.links.map Link.name) then some (some names, s.log (.listed names)) else none
    | .fail => some (none, s)
    | .ok => none
  | .sprintf _, ch, s => always s ch
  | .remove name, ch, s => mayFail s { s with links := s.links.filter (fun l => l.name ≠ name) } ch
  | .symlink function index, ch, s =>
    match ch with
    | .ok =>
      if s.links.any (fun l => l.name = functionLink index) then none
      else some (true, ({ s with links := s.links ++ [⟨functionLink index, some function⟩] } : State).log
        (.linked function index true))
    | .fail => some (false, s.log (.linked function index false))
    | .listing _ => none
  | .inotifyInit, ch, s => mayFail s { s with watches := [], queue := [] } ch
  | .inotifyAddWatch dir, ch, s => mayFail s { s with watches := s.watches ++ [dir] } ch
  | .eventfd, ch, s => mayFail s { s with eventCount := 0 } ch
  | .epollCreate, ch, s => mayFail s s ch
  | .epollAdd _, ch, s => mayFail s s ch
  | .closeFds, ch, s => always { s with watches := [], queue := [], eventCount := 0 } ch
  | .writeEventFd flag, ch, s =>
    match ch with
    | .ok => some (true, ({ s with eventCount := s.eventCount + flag } : State).log (.signalled true))
    | .fail => some (false, s.log (.signalled false))
    | .listing _ => none
  | .join, ch, s =>
    match s.monitor with
    | some m => if m.pc = .done then always { s with monitor := none } ch else none
    | none => none
  | .spawn, ch, s => always (({ s with monitor := some Monitor.init } : State).log .started) ch
  | .getProperty key, ch, s =>
    match ch with
    | .ok => some (s.props key, s.log (.got key (s.props key)))
    | _ => none
  | .setProperty key value, ch, s =>
    match ch with
    | .ok => some ((), { s with props := fun k => if k = key then value else s.props k })
    | .fail => some ((), s)
    | .listing _ => none
  | .load, ch, s =>
    match ch with
    | .ok => some (s.mem, s)
    | _ => none
  | .store f, ch, s => always { s with mem := f s.mem } ch
  | .setApplied value, ch, s =>
    always (({ s with mem := { s.mem with mCurrentUsbFunctionsApplied := value } } : State).log (.applied .main value)) ch
  | .lock, ch, s => if s.lockHeld then none else always { s with lockHeld := true } ch
  | .unlock, ch, s => always { s with lockHeld := false } ch
  | .cvRelease, ch, s => always { s with lockHeld := false } ch
  | .cvAcquire, ch, s =>
    if s.lockHeld then none
    else
      match ch with
      | .ok => if s.mem.gadgetPullup then some ((), { s with lockHeld := true }) else none
      | .fail => some ((), { s with lockHeld := true })
      | .listing _ => none
  | .usleep, ch, s => always s ch
  | .setCurrentUsbFunctionsCb functions status, ch, s => always (s.log (.called functions status)) ch
  | .getCurrentUsbFunctionsCb _ _, ch, s => always s ch

/-- The service among its monitor, the kernel and other processes. -/
def gadgetMachine : Machine Op Op.Res State Choice Env where
  exec := exec
  env := envStep

/-- The service at one moment. -/
abbrev Service : Type := Machine.Config Op Op.Res State Req Status

end Pixel845.Usb
