import Pixel845.Usb.Spec

/-!
# The contract of the calls

What every operation of a call may rely on where it is issued (`opPre`), what a call has established when it ends (`post`), and
what holds between calls (`Idle`). The results about the service are read off from these once the programs are shown to meet them.
-/

namespace Pixel845.Usb

/-- The monitor has been asked to stop and no later one has been started. -/
def Stopping (s : State) : Prop := .signalled true ∈ s.trace ∧ .started ∉ s.trace

/-- The ready descriptors the monitor has not handled yet. -/
def CheckFor.ready : CheckFor → List Fd
  | .start => []
  | .event _ ready => ready

/-- The ready descriptors the monitor has not handled yet. -/
def MonitorPc.ready : MonitorPc → List Fd
  | .access _ c | .delay c | .pullUp c | .publish c => c.ready
  | .dispatch ready | .handle _ ready => ready
  | .epollWait | .done => []

/-- The monitor runs and has not been told that its eventfd is ready. -/
def MonitorPc.Quiet (pc : MonitorPc) : Prop := pc ≠ .done ∧ .event ∉ pc.ready

/-- What ties the monitor to the call that is served or was served last: it is quiet until it is asked to stop and then finds
the flag or has ended; and once this call has started it, the configuration was set up, and a pull-up that the monitor has
published or is about to publish came after that. -/
structure Inv (s : State) : Prop where
  quiet : ∀ m, s.monitor = some m → ¬Stopping s → s.eventCount = 0 ∧ m.pc.Quiet
  stopping : ∀ m, s.monitor = some m → Stopping s → s.eventCount = stopFlag ∨ m.pc = .done
  configured : .started ∈ s.trace → Configured s.mem.mCurrentUsbFunctions s.trace
  pulled : .started ∈ s.trace → s.mem.gadgetPullup = true → PulledUp s.mem.mCurrentUsbFunctions s.trace
  wrote : .started ∈ s.trace → ∀ m c, s.monitor = some m → m.pc = .publish c →
    ∃ a b, s.trace = a ++ pullUpEvent .monitor :: b ∧ Configured s.mem.mCurrentUsbFunctions a ∧
      ∀ e ∈ b, e.isWriteOf .monitor = false

/-- The flag stands for a pull-up of the configuration that was set up last, unless a monitor of an earlier call set it late. -/
def AppliedOk (s : State) : Prop :=
  s.mem.mCurrentUsbFunctionsApplied = true → AppliedBy s.mem.mCurrentUsbFunctions s.trace ∨ LateFlag s.trace

/-- Every success that was reported for a mask other than `NONE` was reported after a pull-up. -/
def CallbacksSafe (tr : List Event) : Prop :=
  ∀ a functions, a ++ [.called functions .success] <+: tr → functions ≠ GadgetFunction.none → PulledUp functions a

/-- No write of the stop flag has failed. -/
def NoFail (s : State) : Prop := .signalled false ∉ s.trace

/-- The call, from the moment it has cleared the flag: `calls` are the callbacks made so far, and `v` is the vendor string for the
property values at its start, which are still the current ones unless another process has changed one. -/
structure CallCore (f : UInt64) (cb : Bool) (v : CStr) (lock : Bool) (calls : List (UInt64 × Status)) (s : State) : Prop where
  inv : Inv s
  applied : AppliedOk s
  functions : s.mem.mCurrentUsbFunctions = f
  head : ∃ rest, s.trace = .entered f cb :: rest
  lock : s.lockHeld = lock
  calls : s.trace.filterMap Event.call? = calls
  safe : CallbacksSafe s.trace
  props : .propChanged ∈ s.trace ∨ vendorOf s.props = v

/-- The call outside the moments where it stops an old monitor or starts a new one: the monitor, if there is one, is known and has
not been asked to stop. -/
structure InCall (f : UInt64) (cb : Bool) (v : CStr) (lock : Bool) (calls : List (UInt64 × Status)) (s : State) : Prop
    extends CallCore f cb v lock calls s where
  noFail : NoFail s
  created : s.mem.mMonitorCreated = s.monitor.isSome
  calm : ∀ m, s.monitor = some m → ¬Stopping s

/-- The callbacks of a call that has ended: one, with its own mask, if it was given a callback. -/
def Answers (f : UInt64) (cb : Bool) (calls : List (UInt64 × Status)) : Prop :=
  if cb then ∃ status, calls = [(f, status)] else calls = []

/-- The service as it was constructed, over whatever the kernel and earlier processes left behind. -/
structure Fresh (s : State) : Prop where
  monitor : s.monitor = none
  created : s.mem.mMonitorCreated = false
  applied : s.mem.mCurrentUsbFunctionsApplied = false
  lock : s.lockHeld = false
  trace : s.trace = []

/-- No call of `setCurrentUsbFunctions` was made yet. -/
structure Uncalled (s : State) : Prop where
  monitor : s.monitor = none
  created : s.mem.mMonitorCreated = false
  applied : s.mem.mCurrentUsbFunctionsApplied = false
  lock : s.lockHeld = false
  noFail : NoFail s

/-- Between calls: no call was made yet, or the last one has ended. -/
def Idle (s : State) : Prop := Uncalled s ∨ ∃ f cb v calls, InCall f cb v false calls s ∧ Answers f cb calls

/-- What a successful call for a mask other than `NONE` has done when it ends. -/
structure SetUp (f : UInt64) (s : State) : Prop where
  configured : Configured f s.trace
  vendor : .propChanged ∈ s.trace ∨ vendorOf s.props = vendorRead s.trace

/-- What a call has established when it ends. -/
def post : Req → Status → State → Prop
  | .setCurrentUsbFunctions f cb, status, s =>
    (∃ v calls, InCall f cb v false calls s ∧ Answers f cb calls) ∧
      (status = .success → Complete f (vendorRead s.trace) s ∧ (f ≠ GadgetFunction.none → SetUp f s))
  | _, _, s => Idle s

/-- What a report of the flag as set may rely on: the last call was for the reported mask, and the flag stands for a pull-up of
its configuration, unless it was set late. -/
def Reported (f : UInt64) (s : State) : Prop :=
  (∃ cb rest, s.trace = .entered f cb :: rest) ∧ (AppliedBy f s.trace ∨ LateFlag s.trace)

/-- Every monitored endpoint is in a watched directory. -/
def Watched (s : State) : Prop := ∀ e ∈ s.mem.mEndpointList, e.dir ∈ s.watches

/-- What an answer to a caller of `setCurrentUsbFunctions` may rely on: it is the first of this call, which was for the same mask
and was given a callback, and a success for a mask other than `NONE` follows a pull-up of the configuration. -/
def Answering (f : UInt64) (status : Status) (tr : List Event) : Prop :=
  (∃ rest, tr = .entered f true :: rest) ∧ tr.filterMap Event.call? = [] ∧
    (status = .success → f ≠ GadgetFunction.none → PulledUp f tr)

/-- What an operation of a request may rely on where it is issued. Only the join is issued after the write of the stop flag has
failed. Once the monitor has been started, its descriptors and its endpoints are left alone until the next call. A call pulls the
gadget down only after it has cleared the flag, which then was set late if it is set again. A text that is written into `filepath`
is the path of a function link that was listed. -/
def opPre (q : Req) : Op → State → Prop
  | .writeString content .pullup, s =>
    (content = .gadgetName ∨ q = .reset ∧ Idle s ∨
      .started ∉ s.trace ∧ (s.mem.mCurrentUsbFunctionsApplied = true → LateFlag s.trace)) ∧ NoFail s
  | .sprintf text, s =>
    (∃ names name, .listed names ∈ s.trace ∧ name ∈ names ∧ isFunctionLink name = true ∧ text = configPath ++ '/' :: name) ∧
      NoFail s
  | .join, s =>
    Inv s ∧ s.lockHeld = false ∧ s.monitor.isSome = true ∧
      (Stopping s ∧ NoFail s ∨ .signalled false ∈ s.trace ∧ ¬Stopping s)
  | .lock, s | .cvAcquire, s => s.lockHeld = false ∧ NoFail s
  | .setCurrentUsbFunctionsCb f status, s =>
    q = .setCurrentUsbFunctions f true ∧ Answering f status s.trace ∧ NoFail s
  | .setApplied true, s => s.files .pullup = some .gadgetName ∧ NoFail s
  | .getCurrentUsbFunctionsCb f .functionsApplied, s =>
    s.mem.mCurrentUsbFunctionsApplied = true ∧ Reported f s ∧ NoFail s
  | .store f, s =>
    (f s.mem).mCurrentUsbFunctionsApplied = s.mem.mCurrentUsbFunctionsApplied ∧
      (.started ∈ s.trace → (f s.mem).mEndpointList = s.mem.mEndpointList) ∧ NoFail s
  | .inotifyInit, s | .inotifyAddWatch _, s | .eventfd, s | .closeFds, s => .started ∉ s.trace ∧ NoFail s
  | .spawn, s => Watched s ∧ NoFail s
  | _, s => NoFail s

end Pixel845.Usb
