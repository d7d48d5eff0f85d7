import Pixel845.Usb.Device

/-!
# The monitor thread and the other processes

`monitorFfs` as a step function: one step for each operation another thread or the kernel can observe, with the choice the world
makes there (whether a file operation succeeds, which descriptors are ready, what the clock reads). Local computation is folded
into the step before it. The block under `lock_guard` is one step: it needs `mLock` free, and nothing reads the members between
its assignments without the lock except `getCurrentUsbFunctions`, which reads one of them.

The other moves of the environment are those of other processes: endpoint files appear and disappear, other events arrive at
a watched directory, and system properties change.
-/

namespace Pixel845.Usb

/-- `BUFFER_SIZE`, in bytes. -/
def bufferSize : Nat := 512

/-- `PULL_UP_DELAY`, in microseconds. -/
def pullUpDelay : Nat := 500000

/-- `sizeof(struct inotify_event)`. -/
def inotifyEventSize : Nat := 16

/-- The value by which `tearDownGadget` asks the monitor to stop. -/
def stopFlag : Nat := 100

/-- What `read` on an inotify descriptor returns into a buffer with `room` bytes left: the events that fit, whole. -/
def fitting (room : Nat) : List InotifyEvent → List InotifyEvent
  | [] => []
  | e :: es => if inotifyEventSize + e.len ≤ room then e :: fitting (room - (inotifyEventSize + e.len)) es else []

/-- The descriptors that are ready. -/
def State.readyFds (s : State) : List Fd :=
  (if s.queue = [] then [] else [Fd.inotify]) ++ (if s.eventCount = 0 then [] else [Fd.event])

/-- What the world chooses at a step of the monitor: the operation succeeds or it fails, with what the monitor then reads from
outside its state (the clock after a check, the uninitialised `flag` after a failed read); or `epoll_wait` returns ready
descriptors. -/
inductive MonitorChoice where
  | ok (now : Nat)
  | fail (value : Nat)
  | ready (fds : List Fd)
  deriving DecidableEq, Repr

/-- Where the monitor goes on after a check and what it led to. -/
def CheckFor.next : CheckFor → MonitorPc
  | .start => .epollWait
  | .event batch ready => .handle batch ready

/-- The end of a check that found an endpoint absent. -/
def Monitor.absent (m : Monitor) (c : CheckFor) (now : Nat) : Monitor :=
  match c with
  | .start => { m with pc := c.next }
  | .event _ _ => if m.writeUdc then { m with pc := c.next } else { pc := c.next, writeUdc := true, disconnect := now }

/-- The end of a check that found every endpoint present. -/
def Monitor.allFound (m : Monitor) (c : CheckFor) (now : Nat) : Monitor :=
  match c with
  | .start => { m with pc := .delay c }
  | .event _ _ =>
    if m.writeUdc then
      if now - m.disconnect < pullUpDelay then { m with pc := .delay c } else { m with pc := .pullUp c }
    else { m with pc := c.next }

/-- One step of `monitorFfs`. -/
def monitorStep (ch : MonitorChoice) (s : State) : Option State :=
  match s.monitor with
  | none => none
  | some m =>
    match m.pc, ch with
    | .access j c, .ok now =>
      match s.mem.mEndpointList[j]? with
      | some e => if s.present e then some { s with monitor := some { m with pc := .access (j + 1) c } }
        else some { s.log .foundMissing with monitor := some (m.absent c now) }
      | none => some { s with monitor := some (m.allFound c now) }
    | .access j c, .fail now =>
      if j < s.mem.mEndpointList.length then some { s.log .foundMissing with monitor := some (m.absent c now) } else none
    | .delay c, .ok _ => some { s with monitor := some { m with pc := .pullUp c } }
    | .pullUp c, .ok _ =>
      some { s.write .monitor .gadgetName .pullup true with monitor := some { m with pc := .publish c } }
    | .pullUp c, .fail _ =>
      some { s.write .monitor .gadgetName .pullup false with monitor := some { m with pc := c.next } }
    | .publish c, .ok _ =>
      if s.lockHeld then none
      else some { s.log (.applied .monitor true) with
        mem := { s.mem with mCurrentUsbFunctionsApplied := true, gadgetPullup := true }
        monitor := some { m with pc := c.next, writeUdc := false } }
    | .epollWait, .ready fds =>
      if fds.isPerm s.readyFds ∧ fds ≠ [] then some { s with monitor := some { m with pc := .dispatch fds } } else none
    | .epollWait, .fail _ => some s
    | .dispatch [], .ok _ => some { s with monitor := some { m with pc := .epollWait } }
    | .dispatch (.inotify :: r), .ok _ =>
      if s.queue = [] then none
      else some { s with
        queue := s.queue.drop (fitting bufferSize s.queue).length
        monitor := some { m with pc := .handle (fitting bufferSize s.queue) r } }
    | .dispatch (.inotify :: r), .fail _ => some { s with monitor := some { m with pc := .handle [] r } }
    | .dispatch (.event :: r), .ok _ =>
      if s.eventCount = 0 then none
      else some { s with
        eventCount := 0
        monitor := some { m with pc := if s.eventCount = stopFlag then .done else .dispatch r } }
    | .dispatch (.event :: r), .fail flag =>
      some { s with monitor := some { m with pc := if flag = stopFlag then .done else .dispatch r } }
    | .handle [] r, .ok _ => some { s with monitor := some { m with pc := .dispatch r } }
    | .handle (_ :: batch) r, .ok _ => some { s with monitor := some { m with pc := .access 0 (.event batch r) } }
    | _, _ => none

/-- The monitor thread as `std::thread` starts it. -/
def Monitor.init : Monitor := { pc := .access 0 .start, writeUdc := true, disconnect := 0 }

/-- The moves of the environment. -/
inductive Env where
  | monitor (ch : MonitorChoice)
  | appear (e : Endpoint) (len : Nat)
  | vanish (e : Endpoint) (len : Nat)
  | otherEvent (dir : FfsDir) (len : Nat)
  | setProp (key : PropKey) (value : CStr)
  deriving DecidableEq, Repr

/-- An event in a directory is queued when the directory is watched. -/
def State.notify (s : State) (dir : FfsDir) (len : Nat) : State :=
  if dir ∈ s.watches then { s with queue := s.queue ++ [⟨len⟩] } else s

/-- A move of the environment. The kernel unbinds the gadget when a monitored endpoint disappears. -/
def envStep : Env → State → Option State
  | .monitor ch, s => monitorStep ch s
  | .appear e len, s =>
    if s.present e then none
    else some ({ s with present := fun x => if x = e then true else s.present x }.notify e.dir len)
  | .vanish e len, s =>
    if s.present e then
      some ({ s with
        present := fun x => if x = e then false else s.present x
        bound := if e ∈ s.mem.mEndpointList then false else s.bound }.notify e.dir len)
    else none
  | .otherEvent dir len, s => some (s.notify dir len)
  | .setProp key value, s =>
    some (({ s with props := fun k => if k = key then value else s.props k } : State).log .propChanged)

end Pixel845.Usb
