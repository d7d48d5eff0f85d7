import Pixel845.Usb.Gadget

/-!
# What a configuration is

The purpose of the calls, stated over what they leave behind: which functions a mask and a vendor string ask for, in which order
and with which endpoints, when the events of a call show that it set its configuration up (`Configured`), that the gadget was
then pulled up (`PulledUp`), and that the flag `mCurrentUsbFunctionsApplied` stands for that pull-up (`AppliedBy`).
-/

namespace Pixel845.Usb

/-! ## What a request asks for -/

/-- The vendor string for given property values: what `getVendorFunctions` returns when they do not change while it reads them. -/
def vendorOf (props : PropKey → CStr) : CStr :=
  if props .buildType = "user".toList then "user".toList
  else if props .vendorConfig ≠ [] then props .vendorConfig
  else if props .bootMode = "usbradio".toList then
    if props .persistVendorConfig ≠ [] then props .persistVendorConfig else "diag".toList
  else []

/-- The functions a vendor string asks for: its recognised words, in order. -/
def vendorPlan (v : CStr) : List Function := (strtokWords v).filterMap vendorFunction?

/-- One function, if the mask asks for it. -/
def planIf (functions f : UInt64) (function : Function) : List Function := if has functions f then [function] else []

/-- MTP or, failing that, PTP. -/
def planMtpOrPtp (functions : UInt64) : List Function :=
  if has functions GadgetFunction.mtp then [.ffsMtp] else planIf functions GadgetFunction.ptp .ffsPtp

/-- The functions a mask and a vendor string ask for, in the fixed order. -/
def linkPlan (functions : UInt64) (v : CStr) : List Function :=
  planMtpOrPtp functions ++ planIf functions GadgetFunction.midi .midi ++
    planIf functions GadgetFunction.accessory .accessory ++ planIf functions GadgetFunction.audioSource .audioSource ++
    planIf functions GadgetFunction.rndis .rndis ++ vendorPlan v ++ planIf functions GadgetFunction.adb .ffsAdb

/-- The endpoints of MTP or, failing that, PTP. -/
def endpointsMtpOrPtp (functions : UInt64) : List Endpoint :=
  if has functions GadgetFunction.mtp then ffsEndpoints .mtp
  else if has functions GadgetFunction.ptp then ffsEndpoints .ptp else []

/-- The endpoints the requested FunctionFS functions have. -/
def endpointPlan (functions : UInt64) : List Endpoint :=
  endpointsMtpOrPtp functions ++ (if has functions GadgetFunction.adb then ffsEndpoints .adb else [])

/-- One of MTP, PTP and ADB is requested. -/
def ffsRequested (functions : UInt64) : Bool :=
  (has functions GadgetFunction.mtp || has functions GadgetFunction.ptp) || has functions GadgetFunction.adb

/-- Functions with their indices, from 0. -/
def numbered (fns : List Function) : List (Function × Nat) := fns.zipIdx

/-- The links of a list of functions: `function0`, `function1`, ... -/
def linksOf (fns : List Function) : List Link := (numbered fns).map (fun x => ⟨functionLink x.2, some x.1⟩)

/-! ## What a call leaves behind -/

/-- The writes of the identifiers, with their outcome. -/
def Event.idWrite? : Event → Option (Path × Content × Bool)
  | .wrote .main content .vendorId ok => some (.vendorId, content, ok)
  | .wrote .main content .productId ok => some (.productId, content, ok)
  | _ => none

/-- The calls of `linkFunction`, with their outcome. -/
def Event.link? : Event → Option (Function × Nat × Bool)
  | .linked function index ok => some (function, index, ok)
  | _ => none

/-- The reads of one property. -/
def Event.read? (key : PropKey) : Event → Option CStr
  | .got k value => if k = key then some value else none
  | _ => none

/-- The invocations of the callback. -/
def Event.call? : Event → Option (UInt64 × Status)
  | .called functions status => some (functions, status)
  | _ => none

/-- A successful pull-up of the gadget. -/
def pullUpEvent (who : Who) : Event := .wrote who .gadgetName .pullup true

/-- What was last read of each property. -/
def lastRead (tr : List Event) (key : PropKey) : CStr := ((tr.filterMap (Event.read? key)).getLast?).getD []

/-- The vendor string a call linked by: what the last reads of the properties determine. -/
def vendorRead (tr : List Event) : CStr := vendorOf (lastRead tr)

/-- The events show a configuration that was set up: both identifiers of the mask were written, for a vendor string that was
also the one linked by unless another process changed a property; and every function the mask and the vendor string ask for was
linked, each at its index, with no failure. -/
def Configured (functions : UInt64) (tr : List Event) : Prop :=
  ∃ v vid pid, chooseVidPid functions v = some (vid, pid) ∧ (.propChanged ∉ tr → v = vendorRead tr) ∧
    tr.filterMap Event.idWrite? = [(.vendorId, .hex vid, true), (.productId, .hex pid, true)] ∧
    tr.filterMap Event.link? = (numbered (linkPlan functions (vendorRead tr))).map (fun x => (x.1, x.2, true))

/-- The gadget was pulled up after its configuration had been set up. -/
def PulledUp (functions : UInt64) (tr : List Event) : Prop :=
  ∃ a b who, tr = a ++ pullUpEvent who :: b ∧ Configured functions a

/-- An assignment of `mCurrentUsbFunctionsApplied`. -/
def Event.isApplied : Event → Bool
  | .applied _ _ => true
  | _ => false

/-- A write by one of the threads. -/
def Event.isWriteOf (who : Who) : Event → Bool
  | .wrote w _ _ _ => decide (w = who)
  | _ => false

/-- The last assignment of the flag set it, after the thread that did so had pulled the gadget up with its last write, after the
configuration had been set up. -/
def AppliedBy (functions : UInt64) (tr : List Event) : Prop :=
  ∃ a b c who, tr = a ++ pullUpEvent who :: (b ++ .applied who true :: c) ∧ Configured functions a ∧
    (∀ e ∈ b, e.isWriteOf who = false) ∧ ∀ e ∈ c, e.isApplied = false

/-- The monitor set the flag before this call started it: it was the monitor of an earlier call. -/
def LateFlag (tr : List Event) : Prop := ∃ a b, tr = a ++ .applied .monitor true :: b ∧ .started ∉ a

/-- The monitor thread is running. -/
def State.monitorRunning (s : State) : Bool :=
  match s.monitor with
  | some m => decide (m.pc ≠ .done)
  | none => false

/-- The links of the configuration that are function links. -/
def State.functionLinks (s : State) : List Link := s.links.filter (fun l => isFunctionLink l.name)

/-- The links, the endpoints and the monitor are exactly those the request asks for, by a vendor string. -/
def Complete (functions : UInt64) (v : CStr) (s : State) : Prop :=
  s.functionLinks = (if functions = GadgetFunction.none then [] else linksOf (linkPlan functions v)) ∧
    s.mem.mEndpointList = endpointPlan functions ∧ s.monitorRunning = ffsRequested functions

end Pixel845.Usb
