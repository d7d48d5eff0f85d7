import Pixel845.Lemmas.UsbIdentity

/-!
# Linking the functions

`linkFunctions` meets its specification: it links what the mask and the vendor string ask for, in the fixed order and each at its
index, and adds the endpoints of the FunctionFS functions in watched directories, or it fails (`linkFunctions_meets`). Each branch
adds its own functions and endpoints to those linked before it.
-/

namespace Pixel845.Usb

variable {q : Req} {f : UInt64} {cb : Bool} {v : CStr} {lock : Bool}

/-! ## Names and indices -/

/-- Another function has the next number. -/
theorem numbered_concat (fns : List Function) (function : Function) :
    numbered (fns ++ [function]) = numbered fns ++ [(function, fns.length)] := by
  simp [numbered, List.zipIdx_append]

/-- Another function has its link behind the others. -/
theorem linksOf_concat (fns : List Function) (function : Function) :
    linksOf (fns ++ [function]) = linksOf fns ++ [⟨functionLink fns.length, some function⟩] := by
  simp [linksOf, numbered_concat]

/-- `unlinkFunctions` knows the links that `linkFunction` makes. -/
theorem isFunctionLink_functionLink (index : Nat) : isFunctionLink (functionLink index) = true := by
  unfold isFunctionLink functionLink
  exact decide_eq_true ⟨[], _, rfl⟩

/-! ## The call while it sets up -/

/-- The vendor configuration outlasts events that do not read it. -/
theorem Vendor.append {w : CStr} {s s' : State} {evs : List Event} (h : Vendor v w s) (ht : s'.trace = s.trace ++ evs)
    (he : ∀ e ∈ evs, ∀ key, e.read? key = none) : Vendor v w s' := by
  have hr : lastRead s'.trace = lastRead s.trace := by
    funext key
    unfold lastRead
    rw [ht, filterMap_append_none _ _ _ (fun e hm => he e hm key)]
  refine ⟨by rw [vendorRead, hr]; exact h.1, ?_⟩
  rw [ht]
  exact h.2.imp_left (List.mem_append_left _)

/-- How far the linking has come: the functions linked, the endpoints listed, the directories watched, whether one of the
functions is a FunctionFS function, and the vendor string once it was read. -/
structure Progress where
  fns : List Function
  endpoints : List Endpoint
  watches : List FfsDir
  ffsEnabled : Bool
  vendor : Option CStr

/-- Nothing is linked yet. -/
def Progress.start : Progress := { fns := [], endpoints := [], watches := [], ffsEnabled := false, vendor := none }

/-- One more function is linked. -/
def Progress.add (g : Progress) (function : Function) : Progress := { g with fns := g.fns ++ [function] }

/-- More functions are linked. -/
def Progress.addAll (g : Progress) (fns : List Function) : Progress := { g with fns := g.fns ++ fns }

/-- A FunctionFS function is linked, its endpoints are listed and their directory is watched. -/
def Progress.addFfs (g : Progress) (dir : FfsDir) (function : Function) : Progress :=
  { g with
    fns := g.fns ++ [function]
    endpoints := g.endpoints ++ ffsEndpoints dir
    watches := g.watches ++ [dir]
    ffsEnabled := true }

/-- What `setupFunctions` keeps of it in its local variables. -/
def Progress.setup (g : Progress) : Setup := { index := g.fns.length, ffsEnabled := g.ffsEnabled }

/-- The identifiers are written, and the linking has come exactly so far; the vendor string, once it was read, is the one the last
reads determine. -/
structure Building (f : UInt64) (cb : Bool) (v : CStr) (lock : Bool) (g : Progress) (s : State) : Prop
    extends InCall f cb v lock [] s where
  gone : s.monitor = none
  notStarted : .started ∉ s.trace
  identity : Identity f v s.trace
  linked : s.trace.filterMap Event.link? = (numbered g.fns).map (fun x => (x.1, x.2, true))
  links : s.functionLinks = linksOf g.fns
  endpoints : s.mem.mEndpointList = g.endpoints
  watches : s.watches = g.watches
  watched : ∀ e ∈ g.endpoints, e.dir ∈ g.watches
  vendor : ∀ w, g.vendor = some w → Vendor v w s

variable {g g' : Progress}

theorem inCall_stable {calls : List (UInt64 × Status)} : gadgetMachine.Stable (InCall f cb v lock calls) :=
  fun _ _ _ h he => h.env he

theorem Building.stable : gadgetMachine.Stable (Building f cb v lock g) := by
  intro e s s' h he
  have hfr := envStep_frame he
  refine ⟨h.toInCall.env he, (envStep_alone he h.gone).2.2.2.1, ?_, ?_, ?_, by rw [functionLinks_env he]; exact h.links,
    by rw [hfr.endpoints]; exact h.endpoints, by rw [hfr.watches]; exact h.watches, h.watched,
    fun w hw => Vendor.stable w e s s' (h.vendor w hw) he⟩
  · rw [started_env hfr.trace]
    exact h.notStarted
  · obtain ⟨evs, ht, hev⟩ := hfr.trace
    rw [ht]
    exact h.identity.append (fun e hm => (neutral_of_isEnv (hev e hm)).1)
  · rw [filterMap_env (fun e he => (neutral_of_isEnv he).2.1) hfr.trace]
    exact h.linked

/-- What a step of setting up has to keep beyond the call itself: it writes no identifier, and reads no property once the vendor
string is known. -/
structure Building.Keeps (g : Progress) (s s' : State) (evs : List Event) : Prop extends AloneStep s s' evs where
  created : s'.mem.mMonitorCreated = s.mem.mMonitorCreated
  noId : ∀ e ∈ evs, e.idWrite? = none
  noRead : g.vendor ≠ none → ∀ e ∈ evs, ∀ key, e.read? key = none

/-- A step of setting up that neither links nor lists anything. -/
theorem Building.quiet {lock' : Bool} {s s' : State} {evs : List Event} (h : Building f cb v lock g s)
    (hs : Building.Keeps g s s' evs) (hl : s'.lockHeld = lock') (hp : .propChanged ∈ s.trace ∨ vendorOf s'.props = v)
    (hlk : ∀ e ∈ evs, e.link? = none) (hln : s'.links = s.links) (hep : s'.mem.mEndpointList = s.mem.mEndpointList)
    (hw : s'.watches = s.watches) : Building f cb v lock' g s' := by
  refine ⟨h.toInCall.alone h.notStarted hs.toAloneStep h.gone hs.created hl hp, hs.alone,
    hs.toAloneStep.notStarted h.notStarted, ?_, ?_, ?_, hep.trans h.endpoints, hw.trans h.watches, h.watched, ?_⟩
  · rw [hs.trace]
    exact h.identity.append hs.noId
  · rw [hs.trace, filterMap_append_none _ _ _ hlk]
    exact h.linked
  · unfold State.functionLinks
    rw [hln]
    exact h.links
  · intro w hr
    exact (h.vendor w hr).append hs.trace (hs.noRead (by simp [hr]))

/-- A step of setting up that logs nothing and changes neither members nor properties. -/
theorem Building.silent {lock' : Bool} {s s' : State} (h : Building f cb v lock g s) (hm : s'.mem = s.mem)
    (hmon : s'.monitor = none) (ht : s'.trace = s.trace) (hl : s'.lockHeld = lock') (hp : s'.props = s.props)
    (hln : s'.links = s.links) (hw : s'.watches = s.watches) : Building f cb v lock' g s' := by
  have hs : Building.Keeps g s s' [] :=
    ⟨.silent (by rw [hm]) (by rw [hm]) hmon ht, by rw [hm], by simp, by simp⟩
  exact h.quiet hs hl (by rw [hp]; exact h.props) (by simp) hln (by rw [hm]) hw

/-- A call that sets up may read and set properties until it knows the vendor string. -/
theorem Building.readable (hg : g.vendor = none) : Readable f cb v lock (Building f cb v lock g) := by
  refine ⟨Building.stable, fun s h => h.toInCall, ?_, ?_⟩
  · intro s key h
    have hs : Building.Keeps g s (s.log (.got key (s.props key))) [.got key (s.props key)] :=
      ⟨⟨rfl, rfl, h.gone, rfl, fun e he => List.mem_singleton.mp he ▸ plain_got key _⟩, rfl, by simp [Event.idWrite?],
        fun hn => absurd hg hn⟩
    exact h.quiet hs h.lock h.props (by simp [Event.link?]) rfl rfl rfl
  · intro s props h hp
    have hs : Building.Keeps g s { s with props := props } [] := ⟨.silent rfl rfl h.gone rfl, rfl, by simp, by simp⟩
    exact h.quiet hs h.lock hp (by simp) rfl rfl rfl

/-- A write that is not one of an identifier. -/
theorem Building.write {s : State} (h : Building f cb v lock g s) (content : Content) {path : Path} (ok : Bool)
    (hv : path ≠ .vendorId) (hp : path ≠ .productId) : Building f cb v lock g (s.write .main content path ok) := by
  have hs : Building.Keeps g s (s.write .main content path ok) [.wrote .main content path ok] := by
    refine ⟨⟨by simp, by simp, by simp [h.gone], by simp, fun e he => List.mem_singleton.mp he ▸ plain_wrote _ _ _⟩, by simp,
      fun e he => ?_, by simp [Event.read?]⟩
    rw [List.mem_singleton.mp he]
    cases path with
    | vendorId => exact absurd rfl hv
    | productId => exact absurd rfl hp
    | _ => rfl
  exact h.quiet hs (by simp [h.lock]) (by simp [h.props]) (by simp [Event.link?]) (by simp) (by simp) (by simp)

/-- A write of a descriptor leaves the progress of the setup. -/
theorem Building.writeString (content : Content) {path : Path} (hv : path ≠ .vendorId) (hp : path ≠ .productId)
    (hu : path ≠ .pullup) :
    UsbMeets q (Building f cb v lock g) (perform (.writeString content path)) (fun _ => Building f cb v lock g) := by
  refine Machine.Meets.call Building.stable (fun s h => ?_) (fun _ => Building.stable) (fun ch s r s' h hx => ?_)
  · cases path with
    | pullup => exact absurd rfl hu
    | _ => exact h.noFail
  rw [writeString_eq hx]
  exact h.write content r hv hp

/-! ## Linking one function -/

/-- Where the linking has come to: it has failed, or it goes on. -/
def Linked (f : UInt64) (cb : Bool) (v : CStr) (g : Progress) : Option Setup → State → Prop
  | none, s => InCall f cb v true [] s
  | some st, s => st = g.setup ∧ Building f cb v true g s

/-- A function is linked under the next number, or the call goes on to fail. -/
theorem linkFunction_meets (function : Function) :
    UsbMeets q (Building f cb v true g) (linkFunction function g.fns.length)
      (fun rc s => if rc = 0 then Building f cb v true (g.add function) s else InCall f cb v true [] s) := by
  refine Machine.Meets.bind (R := fun ok s =>
    if ok then Building f cb v true (g.add function) s else InCall f cb v true [] s) ?_ (fun ok => ?_)
  · refine Machine.Meets.call Building.stable (fun s h => h.noFail) (fun ok => ?_) (fun ch s ok s' h hx => ?_)
    · cases ok
      · exact inCall_stable
      · exact Building.stable
    · have hplain : ∀ ok, ∀ e ∈ [Event.linked function g.fns.length ok], e.Plain :=
        fun ok e he => List.mem_singleton.mp he ▸ plain_linked function g.fns.length ok
      cases ch with
      | ok =>
        simp only [gadgetMachine, exec] at hx
        split at hx
        · cases hx
        · cases hx
          have hcall : InCall f cb v true [] (({ s with
              links := s.links ++ [⟨functionLink g.fns.length, some function⟩] } : State).log
              (.linked function g.fns.length true)) :=
            h.toInCall.alone h.notStarted ⟨rfl, rfl, h.gone, rfl, hplain true⟩ h.gone rfl h.lock h.props
          refine ⟨hcall, h.gone, ?_, h.identity.append (by simp [Event.idWrite?]), ?_, ?_, h.endpoints, h.watches, h.watched,
            fun w hw => (h.vendor w hw).append rfl (by simp [Event.read?])⟩
          · simp [State.log, h.notStarted]
          · simp [State.log, List.filterMap_append, h.linked, Progress.add, numbered_concat, Event.link?]
          · have hlinks : s.links.filter (fun l => isFunctionLink l.name) = linksOf g.fns := h.links
            simp [State.functionLinks, State.log, hlinks, Progress.add, linksOf_concat, isFunctionLink_functionLink]
      | fail =>
        cases hx
        exact h.toInCall.alone h.notStarted ⟨rfl, rfl, h.gone, rfl, hplain false⟩ h.gone rfl h.lock h.props
      | listing names => cases hx
  · cases ok
    · exact Machine.Meets.ret inCall_stable (fun s h => h)
    · exact Machine.Meets.ret Building.stable (fun s h => h)

/-- Linking a function makes progress by it. -/
theorem link_meets (function : Function) :
    UsbMeets q (Building f cb v true g) (link function g.setup) (Linked f cb v (g.add function)) := by
  refine Machine.Meets.bind (linkFunction_meets function) (fun rc => ?_)
  by_cases hrc : rc = 0
  · simp only [hrc, ne_eq, not_true_eq_false, if_false, if_true]
    exact Machine.Meets.ret Building.stable (fun s h => ⟨by simp [Progress.setup, Progress.add], h⟩)
  · simp only [hrc, ne_eq, not_false_eq_true, if_true, if_false]
    exact Machine.Meets.ret inCall_stable (fun s h => h)

/-- Going on with the next branch. -/
theorem orReturn_meets {P : State → Prop} {Q : Option Setup → State → Prop} {p : UsbM (Option Setup)}
    {k : Setup → UsbM (Option Setup)} (h : UsbMeets q P p (Linked f cb v g)) (hfail : ∀ s, InCall f cb v true [] s → Q none s)
    (hk : UsbMeets q (Building f cb v true g) (k g.setup) Q) : UsbMeets q P (orReturn p k) Q := by
  refine Machine.Meets.bind h (fun r => ?_)
  cases r with
  | none => exact Machine.Meets.ret inCall_stable hfail
  | some st =>
    refine Machine.Meets.lift (fun hst => ?_)
    rw [hst]
    exact hk

/-- A branch that links one function if the mask asks for it. -/
theorem linkIf_meets (mask : UInt64) (function : Function) :
    UsbMeets q (Building f cb v true g) (linkIf f mask function g.setup)
      (Linked f cb v (g.addAll (planIf f mask function))) := by
  unfold linkIf planIf
  by_cases hm : has f mask
  · rw [if_pos hm, if_pos hm]
    exact link_meets function
  · rw [if_neg hm, if_neg hm]
    exact Machine.Meets.ret Building.stable (fun s h => by simpa [Linked, Progress.addAll] using h)

/-! ## The FunctionFS functions -/

/-- The endpoints of a directory lie in it. -/
theorem ffsEndpoints_dir (dir : FfsDir) : ∀ e ∈ ffsEndpoints dir, e.dir = dir := by
  cases dir <;> simp [ffsEndpoints]

/-- Adding a watch. -/
theorem Building.addWatch (dir : FfsDir) :
    UsbMeets q (Building f cb v true g) (perform (.inotifyAddWatch dir))
      (fun ok s => Building f cb v true (if ok then { g with watches := g.watches ++ [dir] } else g) s) := by
  refine Machine.Meets.call Building.stable (fun s h => ⟨h.notStarted, h.noFail⟩) (fun _ => Building.stable) ?_
  intro ch s ok s' h hx
  rcases mayFail_cases hx with ⟨rfl, rfl⟩ | ⟨rfl, rfl⟩
  · exact ⟨h.toInCall.alone h.notStarted (.silent rfl rfl h.gone rfl) h.gone rfl h.lock h.props, h.gone, h.notStarted,
      h.identity, h.linked, h.links, h.endpoints, by rw [if_pos rfl, h.watches],
      fun e he => List.mem_append_left _ (h.watched e he), h.vendor⟩
  · exact h

/-- The endpoints of a watched directory are listed. -/
theorem Building.list {s : State} {dir : FfsDir} (h : Building f cb v true g s) (hd : dir ∈ g.watches) :
    Building f cb v true { g with endpoints := g.endpoints ++ ffsEndpoints dir, ffsEnabled := true }
      { s with mem := { s.mem with mEndpointList := s.mem.mEndpointList ++ ffsEndpoints dir } } := by
  refine ⟨h.toInCall.alone h.notStarted (.silent rfl rfl h.gone rfl) h.gone rfl h.lock h.props, h.gone, h.notStarted,
    h.identity, h.linked, h.links, by rw [h.endpoints], h.watches, ?_, h.vendor⟩
  intro e he
  rcases List.mem_append.mp he with he | he
  · exact h.watched e he
  · rw [ffsEndpoints_dir dir e he]
    exact hd

/-- Linking a function of the function file system also watches its endpoints. -/
theorem linkFfs_meets (dir : FfsDir) (function : Function) :
    UsbMeets q (Building f cb v true g) (linkFfs dir function g.setup) (Linked f cb v (g.addFfs dir function)) := by
  have hfail : UsbMeets q (Building f cb v true g) (pure none) (Linked f cb v (g.addFfs dir function)) :=
    Machine.Meets.ret Building.stable (fun s h => h.toInCall)
  refine Machine.Meets.bind (Building.writeString .one (by simp) (by simp) (by simp)) (fun descUse1 => ?_)
  cases descUse1
  · exact hfail
  refine Machine.Meets.bind (Building.addWatch dir) (fun watched => ?_)
  cases watched
  · exact hfail
  refine Machine.Meets.bind (link_meets (g := { g with watches := g.watches ++ [dir] }) function) (fun linked => ?_)
  cases linked with
  | none => exact Machine.Meets.ret inCall_stable (fun s h => h)
  | some st =>
    refine Machine.Meets.lift (fun hst => ?_)
    rw [hst]
    refine Machine.Meets.bind (R := fun _ => Building f cb v true (g.addFfs dir function)) ?_ (fun _ => ?_)
    · refine store_meets Building.stable Building.stable (fun s h => ⟨h.notStarted, h.noFail⟩) (fun m => rfl) ?_
      exact fun s h => h.list (by simp [Progress.add])
    · exact Machine.Meets.ret Building.stable (fun s h => ⟨rfl, h⟩)

/-- How far the linking has come after MTP or, failing that, PTP. -/
def Progress.mtpOrPtp (f : UInt64) : Progress :=
  if has f GadgetFunction.mtp then Progress.start.addFfs .mtp .ffsMtp
  else if has f GadgetFunction.ptp then Progress.start.addFfs .ptp .ffsPtp
  else Progress.start

/-- Linking MTP or PTP. -/
theorem linkMtpOrPtp_meets :
    UsbMeets q (Building f cb v true Progress.start) (linkMtpOrPtp f { index := 0, ffsEnabled := false })
      (Linked f cb v (Progress.mtpOrPtp f)) := by
  unfold linkMtpOrPtp Progress.mtpOrPtp
  by_cases hm : has f GadgetFunction.mtp
  · rw [if_pos hm, if_pos hm]
    exact linkFfs_meets .mtp .ffsMtp
  rw [if_neg hm, if_neg hm]
  by_cases hp : has f GadgetFunction.ptp
  · rw [if_pos hp, if_pos hp]
    exact linkFfs_meets .ptp .ffsPtp
  · rw [if_neg hp, if_neg hp]
    exact Machine.Meets.ret Building.stable (fun s h => ⟨rfl, h⟩)

/-- How far the linking has come after ADB. -/
def Progress.adb (g : Progress) (f : UInt64) : Progress :=
  if has f GadgetFunction.adb then g.addFfs .adb .ffsAdb else g

/-- Linking ADB. -/
theorem linkAdb_meets :
    UsbMeets q (Building f cb v true g) (linkAdb f g.setup) (Linked f cb v (g.adb f)) := by
  unfold linkAdb Progress.adb
  by_cases ha : has f GadgetFunction.adb
  · rw [if_pos ha, if_pos ha]
    exact linkFfs_meets .adb .ffsAdb
  · rw [if_neg ha, if_neg ha]
    exact Machine.Meets.ret Building.stable (fun s h => ⟨rfl, h⟩)

/-! ## The vendor functions -/

/-- The loop links the words it knows, in order. -/
theorem linkVendorWords_meets (words : List CStr) (g : Progress) :
    UsbMeets q (Building f cb v true g) (linkVendorWords words g.setup)
      (Linked f cb v (g.addAll (words.filterMap vendorFunction?))) := by
  induction words generalizing g with
  | nil => exact Machine.Meets.ret Building.stable (fun s h => by simpa [Linked, Progress.addAll] using h)
  | cons word words ih =>
    unfold linkVendorWords
    cases hw : vendorFunction? word with
    | none =>
      rw [List.filterMap_cons_none hw]
      exact ih g
    | some function =>
      rw [List.filterMap_cons_some hw]
      have hrest : g.addAll (function :: words.filterMap vendorFunction?) =
          (g.add function).addAll (words.filterMap vendorFunction?) := by
        simp [Progress.addAll, Progress.add]
      rw [hrest]
      exact orReturn_meets (link_meets function) (fun s h => h) (ih (g.add function))

/-- The vendor string was read, and what it asks for is linked. -/
def Progress.addVendor (g : Progress) (w : CStr) : Progress := { g with fns := g.fns ++ vendorPlan w, vendor := some w }

theorem vendorPlan_nil : vendorPlan [] = [] := by
  simp [vendorPlan, strtokWords]

/-- Linking the functions of the vendor configuration. -/
theorem linkVendor_meets (hg : g.vendor = none) :
    UsbMeets q (Building f cb v true g) (linkVendor g.setup) (fun r s => ∃ w, Linked f cb v (g.addVendor w) r s) := by
  refine Machine.Meets.bind (getVendorFunctions_meets (Building.readable hg)) (fun w => ?_)
  have hknown : ∀ s, Building f cb v true g s ∧ Vendor v w s → Building f cb v true { g with vendor := some w } s := by
    rintro s ⟨h, hw⟩
    refine { h with vendor := fun w' hw' => ?_ }
    rw [← Option.some.inj hw']
    exact hw
  by_cases hw : w = []
  · rw [if_neg (by simp [hw])]
    have hadd : g.addVendor w = { g with vendor := some w } := by
      simp [Progress.addVendor, hw, vendorPlan_nil]
    refine Machine.Meets.ret (Building.stable.and (Vendor.stable w)) (fun s h => ⟨w, ?_⟩)
    rw [hadd]
    exact ⟨rfl, hknown s h⟩
  · rw [if_pos hw]
    exact (linkVendorWords_meets (strtokWords w) { g with vendor := some w }).mono hknown (fun r s h => ⟨w, h⟩)

/-! ## All branches -/

/-- How far the linking has come before the vendor functions. -/
def Progress.simple (f : UInt64) : Progress :=
  ((((Progress.mtpOrPtp f).addAll (planIf f GadgetFunction.midi .midi)).addAll
    (planIf f GadgetFunction.accessory .accessory)).addAll (planIf f GadgetFunction.audioSource .audioSource)).addAll
    (planIf f GadgetFunction.rndis .rndis)

/-- How far the linking has come at its end. -/
def Progress.final (f : UInt64) (w : CStr) : Progress := ((Progress.simple f).addVendor w).adb f

/-- The simple functions are none of the vendor configuration. -/
theorem simple_vendor (f : UInt64) : (Progress.simple f).vendor = none := by
  simp only [Progress.simple, Progress.addAll, Progress.mtpOrPtp]
  split
  · rfl
  · split <;> rfl

/-- What is linked in the end is the plan. -/
theorem final_fns (f : UInt64) (w : CStr) : (Progress.final f w).fns = linkPlan f w := by
  have hsimple : (Progress.simple f).fns = planMtpOrPtp f ++ planIf f GadgetFunction.midi .midi ++
      planIf f GadgetFunction.accessory .accessory ++ planIf f GadgetFunction.audioSource .audioSource ++
      planIf f GadgetFunction.rndis .rndis := by
    simp only [Progress.simple, Progress.addAll, Progress.mtpOrPtp, planMtpOrPtp, planIf]
    by_cases hm : has f GadgetFunction.mtp
    · simp [hm, Progress.start, Progress.addFfs]
    · by_cases hp : has f GadgetFunction.ptp
      · simp [hm, hp, Progress.start, Progress.addFfs]
      · simp [hm, hp, Progress.start]
  unfold Progress.final Progress.adb linkPlan
  by_cases ha : has f GadgetFunction.adb
  · have hplan : planIf f GadgetFunction.adb .ffsAdb = [.ffsAdb] := if_pos ha
    simp [ha, hplan, Progress.addFfs, Progress.addVendor, hsimple]
  · have hplan : planIf f GadgetFunction.adb .ffsAdb = [] := if_neg ha
    simp [ha, hplan, Progress.addVendor, hsimple]

/-- What is watched in the end are the endpoints of the plan. -/
theorem final_endpoints (f : UInt64) (w : CStr) : (Progress.final f w).endpoints = endpointPlan f := by
  have hsimple : (Progress.simple f).endpoints = endpointsMtpOrPtp f := by
    simp only [Progress.simple, Progress.addAll, Progress.mtpOrPtp, endpointsMtpOrPtp]
    split
    · rfl
    · split <;> rfl
  unfold Progress.final Progress.adb endpointPlan
  by_cases ha : has f GadgetFunction.adb
  · simp [ha, Progress.addFfs, Progress.addVendor, hsimple]
  · simp [ha, Progress.addVendor, hsimple]

/-- The function file system is needed if a function that uses it was asked for. -/
theorem final_ffsEnabled (f : UInt64) (w : CStr) : (Progress.final f w).ffsEnabled = ffsRequested f := by
  have hsimple : (Progress.simple f).ffsEnabled = (has f GadgetFunction.mtp || has f GadgetFunction.ptp) := by
    simp only [Progress.simple, Progress.addAll, Progress.mtpOrPtp]
    by_cases hm : has f GadgetFunction.mtp
    · simp [hm, Progress.addFfs]
    · by_cases hp : has f GadgetFunction.ptp
      · simp [hm, hp, Progress.addFfs]
      · simp [hm, hp, Progress.start]
  unfold Progress.final Progress.adb ffsRequested
  by_cases ha : has f GadgetFunction.adb
  · simp [ha, Progress.addFfs]
  · simp [ha, Progress.addVendor, hsimple]

/-- The vendor configuration has been read in the end. -/
theorem final_vendor (f : UInt64) (w : CStr) : (Progress.final f w).vendor = some w := by
  unfold Progress.final Progress.adb
  split <;> rfl

/-- What a mask and the vendor string ask for is linked and listed, or the linking has failed. -/
theorem linkFunctions_meets :
    UsbMeets q (Building f cb v true Progress.start) (linkFunctions f)
      (fun r s => ∃ w, Linked f cb v (Progress.final f w) r s) := by
  have hsimple : UsbMeets q (Building f cb v true Progress.start) _ (Linked f cb v (Progress.simple f)) :=
    orReturn_meets (orReturn_meets (orReturn_meets (orReturn_meets
      linkMtpOrPtp_meets (fun s h => h) (linkIf_meets GadgetFunction.midi .midi)) (fun s h => h)
      (linkIf_meets GadgetFunction.accessory .accessory)) (fun s h => h)
      (linkIf_meets GadgetFunction.audioSource .audioSource)) (fun s h => h) (linkIf_meets GadgetFunction.rndis .rndis)
  refine Machine.Meets.bind (orReturn_meets hsimple (fun s h => ⟨[], h⟩) (linkVendor_meets (simple_vendor f))) (fun r => ?_)
  refine Machine.Meets.exists (fun w => ?_)
  cases r with
  | none => exact Machine.Meets.ret inCall_stable (fun s h => ⟨w, h⟩)
  | some st =>
    refine Machine.Meets.lift (fun hst => ?_)
    rw [hst]
    exact linkAdb_meets.mono (fun s h => h) (fun r s h => ⟨w, h⟩)

end Pixel845.Usb
