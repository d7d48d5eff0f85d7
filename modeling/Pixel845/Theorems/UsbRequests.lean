import Pixel845.Theorems.UsbStatus

/-!
# What a successful request leaves behind

A successful `setCurrentUsbFunctions` leaves exactly the links, the endpoints and the monitor that its mask and the vendor string
ask for, whatever was there before, if the names of the function links it finds fit into `filepath` (`successful_call_complete`).
Of the identity it writes, only the masks with the accessory or the audio source do not determine the links: for them
`validateAndSetVidPid` only logs an unexpected vendor string, which `setupFunctions` then links (`same_identity_same_links_iff`).
-/

namespace Pixel845.Usb

/-! ## Nothing is left over -/

/-- The text that a call is about to write into `filepath`. -/
def printing (c : Service) : Option CStr :=
  match c.thread with
  | some (_, .op (.sprintf text) _) => some text
  | _ => none

/-- A service that prints stands before the call. -/
theorem printing_cases {c : Service} {text : CStr} (h : printing c = some text) :
    ∃ q k, c.thread = some (q, .op (.sprintf text) k) := by
  obtain ⟨s, t⟩ := c
  unfold printing at h
  split at h
  · rename_i q text' k ht
    cases h
    exact ⟨q, k, ht⟩
  · cases h

/-- A call that returns success leaves exactly what it was asked for, and no call writes behind the end of `filepath`, the `NUL`
behind a text included. -/
structure Clean (c : Service) : Prop where
  complete : ∀ f cb, serving c = some (.setCurrentUsbFunctions f cb, some .success) →
    Complete f (vendorRead c.state.trace) c.state
  inside : ∀ text, printing c = some text → text.length + 1 ≤ maxFilePathLength

/-- The directory of the configuration is opened while no name of a function link in it has more than 220 bytes: `CONFIG_PATH`,
which has 34, a slash, the name and a `NUL` then fit into `filepath`. -/
def namesFit (o : Op) (_ : Choice) (s : State) : Bool :=
  match o with
  | .opendir => s.links.all fun l => !isFunctionLink l.name || decide (l.name.length ≤ 220)
  | _ => true

/-- The service in the runs in which the names of the function links fit. -/
def fittingMachine : Machine Op Op.Res State Choice Env := gadgetMachine.guard (fun _ _ => true) namesFit

namespace UsbLinksAux

/-- The function links that were listed have names that fit. -/
def ListedFit (tr : List Event) : Prop :=
  ∀ names, .listed names ∈ tr → ∀ name ∈ names, isFunctionLink name = true → name.length ≤ 220

/-- Names that fit go on fitting. -/
theorem ListedFit.append {tr evs : List Event} (h : ListedFit tr)
    (he : ∀ names, .listed names ∈ evs → ∀ name ∈ names, isFunctionLink name = true → name.length ≤ 220) :
    ListedFit (tr ++ evs) := by
  intro names hm
  rcases List.mem_append.mp hm with hm | hm
  · exact h names hm
  · exact he names hm

/-- The environment lists no names. -/
theorem listedFit_env {e : Env} {s s' : State} (h : ListedFit s.trace) (he : envStep e s = some s') : ListedFit s'.trace := by
  obtain ⟨evs, ht, hev⟩ := (envStep_frame he).trace
  rw [ht]
  refine h.append fun names hm => ?_
  cases hev _ hm

/-- A listing that is made while the names fit is one of names that fit. -/
theorem listedFit_exec {o : Op} {ch : Choice} {s s' : State} {r : o.Res} (h : ListedFit s.trace)
    (hg : namesFit o ch s = true) (hx : exec o ch s = some (r, s')) : ListedFit s'.trace := by
  rcases (exec_frame hx).trace with ⟨f, cb, ht⟩ | ⟨evs, ht, hev⟩
  · rw [ht]
    intro names hm
    simp at hm
  · rw [ht]
    refine h.append fun names hm name hn hf => ?_
    obtain ⟨rfl, rfl⟩ := (hev _ hm).2.2 names rfl
    simp only [exec, Option.ite_none_right_eq_some] at hx
    obtain ⟨l, hl, rfl⟩ := List.mem_map.mp ((List.isPerm_iff.mp hx.1).mem_iff.mp hn)
    have hfit := List.all_eq_true.mp hg l hl
    simpa [hf] using hfit

end UsbLinksAux

open UsbLinksAux in
/-- From any links, endpoints and files that were there before, and through any failures of earlier calls, in every run in which
the names of the function links fit: a call that returns success leaves exactly what it was asked for, and no call writes behind
`filepath`. -/
theorem successful_call_complete {s : State} {c : Service} (hs : Fresh s) (h : fittingMachine.Reaches body ⟨s, none⟩ c) :
    Clean c := by
  have hok := service_ok (.inl hs.uncalled) h.of_guard
  have hfit : ListedFit c.state.trace := by
    refine h.invariant (I := fun d => ListedFit d.state.trace) ?_ fun a d d' hd hst => ?_
    · intro names hm
      simp [hs.trace] at hm
    · rcases Machine.step_cases hst with ⟨e, -, he, -⟩ | ⟨ch, q, o, k, r, -, -, hx, -⟩ | ⟨q, x, -, -, rfl⟩ | ⟨q, -, -, rfl⟩
      · exact listedFit_env hd (Machine.guard_env he).2
      · exact listedFit_exec hd (Machine.guard_exec hx).1 (Machine.guard_exec hx).2
      · exact hd
      · exact hd
  refine ⟨fun f cb hc => ?_, fun text ht => ?_⟩
  · obtain ⟨-, hpost⟩ := hok.post_of_ret (serving_returned hc)
    exact (hpost rfl).1
  · obtain ⟨q, k, hthread⟩ := printing_cases ht
    obtain ⟨⟨names, name, hlisted, hname, hf, rfl⟩, -⟩ := hok.pre_of_op hthread
    have hlen := hfit names hlisted name hname hf
    have hconfig : configPath.length = 34 := by decide
    simp only [List.length_append, List.length_cons, hconfig, maxFilePathLength]
    omega

/-- A device with a link of an earlier process, which no call of this service has made. -/
def usedDevice (name : CStr) : State := { freshDevice with links := [⟨name, some .midi⟩] }

theorem usedDevice_fresh (name : CStr) : Fresh (usedDevice name) := ⟨rfl, rfl, rfl, rfl, rfl⟩

/-- A call that comes to the unlinking of the functions and finds this link. -/
def findsLink (f : UInt64) (name : CStr) : Run :=
  .request (.setCurrentUsbFunctions f false) :: succeed 8 ++ [.act (.listing [name])]

/-- A name of a function link with 221 bytes. -/
def overlongName : CStr := functionName ++ List.replicate 213 'x'

/-- A call that finds a link with that name writes 257 bytes into `filepath`, and goes on to success. -/
theorem overlong_name_overflows :
    ∃ s c c', Fresh s ∧ Reaches ⟨s, none⟩ c ∧ ¬Clean c ∧ Reaches c c' ∧
      serving c' = some (.setCurrentUsbFunctions GadgetFunction.none false, some .success) := by
  obtain ⟨c, hc, ht⟩ := reaches_of_endsIn gadgetMachine (usedDevice overlongName)
    (findsLink GadgetFunction.none overlongName)
    (fun c => decide ((printing c).map List.length = some 256) &&
      (gadgetMachine.steps body c (succeed 6)).any fun c' =>
        serving c' = some (.setCurrentUsbFunctions GadgetFunction.none false, some .success)) (by decide +kernel)
  simp only [Bool.and_eq_true, decide_eq_true_eq, Option.map_eq_some_iff, Option.any_eq_true] at ht
  obtain ⟨⟨text, htext, hlen⟩, c', hc', hend⟩ := ht
  refine ⟨_, c, c', usedDevice_fresh overlongName, hc, fun hclean => ?_, ⟨_, hc'⟩, hend⟩
  have hin := hclean.inside text htext
  rw [hlen, maxFilePathLength] at hin
  omega

/-- The rule at a run: ADB is set up where another link was before. -/
theorem successful_call_complete_adb :
    ∃ c : Service, serving c = some (.setCurrentUsbFunctions GadgetFunction.adb false, some .success) ∧ Clean c := by
  obtain ⟨c, hc, ht⟩ := reaches_of_endsIn fittingMachine (usedDevice (functionLink 3))
    (findsLink GadgetFunction.adb (functionLink 3) ++ succeed (2 + 3 + 26))
    (fun c => serving c = some (.setCurrentUsbFunctions GadgetFunction.adb false, some .success)) (by decide)
  exact ⟨c, of_decide_eq_true ht, successful_call_complete (usedDevice_fresh (functionLink 3)) hc⟩

/-! ## The identity -/

/-- The identifiers a call has written, with their outcome. -/
def identityOf (c : Service) : List (Path × Content × Bool) := c.state.trace.filterMap Event.idWrite?

/-- The functions a call has linked, with their indices and outcome. -/
def linkedBy (c : Service) : List (Function × Nat × Bool) := c.state.trace.filterMap Event.link?

/-- The masks for which an unexpected vendor string is only logged. -/
def onlyLogs (f : UInt64) : Bool := has f GadgetFunction.accessory || has f GadgetFunction.audioSource

namespace UsbRequestsAux

open GadgetFunction in
/-- The masks `validateAndSetVidPid` knows. -/
def masks : List UInt64 :=
  [mtp, adb ||| mtp, rndis, adb ||| rndis, ptp, adb ||| ptp, adb, midi, adb ||| midi, accessory, adb ||| accessory, audioSource,
    adb ||| audioSource, accessory ||| audioSource, adb ||| accessory ||| audioSource]

/-- The vendor strings `validateAndSetVidPid` tells apart, with the empty one for all that stand for no vendor function. -/
def vendorStrings : List CStr :=
  [[], "diag".toList, "serial_cdev,diag".toList, "diag,serial_cdev,rmnet_gsi".toList, "diag,serial_cdev".toList]

/-- A string that stands for no vendor function asks for none. -/
theorem vendorPlan_of_none {v : CStr} (h : noVendorFunctions v = true) : vendorPlan v = vendorPlan [] := by
  have hv : v = "user".toList ∨ v = [] := of_decide_eq_true h
  rcases hv with rfl | rfl
  · decide
  · rfl

/-- Only known masks are given an identity. -/
theorem choose_mask {f : UInt64} {v : CStr} {p : Nat × Nat} (h : chooseVidPid f v = some p) : f ∈ masks := by
  by_contra hf
  simp only [masks, List.mem_cons, List.not_mem_nil, or_false, not_or] at hf
  obtain ⟨h1, h2, h3, h4, h5, h6, h7, h8, h9, h10, h11, h12, h13, h14, h15⟩ := hf
  rw [chooseVidPid, if_neg h1, if_neg h2, if_neg h3, if_neg h4, if_neg h5, if_neg h6, if_neg h7, if_neg h8, if_neg h9,
    if_neg h10, if_neg h11, if_neg h12, if_neg h13, if_neg h14, if_neg h15] at h
  cases h

/-- All strings that stand for no vendor function are treated alike. -/
theorem choose_of_none {v : CStr} (h : noVendorFunctions v = true) (f : UInt64) : chooseVidPid f v = chooseVidPid f [] := by
  have hv : v = "user".toList ∨ v = [] := of_decide_eq_true h
  rcases hv with rfl | rfl
  · have h1 : ("user".toList : CStr) ≠ "diag".toList := by decide
    have h2 : ("user".toList : CStr) ≠ "serial_cdev,diag".toList := by decide
    have h3 : ("user".toList : CStr) ≠ "diag,serial_cdev,rmnet_gsi".toList := by decide
    have h4 : ("user".toList : CStr) ≠ "diag,serial_cdev".toList := by decide
    have g1 : ([] : CStr) ≠ "diag".toList := by decide
    have g2 : ([] : CStr) ≠ "serial_cdev,diag".toList := by decide
    have g3 : ([] : CStr) ≠ "diag,serial_cdev,rmnet_gsi".toList := by decide
    have g4 : ([] : CStr) ≠ "diag,serial_cdev".toList := by decide
    have hn : noVendorFunctions [] = true := rfl
    simp only [chooseVidPid, if_neg h1, if_neg h2, if_neg h3, if_neg h4, if_neg g1, if_neg g2, if_neg g3, if_neg g4, h, hn]
  · rfl

/-- Any other string is refused, unless the mask only logs it. -/
theorem choose_of_other {f : UInt64} {v : CStr} (hv : v ∉ vendorStrings) (hn : noVendorFunctions v = false)
    (hl : onlyLogs f = false) : chooseVidPid f v = none := by
  simp only [vendorStrings, List.mem_cons, List.not_mem_nil, or_false, not_or] at hv
  obtain ⟨-, h1, h2, h3, h4⟩ := hv
  have hne : ∀ g, onlyLogs g = true → f ≠ g := by
    rintro g hg rfl
    rw [hl] at hg
    cases hg
  simp only [chooseVidPid, if_neg h1, if_neg h2, if_neg h3, if_neg h4, hn, Bool.not_false, if_true, ite_self,
    if_neg (hne GadgetFunction.accessory rfl), if_neg (hne (GadgetFunction.adb ||| GadgetFunction.accessory) rfl),
    if_neg (hne GadgetFunction.audioSource rfl), if_neg (hne (GadgetFunction.adb ||| GadgetFunction.audioSource) rfl),
    if_neg (hne (GadgetFunction.accessory ||| GadgetFunction.audioSource) rfl),
    if_neg (hne (GadgetFunction.adb ||| GadgetFunction.accessory ||| GadgetFunction.audioSource) rfl)]

/-- A mask that only logs is given the same identity for every vendor string. -/
theorem choose_of_logs {f : UInt64} (hl : onlyLogs f = true) (v : CStr) : chooseVidPid f v = chooseVidPid f [] := by
  have hne : ∀ g, onlyLogs g = false → f ≠ g := by
    rintro g hg rfl
    rw [hl] at hg
    cases hg
  simp only [chooseVidPid, if_neg (hne GadgetFunction.mtp rfl), if_neg (hne (GadgetFunction.adb ||| GadgetFunction.mtp) rfl),
    if_neg (hne GadgetFunction.rndis rfl), if_neg (hne (GadgetFunction.adb ||| GadgetFunction.rndis) rfl),
    if_neg (hne GadgetFunction.ptp rfl), if_neg (hne (GadgetFunction.adb ||| GadgetFunction.ptp) rfl),
    if_neg (hne GadgetFunction.adb rfl), if_neg (hne GadgetFunction.midi rfl),
    if_neg (hne (GadgetFunction.adb ||| GadgetFunction.midi) rfl)]

/-- Every identity is chosen as for one of the vendor strings that are told apart; unless the mask only logs, that one asks for
the same functions. -/
theorem choose_represented {f : UInt64} {v : CStr} {p : Nat × Nat} (h : chooseVidPid f v = some p) :
    ∃ r ∈ vendorStrings, chooseVidPid f r = some p ∧ (onlyLogs f = false → vendorPlan v = vendorPlan r) := by
  cases hl : onlyLogs f with
  | true =>
    refine ⟨[], by decide, ?_, fun hf => by cases hf⟩
    rw [← choose_of_logs hl v]
    exact h
  | false =>
    cases hn : noVendorFunctions v with
    | true =>
      refine ⟨[], by decide, ?_, fun _ => vendorPlan_of_none hn⟩
      rw [← choose_of_none hn]
      exact h
    | false =>
      by_cases hv : v ∈ vendorStrings
      · exact ⟨v, hv, h, fun _ => rfl⟩
      · rw [choose_of_other hv hn hl] at h
        cases h

/-- Whether two choices with the same identity are for the same mask and, unless that one only logs, for vendor strings that ask
for the same functions. -/
def distinct (f : UInt64) (r : CStr) (f' : UInt64) (r' : CStr) : Bool :=
  decide (chooseVidPid f r = none) || decide (chooseVidPid f r ≠ chooseVidPid f' r') ||
    (decide (f = f') && (onlyLogs f || decide (vendorPlan r = vendorPlan r')))

/-- The table of the identities. -/
theorem identities_distinct :
    (masks.all fun f => vendorStrings.all fun r => masks.all fun f' => vendorStrings.all fun r' => distinct f r f' r') =
      true := by
  decide +kernel

/-- No two masks share an identity, and for a mask that refuses unexpected vendor strings neither do two vendor strings that ask
for different functions. -/
theorem identities_differ {f f' : UInt64} {r r' : CStr} (hf : f ∈ masks) (hr : r ∈ vendorStrings) (hf' : f' ∈ masks)
    (hr' : r' ∈ vendorStrings) (hne : chooseVidPid f r ≠ none) (heq : chooseVidPid f r = chooseVidPid f' r') :
    f = f' ∧ (onlyLogs f = false → vendorPlan r = vendorPlan r') := by
  have hall := identities_distinct
  simp only [List.all_eq_true] at hall
  have hd := hall f hf r hr f' hf' r' hr'
  simp only [distinct, Bool.or_eq_true, Bool.and_eq_true, decide_eq_true_eq] at hd
  rcases hd with (hn | hn) | ⟨hff, hplan⟩
  · exact absurd hn hne
  · exact absurd heq hn
  · refine ⟨hff, fun hl => hplan.resolve_left (fun hlogs => ?_)⟩
    rw [hl] at hlogs
    cases hlogs

/-- The identifiers determine the functions, and with them the vendor string as far as it counts. -/
theorem choose_determines {f f' : UInt64} {v v' : CStr} {p : Nat × Nat} (h : chooseVidPid f v = some p)
    (h' : chooseVidPid f' v' = some p) : f = f' ∧ (onlyLogs f = false → vendorPlan v = vendorPlan v') := by
  obtain ⟨r, hr, hc, hplan⟩ := choose_represented h
  obtain ⟨r', hr', hc', hplan'⟩ := choose_represented h'
  obtain ⟨rfl, hsame⟩ := identities_differ (choose_mask h) hr (choose_mask h') hr' (by simp [hc]) (hc.trans hc'.symm)
  exact ⟨rfl, fun hl => (hplan hl).trans ((hsame hl).trans (hplan' hl).symm)⟩

/-- Beyond the mask, the plan depends on the functions the vendor string asks for. -/
theorem linkPlan_eq_iff (f : UInt64) (v v' : CStr) : linkPlan f v = linkPlan f v' ↔ vendorPlan v = vendorPlan v' := by
  unfold linkPlan
  rw [List.append_left_inj, List.append_right_inj]

/-- The numbers determine the functions. -/
theorem numbered_inj {fns fns' : List Function}
    (h : (numbered fns).map (fun x => (x.1, x.2, true)) = (numbered fns').map (fun x => (x.1, x.2, true))) : fns = fns' := by
  have hfst := congrArg (List.map Prod.fst) h
  simpa [numbered, List.map_map, Function.comp_def] using hfst

/-- What a successful call has written and linked, when no other process has changed a property. -/
theorem written_of_success {s : State} {c : Service} {f : UInt64} {cb : Bool} (hs : Fresh s) (h : Reaches ⟨s, none⟩ c)
    (hc : serving c = some (.setCurrentUsbFunctions f cb, some .success)) (hf : f ≠ GadgetFunction.none)
    (hp : .propChanged ∉ c.state.trace) :
    ∃ vid pid, chooseVidPid f (vendorOf c.state.props) = some (vid, pid) ∧
      identityOf c = [(.vendorId, .hex vid, true), (.productId, .hex pid, true)] ∧
      linkedBy c = (numbered (linkPlan f (vendorOf c.state.props))).map (fun x => (x.1, x.2, true)) := by
  obtain ⟨-, hpost⟩ := (service_ok (.inl hs.uncalled) h).post_of_ret (serving_returned hc)
  obtain ⟨⟨v, vid, pid, hch, hv, hids, hlinks⟩, hvend⟩ := (hpost rfl).2 hf
  have hread := hvend.resolve_left hp
  refine ⟨vid, pid, ?_, hids, ?_⟩
  · rw [hread, ← hv hp]
    exact hch
  · rw [hread]
    exact hlinks

end UsbRequestsAux

open UsbRequestsAux in
/-- Two successful calls, made while no other process changes a property, that write the same identity link the same functions:
exactly unless both are for the same mask with the accessory or the audio source and the vendor strings ask for different
functions. -/
theorem same_identity_same_links_iff {s s' : State} {c c' : Service} {f f' : UInt64} {cb cb' : Bool} (hs : Fresh s)
    (hs' : Fresh s') (h : Reaches ⟨s, none⟩ c) (h' : Reaches ⟨s', none⟩ c')
    (hc : serving c = some (.setCurrentUsbFunctions f cb, some .success))
    (hc' : serving c' = some (.setCurrentUsbFunctions f' cb', some .success))
    (hf : f ≠ GadgetFunction.none) (hf' : f' ≠ GadgetFunction.none)
    (hp : .propChanged ∉ c.state.trace) (hp' : .propChanged ∉ c'.state.trace) :
    (identityOf c = identityOf c' → linkedBy c = linkedBy c') ↔
      ¬(f = f' ∧ onlyLogs f = true ∧ vendorPlan (vendorOf c.state.props) ≠ vendorPlan (vendorOf c'.state.props)) := by
  obtain ⟨vid, pid, hch, hid, hlk⟩ := written_of_success hs h hc hf hp
  obtain ⟨vid', pid', hch', hid', hlk'⟩ := written_of_success hs' h' hc' hf' hp'
  constructor
  · rintro himp ⟨rfl, hl, hne⟩
    have hsame : some (vid, pid) = some (vid', pid') := by
      rw [← hch, ← hch', choose_of_logs hl, choose_of_logs hl (vendorOf c'.state.props)]
    cases hsame
    have heq := himp (hid.trans hid'.symm)
    rw [hlk, hlk'] at heq
    exact hne ((linkPlan_eq_iff _ _ _).mp (numbered_inj heq))
  · intro hcond heq
    rw [hid, hid'] at heq
    simp only [List.cons.injEq, Prod.mk.injEq, Content.hex.injEq, true_and, and_true] at heq
    obtain ⟨rfl, rfl⟩ := heq
    obtain ⟨rfl, hplan⟩ := choose_determines hch hch'
    have hvend : vendorPlan (vendorOf c.state.props) = vendorPlan (vendorOf c'.state.props) := by
      cases hl : onlyLogs f with
      | false => exact hplan hl
      | true =>
        by_contra hne
        exact hcond ⟨rfl, hl, hne⟩
    rw [hlk, hlk', (linkPlan_eq_iff _ _ _).mpr hvend]

/-- A device whose vendor configuration asks for the diagnostic function. -/
def diagDevice : State :=
  { freshDevice with
    props := fun key => if key = .buildType then "userdebug".toList else if key = .vendorConfig then "diag".toList else [] }

theorem diagDevice_fresh : Fresh diagDevice := ⟨rfl, rfl, rfl, rfl, rfl⟩

/-- `setCurrentUsbFunctions(ACCESSORY)` succeeds with `n` vendor functions and is about to return. -/
def accessoryRun (n : Nat) : Run := tearDownBare GadgetFunction.accessory ++ succeed (18 + n)

/-- The accessory is given the same identity with and without the diagnostic function. -/
theorem accessory_identity_ambiguous :
    ∃ s s' c c' cb, Fresh s ∧ Fresh s' ∧ Reaches ⟨s, none⟩ c ∧ Reaches ⟨s', none⟩ c' ∧
      serving c = some (.setCurrentUsbFunctions GadgetFunction.accessory cb, some .success) ∧
      serving c' = some (.setCurrentUsbFunctions GadgetFunction.accessory cb, some .success) ∧
      .propChanged ∉ c.state.trace ∧ .propChanged ∉ c'.state.trace ∧
      identityOf c = identityOf c' ∧ linkedBy c ≠ linkedBy c' := by
  obtain ⟨c, hc, ht⟩ := reaches_of_endsIn gadgetMachine freshDevice (accessoryRun 0)
    (fun c => serving c = some (.setCurrentUsbFunctions GadgetFunction.accessory false, some .success) &&
      (decide (.propChanged ∉ c.state.trace) &&
      (identityOf c = [(.vendorId, .hex 0x18d1, true), (.productId, .hex 0x2d00, true)] &&
      linkedBy c = [(.accessory, 0, true)]))) (by decide)
  obtain ⟨c', hc', ht'⟩ := reaches_of_endsIn gadgetMachine diagDevice (accessoryRun 1)
    (fun c => serving c = some (.setCurrentUsbFunctions GadgetFunction.accessory false, some .success) &&
      (decide (.propChanged ∉ c.state.trace) &&
      (identityOf c = [(.vendorId, .hex 0x18d1, true), (.productId, .hex 0x2d00, true)] &&
      linkedBy c = [(.accessory, 0, true), (.diag, 1, true)]))) (by decide)
  simp only [Bool.and_eq_true, decide_eq_true_eq] at ht ht'
  obtain ⟨h1, h2, h3, h4⟩ := ht
  obtain ⟨h1', h2', h3', h4'⟩ := ht'
  refine ⟨freshDevice, diagDevice, c, c', false, freshDevice_fresh, diagDevice_fresh, hc, hc', h1, h1', h2, h2',
    h3.trans h3'.symm, ?_⟩
  rw [h4, h4']
  decide

/-- A device with a user build, on which vendor functions are ignored. -/
def userDevice : State := { freshDevice with props := fun _ => "user".toList }

theorem userDevice_fresh : Fresh userDevice := ⟨rfl, rfl, rfl, rfl, rfl⟩

/-- The rule at two runs: RNDIS on a debuggable and on a user build. -/
theorem same_identity_same_links_rndis :
    ∃ c c' : Service, serving c = some (.setCurrentUsbFunctions GadgetFunction.rndis false, some .success) ∧
      serving c' = some (.setCurrentUsbFunctions GadgetFunction.rndis false, some .success) ∧
      identityOf c = identityOf c' ∧ linkedBy c = linkedBy c' := by
  obtain ⟨c, hc, ht⟩ := reaches_of_endsIn gadgetMachine freshDevice (tearDownBare GadgetFunction.rndis ++ succeed 18)
    (fun c => serving c = some (.setCurrentUsbFunctions GadgetFunction.rndis false, some .success) &&
      (decide (.propChanged ∉ c.state.trace) &&
      identityOf c = [(.vendorId, .hex 0x18d1, true), (.productId, .hex 0x4ee3, true)])) (by decide)
  obtain ⟨c', hc', ht'⟩ := reaches_of_endsIn gadgetMachine userDevice (tearDownBare GadgetFunction.rndis ++ succeed 12)
    (fun c => serving c = some (.setCurrentUsbFunctions GadgetFunction.rndis false, some .success) &&
      (decide (.propChanged ∉ c.state.trace) &&
      identityOf c = [(.vendorId, .hex 0x18d1, true), (.productId, .hex 0x4ee3, true)])) (by decide)
  simp only [Bool.and_eq_true, decide_eq_true_eq] at ht ht'
  have hsame : identityOf c = identityOf c' := ht.2.2.trans ht'.2.2.symm
  refine ⟨c, c', ht.1, ht'.1, hsame, ?_⟩
  refine (same_identity_same_links_iff freshDevice_fresh userDevice_fresh hc hc' ht.1 ht'.1 (by decide) (by decide) ht.2.1
    ht'.2.1).mpr ?_ hsame
  rintro ⟨-, hlogs, -⟩
  cases hlogs

end Pixel845.Usb
