import Pixel845.Lemmas.UsbCall

/-!
# Tearing down

`tearDownGadget` meets its specification: from a call that has only just begun (`Tearing`) it comes to one without function
links, endpoints or a monitor (`Bare`), or it fails and leaves the call as it was. The only place where it can stay is the join
after a failed write of the stop flag: the monitor is then quiet and does not end.
-/

namespace Pixel845.Usb

/-- A part of a request meets a specification under the contract of the operations. -/
abbrev UsbMeets {α : Type} (q : Req) (P : State → Prop) (p : UsbM α) (Q : α → State → Prop) : Prop :=
  gadgetMachine.Meets (opPre q) P p Q

variable {q : Req} {f : UInt64} {cb : Bool} {v : CStr} {lock : Bool} {calls : List (UInt64 × Status)}

/-! ## What the operations do -/

/-- The answer of an operation that may fail says whether it took effect. -/
theorem mayFail_cases {s s' t : State} {ch : Choice} {r : Bool} (h : mayFail s s' ch = some (r, t)) :
    (r = true ∧ t = s') ∨ (r = false ∧ t = s) := by
  cases ch with
  | ok =>
    cases h
    exact .inl ⟨rfl, rfl⟩
  | fail =>
    cases h
    exact .inr ⟨rfl, rfl⟩
  | listing names => cases h

/-- An operation that cannot fail has one result. -/
theorem always_eq {s' t : State} {ch : Choice} {r : Unit} (h : always s' ch = some (r, t)) : t = s' := by
  cases ch with
  | ok =>
    cases h
    rfl
  | fail => cases h
  | listing names => cases h

/-- A write of the main thread. -/
theorem writeString_eq {content : Content} {path : Path} {ch : Choice} {s s' : State} {r : Bool}
    (h : exec (.writeString content path) ch s = some (r, s')) : s' = s.write .main content path r := by
  cases ch with
  | ok =>
    cases h
    rfl
  | fail =>
    cases h
    rfl
  | listing names => cases h

@[simp] theorem write_mem (s : State) (who : Who) (content : Content) (path : Path) (ok : Bool) :
    (s.write who content path ok).mem = s.mem := by
  unfold State.write
  split <;> rfl

@[simp] theorem write_links (s : State) (who : Who) (content : Content) (path : Path) (ok : Bool) :
    (s.write who content path ok).links = s.links := by
  unfold State.write
  split <;> rfl

@[simp] theorem write_props (s : State) (who : Who) (content : Content) (path : Path) (ok : Bool) :
    (s.write who content path ok).props = s.props := by
  unfold State.write
  split <;> rfl

@[simp] theorem write_lockHeld (s : State) (who : Who) (content : Content) (path : Path) (ok : Bool) :
    (s.write who content path ok).lockHeld = s.lockHeld := by
  unfold State.write
  split <;> rfl

@[simp] theorem write_watches (s : State) (who : Who) (content : Content) (path : Path) (ok : Bool) :
    (s.write who content path ok).watches = s.watches := by
  unfold State.write
  split <;> rfl

@[simp] theorem write_monitor (s : State) (who : Who) (content : Content) (path : Path) (ok : Bool) :
    (s.write who content path ok).monitor = s.monitor := by
  unfold State.write
  split <;> rfl

@[simp] theorem write_eventCount (s : State) (who : Who) (content : Content) (path : Path) (ok : Bool) :
    (s.write who content path ok).eventCount = s.eventCount := by
  unfold State.write
  split <;> rfl

/-- A write is an event. -/
@[simp] theorem write_trace (s : State) (who : Who) (content : Content) (path : Path) (ok : Bool) :
    (s.write who content path ok).trace = s.trace ++ [.wrote who content path ok] := by
  unfold State.write
  split
  · rename_i h
    rw [h]
  · rename_i h
    rw [Bool.eq_false_iff.mpr h]

/-- A write of a file leaves the core of the state. -/
theorem sameCore_write (s : State) (who : Who) (content : Content) (path : Path) (ok : Bool) :
    SameCore s (s.write who content path ok) :=
  ⟨by simp, by simp, by simp, by simp⟩

/-! ## Before anything was set up -/

/-- The call has neither written an identifier, nor linked a function, nor started its monitor. -/
structure Blank (s : State) : Prop where
  notStarted : .started ∉ s.trace
  ids : s.trace.filterMap Event.idWrite? = []
  linked : s.trace.filterMap Event.link? = []

/-- Nothing has been set up after events that set nothing up. -/
theorem Blank.append {s s' : State} {evs : List Event} (h : Blank s) (ht : s'.trace = s.trace ++ evs)
    (he : ∀ e ∈ evs, e ≠ .started ∧ e.idWrite? = none ∧ e.link? = none) : Blank s' := by
  refine ⟨?_, ?_, ?_⟩
  · rw [ht, List.mem_append]
    rintro (hm | hm)
    · exact h.notStarted hm
    · exact (he _ hm).1 rfl
  · rw [ht, filterMap_append_none _ _ _ (fun e hm => (he e hm).2.1)]
    exact h.ids
  · rw [ht, filterMap_append_none _ _ _ (fun e hm => (he e hm).2.2)]
    exact h.linked

/-- The environment starts no monitor. -/
theorem ne_started_of_isEnv {e : Event} (h : e.isEnv = true) : e ≠ .started := by
  rintro rfl
  cases h

/-- The environment sets nothing up. -/
theorem Blank.env {s s' : State} (h : Blank s) (hg : EnvGrows s.trace s'.trace) : Blank s' := by
  obtain ⟨evs, ht, he⟩ := hg
  refine h.append ht (fun e hm => ?_)
  have hn := neutral_of_isEnv (he e hm)
  exact ⟨ne_started_of_isEnv (he e hm), hn.1, hn.2.1⟩

/-- The call tears down: it has not set anything up yet. -/
structure Tearing (f : UInt64) (cb : Bool) (v : CStr) (s : State) : Prop extends InCall f cb v false [] s, Blank s

theorem Tearing.stable : gadgetMachine.Stable (Tearing f cb v) :=
  fun _ _ _ h he => ⟨h.toInCall.env he, h.toBlank.env (envStep_frame he).trace⟩

/-- The environment leaves the links of functions. -/
theorem functionLinks_env {e : Env} {s s' : State} (he : envStep e s = some s') : s'.functionLinks = s.functionLinks := by
  unfold State.functionLinks
  rw [(envStep_frame he).links]

/-- The call has cleared the flag: if it is set again, a monitor of an earlier call did so. -/
theorem Tearing.late {s : State} (h : Tearing f cb v s) (ha : s.mem.mCurrentUsbFunctionsApplied = true) : LateFlag s.trace := by
  refine (h.applied ha).resolve_left fun hby => ?_
  obtain ⟨e, he, hid⟩ := idWrite_of_appliedBy hby
  exact hid (List.filterMap_eq_nil_iff.mp h.ids e he)

/-- The writes of the teardown and the reset are plain. -/
theorem Tearing.write {s : State} (h : Tearing f cb v s) (content : Content) {path : Path} (ok : Bool)
    (hv : path ≠ .vendorId) (hp : path ≠ .productId) : Tearing f cb v (s.write .main content path ok) := by
  have hs := sameCore_write s .main content path ok
  refine ⟨h.toInCall.log hs (by simp [h.lock]) (write_trace ..) ?_ (fun hst => absurd hst h.notStarted),
    h.toBlank.append (write_trace ..) ?_⟩
  · intro e he
    rw [List.mem_singleton.mp he]
    exact plain_wrote content path ok
  · intro e he
    rw [List.mem_singleton.mp he]
    refine ⟨by simp, ?_, rfl⟩
    cases path with
    | vendorId => exact absurd rfl hv
    | productId => exact absurd rfl hp
    | _ => rfl

/-- A write goes on with the tear-down. -/
theorem Tearing.writeString (content : Content) {path : Path} (hv : path ≠ .vendorId) (hp : path ≠ .productId) :
    UsbMeets q (Tearing f cb v) (perform (.writeString content path)) (fun _ => Tearing f cb v) := by
  refine Machine.Meets.call Tearing.stable (fun s h => ?_) (fun _ => Tearing.stable) (fun ch s r s' h hx => ?_)
  · cases path with
    | pullup => exact ⟨.inr (.inr ⟨h.notStarted, h.late⟩), h.noFail⟩
    | _ => exact h.noFail
  · rw [writeString_eq hx]
    exact h.write content r hv hp

/-! ## The links -/

/-- Of the function links only those with one of these names are left, which are names that were listed. -/
structure Unlinking (f : UInt64) (cb : Bool) (v : CStr) (names : List CStr) (s : State) : Prop extends Tearing f cb v s where
  left : ∀ l ∈ s.functionLinks, l.name ∈ names
  listed : ∃ all, .listed all ∈ s.trace ∧ ∀ name ∈ names, name ∈ all

theorem Unlinking.stable (names : List CStr) : gadgetMachine.Stable (Unlinking f cb v names) := by
  intro e s s' h he
  obtain ⟨evs, ht, -⟩ := (envStep_frame he).trace
  refine ⟨Tearing.stable e s s' h.toTearing he, by rw [functionLinks_env he]; exact h.left, ?_⟩
  obtain ⟨all, hall, hsub⟩ := h.listed
  exact ⟨all, by rw [ht]; exact List.mem_append_left _ hall, hsub⟩

/-- The teardown has removed every function link. -/
structure Unlinked (f : UInt64) (cb : Bool) (v : CStr) (s : State) : Prop extends Tearing f cb v s where
  noLinks : s.functionLinks = []

theorem Unlinked.stable : gadgetMachine.Stable (Unlinked f cb v) :=
  fun e s s' h he => ⟨Tearing.stable e s s' h.toTearing he, by rw [functionLinks_env he]; exact h.noLinks⟩

/-- A member that is not a function link is not among the function links. -/
theorem mem_functionLinks {s : State} {l : Link} : l ∈ s.functionLinks ↔ l ∈ s.links ∧ isFunctionLink l.name = true := by
  simp [State.functionLinks]

/-- After the loop every function link is gone, unless a removal failed. -/
theorem unlinkEntries_meets (names : List CStr) :
    UsbMeets q (Unlinking f cb v names) (unlinkEntries names)
      (fun rc s => if rc = 0 then Unlinked f cb v s else Tearing f cb v s) := by
  induction names with
  | nil =>
    refine Machine.Meets.ret (Unlinking.stable []) (fun s h => ?_)
    rw [if_pos rfl]
    refine ⟨h.toTearing, List.eq_nil_iff_forall_not_mem.mpr (fun l hl => ?_)⟩
    exact List.not_mem_nil (h.left l hl)
  | cons name names ih =>
    unfold unlinkEntries
    by_cases hf : isFunctionLink name
    · rw [if_neg (by simp [hf])]
      refine Machine.Meets.bind (R := fun _ => Unlinking f cb v (name :: names)) ?_ fun _ => ?_
      · refine Machine.Meets.call (Unlinking.stable _) (fun s h => ⟨?_, h.noFail⟩) (fun _ => Unlinking.stable _) ?_
        · obtain ⟨all, hall, hsub⟩ := h.listed
          exact ⟨all, name, hall, hsub name List.mem_cons_self, hf, rfl⟩
        · intro ch s r s' h hx
          rw [always_eq hx]
          exact h
      refine Machine.Meets.bind (R := fun removed s => if removed then Unlinking f cb v names s else Tearing f cb v s) ?_ ?_
      · refine Machine.Meets.call (Unlinking.stable _) (fun s h => h.noFail) (fun r => ?_) (fun ch s r s' h hx => ?_)
        · cases r
          · exact Tearing.stable
          · exact Unlinking.stable names
        · rcases mayFail_cases hx with ⟨rfl, rfl⟩ | ⟨rfl, rfl⟩
          · obtain ⟨all, hall, hsub⟩ := h.listed
            refine ⟨⟨h.toInCall.log ⟨rfl, rfl, rfl, rfl⟩ h.lock (List.append_nil _).symm (by simp) (by simp),
              ⟨h.notStarted, h.ids, h.linked⟩⟩, fun l hl => ?_, all, hall, fun n hn => hsub n (List.mem_cons_of_mem name hn)⟩
            obtain ⟨hl, hlf⟩ := mem_functionLinks.mp hl
            obtain ⟨hl, hne⟩ := List.mem_filter.mp hl
            have hmem := h.left l (mem_functionLinks.mpr ⟨hl, hlf⟩)
            exact (List.mem_cons.mp hmem).resolve_left (by simpa using hne)
          · exact h.toTearing
      · intro removed
        cases removed
        · exact Machine.Meets.ret Tearing.stable (fun s h => h)
        · exact ih
    · rw [if_pos (by simp [hf])]
      refine ih.mono (fun s h => ?_) (fun _ _ h => h)
      obtain ⟨all, hall, hsub⟩ := h.listed
      refine ⟨h.toTearing, fun l hl => ?_, all, hall, fun n hn => hsub n (List.mem_cons_of_mem name hn)⟩
      refine (List.mem_cons.mp (h.left l hl)).resolve_left (fun hn => hf ?_)
      rw [← hn]
      exact (mem_functionLinks.mp hl).2

/-- What is left to remove when the directory of the configuration was listed, if it could be. -/
def Listed (f : UInt64) (cb : Bool) (v : CStr) : Option (List CStr) → State → Prop
  | none => Tearing f cb v
  | some names => Unlinking f cb v names

/-- With success, no links are left. -/
theorem unlinkFunctions_meets :
    UsbMeets q (Tearing f cb v) unlinkFunctions (fun rc s => if rc = 0 then Unlinked f cb v s else Tearing f cb v s) := by
  refine Machine.Meets.bind (R := Listed f cb v) ?_ ?_
  · refine Machine.Meets.call Tearing.stable (fun s h => h.noFail) (fun r => ?_) (fun ch s r s' h hx => ?_)
    · cases r
      · exact Tearing.stable
      · exact Unlinking.stable _
    · cases ch with
      | ok => cases hx
      | fail =>
        cases hx
        exact h
      | listing names =>
        simp only [gadgetMachine, exec, Option.ite_none_right_eq_some] at hx
        obtain ⟨hp, hx⟩ := hx
        cases hx
        have hplain : ∀ e ∈ [Event.listed names], e.Plain := by
          intro e he
          rw [List.mem_singleton.mp he]
          exact ⟨by simp, by simp, rfl, rfl, rfl⟩
        refine ⟨⟨h.toInCall.log ⟨rfl, rfl, rfl, rfl⟩ h.lock rfl hplain (fun hs => absurd hs h.notStarted),
          h.toBlank.append rfl (by simp [Event.idWrite?, Event.link?])⟩, ?_, names, by simp [State.log], fun _ hn => hn⟩
        intro l hl
        exact (List.isPerm_iff.mp hp).mem_iff.mpr (List.mem_map_of_mem (mem_functionLinks.mp hl).1)
  · intro config
    cases config with
    | none => exact Machine.Meets.ret Tearing.stable (fun s h => h)
    | some names => exact unlinkEntries_meets names

/-! ## The monitor -/

/-- The stop flag was written to the eventfd of the monitor, or the write failed and the monitor was not told. -/
structure Signalled (f : UInt64) (cb : Bool) (v : CStr) (s : State) : Prop extends CallCore f cb v false [] s, Blank s where
  noLinks : s.functionLinks = []
  running : s.monitor.isSome = true
  outcome : .signalled true ∈ s.trace ∧ NoFail s ∨ .signalled false ∈ s.trace ∧ ¬Stopping s

theorem Signalled.stable : gadgetMachine.Stable (Signalled f cb v) := by
  intro e s s' h he
  have hfr := envStep_frame he
  refine ⟨h.toCallCore.env he, h.toBlank.env hfr.trace, by rw [functionLinks_env he]; exact h.noLinks,
    by rw [hfr.thread]; exact h.running, ?_⟩
  rw [stopping_env hfr.trace]
  obtain ⟨evs, ht, -⟩ := hfr.trace
  rcases h.outcome with ⟨hs, hn⟩ | ⟨hs, hn⟩
  · exact .inl ⟨by rw [ht]; exact List.mem_append_left _ hs, hn.env hfr.trace⟩
  · exact .inr ⟨by rw [ht]; exact List.mem_append_left _ hs, hn⟩

/-- Writing the stop flag while the monitor is known and quiet. -/
theorem Unlinked.signal {s s' : State} {ch : Choice} {r : Bool} (h : Unlinked f cb v s) (hr : s.monitor.isSome = true)
    (hx : exec (.writeEventFd stopFlag) ch s = some (r, s')) : Signalled f cb v s' := by
  obtain ⟨m, hm⟩ := Option.isSome_iff_exists.mp hr
  have hcalm := h.calm m hm
  have hquiet := h.inv.quiet m hm hcalm
  -- what the write does: it logs its outcome, and the flag arrives if it succeeded
  have hs' : s'.mem = s.mem ∧ s'.monitor = s.monitor ∧ s'.lockHeld = s.lockHeld ∧ s'.props = s.props ∧ s'.links = s.links ∧
      s'.trace = s.trace ++ [.signalled r] ∧ (r = true → s'.eventCount = stopFlag) ∧ (r = false → s'.eventCount = 0) := by
    cases ch with
    | ok =>
      cases hx
      exact ⟨rfl, rfl, rfl, rfl, rfl, rfl, by simp [State.log, hquiet.1], by simp⟩
    | fail =>
      cases hx
      exact ⟨rfl, rfl, rfl, rfl, rfl, rfl, by simp, fun _ => hquiet.1⟩
    | listing names => cases hx
  obtain ⟨h1, h2, h3, h4, h5, ht, htrue, hfalse⟩ := hs'
  have hns : .started ∉ s'.trace := by
    rw [ht]
    simp [h.notStarted]
  have hsig : ∀ b, .signalled b ∈ s'.trace ↔ .signalled b ∈ s.trace ∨ b = r := by
    intro b
    rw [ht]
    simp
  have hold : .signalled true ∉ s.trace := fun hm => hcalm ⟨hm, h.notStarted⟩
  have hblank : Blank s' := h.toBlank.append ht (by simp [Event.idWrite?, Event.link?])
  refine ⟨⟨⟨?_, ?_, ?_, ?_, ?_⟩, ?_, ?_, ?_, ?_, ?_, ?_, ?_⟩, hblank, ?_, ?_, ?_⟩
  · intro m' hm' hn
    rw [h2] at hm'
    cases r with
    | true => exact absurd ⟨(hsig true).mpr (.inr rfl), hns⟩ hn
    | false => exact ⟨hfalse rfl, (h.inv.quiet m' hm' (h.calm m' hm')).2⟩
  · intro m' hm' hst
    rcases (hsig true).mp hst.1 with ho | hr
    · exact absurd ho hold
    · exact .inl (htrue hr.symm)
  · exact fun hs => absurd hs hns
  · exact fun hs => absurd hs hns
  · exact fun hs => absurd hs hns
  · refine h.applied.log (by rw [h1]) (by rw [h1]) ht ?_
    simp [Event.isApplied]
  · rw [h1]
    exact h.functions
  · rw [ht]
    exact head_append h.head
  · rw [h3]
    exact h.lock
  · rw [ht, filterMap_append_none _ _ _ (by simp [Event.call?])]
    exact h.calls
  · rw [ht]
    exact h.safe.append (by simp [Event.call?])
  · rw [ht, h4]
    exact h.props.imp_left (List.mem_append_left _)
  · unfold State.functionLinks
    rw [h5]
    exact h.noLinks
  · rw [h2]
    exact hr
  · cases r with
    | true =>
      refine .inl ⟨(hsig true).mpr (.inr rfl), fun hm => ?_⟩
      exact h.noFail (((hsig false).mp hm).resolve_right (by simp))
    | false =>
      refine .inr ⟨(hsig false).mpr (.inr rfl), fun hst => ?_⟩
      exact hold (((hsig true).mp hst.1).resolve_right (by simp))

/-- No monitor is left, whatever `mMonitorCreated` still says. -/
structure Joined (f : UInt64) (cb : Bool) (v : CStr) (s : State) : Prop extends CallCore f cb v false [] s, Blank s where
  noLinks : s.functionLinks = []
  gone : s.monitor = none
  noFail : NoFail s

theorem Joined.stable : gadgetMachine.Stable (Joined f cb v) := by
  intro e s s' h he
  have hfr := envStep_frame he
  exact ⟨h.toCallCore.env he, h.toBlank.env hfr.trace, by rw [functionLinks_env he]; exact h.noLinks,
    (envStep_alone he h.gone).2.2.2.1, h.noFail.env hfr.trace⟩

/-- What an operation does while no monitor runs: the mask and the flag stay, and plain events are logged. -/
structure AloneStep (s s' : State) (evs : List Event) : Prop where
  functions : s'.mem.mCurrentUsbFunctions = s.mem.mCurrentUsbFunctions
  applied : s'.mem.mCurrentUsbFunctionsApplied = s.mem.mCurrentUsbFunctionsApplied
  alone : s'.monitor = none
  trace : s'.trace = s.trace ++ evs
  plain : ∀ e ∈ evs, e.Plain

/-- A step without an event. -/
theorem AloneStep.silent {s s' : State} (hf : s'.mem.mCurrentUsbFunctions = s.mem.mCurrentUsbFunctions)
    (ha : s'.mem.mCurrentUsbFunctionsApplied = s.mem.mCurrentUsbFunctionsApplied) (hm : s'.monitor = none)
    (ht : s'.trace = s.trace) : AloneStep s s' [] :=
  ⟨hf, ha, hm, by rw [ht, List.append_nil], by simp⟩

/-- A step without a monitor starts none. -/
theorem AloneStep.notStarted {s s' : State} {evs : List Event} (h : AloneStep s s' evs) (hns : .started ∉ s.trace) :
    .started ∉ s'.trace := by
  rw [h.trace, mem_append_plain not_plain_started h.plain]
  exact hns

/-- Before the monitor is started, and while no other one runs, such an operation keeps the call. -/
theorem CallCore.alone {s s' : State} {evs : List Event} {lock' : Bool} (h : CallCore f cb v lock calls s)
    (hns : .started ∉ s.trace) (hs : AloneStep s s' evs) (hl : s'.lockHeld = lock')
    (hp : .propChanged ∈ s.trace ∨ vendorOf s'.props = v) : CallCore f cb v lock' calls s' := by
  have hns' := hs.notStarted hns
  have ht := hs.trace
  have hnone : ∀ m, s'.monitor ≠ some m := by
    intro m hm
    rw [hs.alone] at hm
    cases hm
  refine ⟨⟨fun m hm => absurd hm (hnone m), fun m hm => absurd hm (hnone m), fun hs => absurd hs hns',
    fun hs => absurd hs hns', fun hs => absurd hs hns'⟩,
    h.applied.log hs.functions hs.applied ht (fun e he => (hs.plain e he).notApplied), hs.functions.trans h.functions, ?_, hl,
    ?_, ?_, ?_⟩
  · rw [ht]
    exact head_append h.head
  · rw [ht, filterMap_append_none _ _ _ (fun e he => (hs.plain e he).notCall)]
    exact h.calls
  · rw [ht]
    exact h.safe.append (fun e he => (hs.plain e he).notCall)
  · rw [ht]
    exact hp.imp_left (List.mem_append_left _)

/-- The state of a call goes on where there is no monitor. -/
theorem InCall.alone {s s' : State} {evs : List Event} {lock' : Bool} (h : InCall f cb v lock calls s)
    (hns : .started ∉ s.trace) (hs : AloneStep s s' evs) (hm : s.monitor = none)
    (hc : s'.mem.mMonitorCreated = s.mem.mMonitorCreated) (hl : s'.lockHeld = lock')
    (hp : .propChanged ∈ s.trace ∨ vendorOf s'.props = v) : InCall f cb v lock' calls s' := by
  refine ⟨h.toCallCore.alone hns hs hl hp, ?_, ?_, ?_⟩
  · unfold NoFail
    rw [hs.trace, mem_append_plain (not_plain_signalled false) hs.plain]
    exact h.noFail
  · rw [hc, h.created, hm, hs.alone]
  · intro m hm
    rw [hs.alone] at hm
    cases hm

/-- The join ends when the monitor has: that one was told to stop. -/
theorem Signalled.join {s s' : State} {ch : Choice} {r : Unit} (h : Signalled f cb v s)
    (hx : exec .join ch s = some (r, s')) : Joined f cb v s' := by
  simp only [exec] at hx
  split at hx
  · rename_i m hm
    split at hx
    · rename_i hd
      have hs' := always_eq hx
      have hstop : Stopping s := by
        by_contra hn
        exact (h.inv.quiet m hm hn).2.1 hd
      have hno : NoFail s := by
        rcases h.outcome with ⟨-, hn⟩ | ⟨-, hn⟩
        · exact hn
        · exact absurd hstop hn
      subst hs'
      exact ⟨h.toCallCore.alone h.notStarted (.silent rfl rfl rfl rfl) h.lock h.props, ⟨h.notStarted, h.ids, h.linked⟩,
        h.noLinks, rfl, hno⟩
    · cases hx
  · cases hx

/-- Nothing of an earlier call is left but, perhaps, its endpoints. -/
structure Alone (f : UInt64) (cb : Bool) (v : CStr) (s : State) : Prop extends Joined f cb v s where
  notCreated : s.mem.mMonitorCreated = false

theorem Alone.stable : gadgetMachine.Stable (Alone f cb v) := by
  intro e s s' h he
  exact ⟨Joined.stable e s s' h.toJoined he, by rw [(envStep_frame he).created]; exact h.notCreated⟩

/-- Nothing of an earlier call is left. -/
structure Bare (f : UInt64) (cb : Bool) (v : CStr) (s : State) : Prop extends Alone f cb v s where
  noEndpoints : s.mem.mEndpointList = []

theorem Bare.stable : gadgetMachine.Stable (Bare f cb v) := by
  intro e s s' h he
  exact ⟨Alone.stable e s s' h.toAlone he, by rw [(envStep_frame he).endpoints]; exact h.noEndpoints⟩

/-- A call without a monitor is a call. -/
theorem Alone.inCall {s : State} (h : Alone f cb v s) : InCall f cb v false [] s := by
  refine ⟨h.toCallCore, h.noFail, ?_, ?_⟩
  · rw [h.notCreated, h.gone]
    rfl
  · intro m hm
    rw [h.gone] at hm
    cases hm

/-- An assignment to the members, other than to the flag, by a call that has not started its monitor. -/
theorem store_meets {P Q : State → Prop} {g : Fields → Fields} (hP : gadgetMachine.Stable P) (hQ : gadgetMachine.Stable Q)
    (hpre : ∀ s, P s → .started ∉ s.trace ∧ NoFail s)
    (ha : ∀ m, (g m).mCurrentUsbFunctionsApplied = m.mCurrentUsbFunctionsApplied)
    (h : ∀ s, P s → Q { s with mem := g s.mem }) : UsbMeets q P (perform (.store g)) (fun _ => Q) := by
  refine Machine.Meets.call hP (fun s hs => ?_) (fun _ => hQ) (fun ch s r s' hs hx => ?_)
  · exact ⟨ha s.mem, fun hst => absurd hst (hpre s hs).1, (hpre s hs).2⟩
  · rw [always_eq hx]
    exact h s hs

/-- The end of the teardown, when no monitor is left. -/
theorem clear_meets :
    UsbMeets q (Alone f cb v)
      (do perform .closeFds
          perform (.store fun m => { m with mEndpointList := [] })
          return Status.success)
      (fun status s => status = .success ∧ Bare f cb v s) := by
  refine Machine.Meets.bind (R := fun _ => Alone f cb v) ?_ (fun _ => Machine.Meets.bind (R := fun _ => Bare f cb v) ?_ ?_)
  · refine Machine.Meets.call Alone.stable (fun s h => ⟨h.notStarted, h.noFail⟩) (fun _ => Alone.stable) ?_
    intro ch s r s' h hx
    rw [always_eq hx]
    exact ⟨⟨h.toCallCore.alone h.notStarted (.silent rfl rfl h.gone rfl) h.lock h.props, ⟨h.notStarted, h.ids, h.linked⟩,
      h.noLinks, h.gone, h.noFail⟩, h.notCreated⟩
  · refine store_meets Alone.stable Bare.stable (fun s h => ⟨h.notStarted, h.noFail⟩) (fun m => rfl) ?_
    intro s h
    exact ⟨⟨⟨h.toCallCore.alone h.notStarted (.silent rfl rfl h.gone rfl) h.lock h.props, ⟨h.notStarted, h.ids, h.linked⟩,
      h.noLinks, h.gone, h.noFail⟩, h.notCreated⟩, rfl⟩
  · exact fun _ => Machine.Meets.ret Bare.stable (fun s h => ⟨rfl, h⟩)

/-- The monitor is stopped, and the call is bare. -/
theorem stopMonitor_meets :
    UsbMeets q (Unlinked f cb v) stopMonitor (fun status s => status = .success ∧ Bare f cb v s) := by
  refine Machine.Meets.bind (R := fun m s => Unlinked f cb v s ∧ m.mMonitorCreated = s.mem.mMonitorCreated) ?_ (fun m => ?_)
  · refine Machine.Meets.call Unlinked.stable (fun s h => h.noFail) (fun m e s s' h he => ?_) (fun ch s m s' h hx => ?_)
    · exact ⟨Unlinked.stable e s s' h.1 he, by rw [(envStep_frame he).created]; exact h.2⟩
    · cases ch with
      | ok =>
        cases hx
        exact ⟨h, rfl⟩
      | fail => cases hx
      | listing names => cases hx
  · have hst : gadgetMachine.Stable (fun s => Unlinked f cb v s ∧ m.mMonitorCreated = s.mem.mMonitorCreated) := by
      intro e s s' h he
      exact ⟨Unlinked.stable e s s' h.1 he, by rw [(envStep_frame he).created]; exact h.2⟩
    by_cases hc : m.mMonitorCreated = true
    · rw [if_pos hc]
      refine Machine.Meets.bind (R := fun _ => Signalled f cb v) ?_ (fun _ =>
        Machine.Meets.bind (R := fun _ => Joined f cb v) ?_ (fun _ =>
        Machine.Meets.bind (R := fun _ => Alone f cb v) ?_ (fun _ => clear_meets)))
      · refine Machine.Meets.call hst (fun s h => h.1.noFail) (fun _ => Signalled.stable) (fun ch s r s' h hx => ?_)
        exact h.1.signal (by rw [← h.1.created, ← h.2]; exact hc) hx
      · refine Machine.Meets.call Signalled.stable (fun s h => ?_) (fun _ => Joined.stable) (fun ch s r s' h hx => h.join hx)
        exact ⟨h.inv, h.lock, h.running, h.outcome.imp (fun ho => ⟨⟨ho.1, h.notStarted⟩, ho.2⟩) id⟩
      · refine store_meets Joined.stable Alone.stable (fun s h => ⟨h.notStarted, h.noFail⟩) (fun m => rfl) ?_
        intro s h
        exact ⟨⟨h.toCallCore.alone h.notStarted (.silent rfl rfl h.gone rfl) h.lock h.props, ⟨h.notStarted, h.ids, h.linked⟩,
          h.noLinks, h.gone, h.noFail⟩, rfl⟩
    · rw [if_neg hc]
      refine clear_meets.mono (fun s h => ?_) (fun _ _ h => h)
      have hcreated : s.mem.mMonitorCreated = false := by rw [← h.2]; exact Bool.eq_false_iff.mpr hc
      have hgone : s.monitor = none := by
        rw [← Option.isNone_iff_eq_none, ← Option.not_isSome, ← h.1.created, hcreated]
        rfl
      exact ⟨⟨h.1.toCallCore, h.1.toBlank, h.1.noLinks, hgone, h.1.noFail⟩, hcreated⟩

/-- A failed step of the teardown leaves the call as it was; a teardown that succeeds leaves nothing of an earlier call. -/
theorem tearDownGadget_meets :
    UsbMeets q (Tearing f cb v) tearDownGadget
      (fun status s => if status = .success then Bare f cb v s else Tearing f cb v s) := by
  have hfail : UsbMeets q (Tearing f cb v) (pure Status.error)
      (fun status s => if status = .success then Bare f cb v s else Tearing f cb v s) :=
    Machine.Meets.ret Tearing.stable (fun s h => h)
  refine Machine.Meets.bind (Tearing.writeString _ (by simp) (by simp)) (fun _ => ?_)
  refine Machine.Meets.bind (Tearing.writeString _ (by simp) (by simp)) (fun class0 => ?_)
  cases class0
  · exact hfail
  refine Machine.Meets.bind (Tearing.writeString _ (by simp) (by simp)) (fun subClass0 => ?_)
  cases subClass0
  · exact hfail
  refine Machine.Meets.bind (Tearing.writeString _ (by simp) (by simp)) (fun protocol0 => ?_)
  cases protocol0
  · exact hfail
  refine Machine.Meets.bind (Tearing.writeString _ (by simp) (by simp)) (fun descUse0 => ?_)
  cases descUse0
  · exact hfail
  refine Machine.Meets.bind unlinkFunctions_meets (fun unlinked => ?_)
  by_cases hu : unlinked = 0
  · simp only [hu, ne_eq, not_true_eq_false, if_false, if_true]
    refine stopMonitor_meets.mono (fun s h => h) (fun status s h => ?_)
    rw [if_pos h.1]
    exact h.2
  · simp only [hu, ne_eq, not_false_eq_true, if_true, if_false]
    exact hfail

end Pixel845.Usb
