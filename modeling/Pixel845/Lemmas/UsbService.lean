import Pixel845.Lemmas.UsbSetup

/-!
# The calls meet their contract

Each request, started between calls, meets the preconditions of the operations it performs and establishes what the contract says
of it (`body_meets`). So at every moment of every run the service is idle or the rest of the running call meets its contract
(`service_ok`).
-/

namespace Pixel845.Usb

variable {q : Req} {f : UInt64} {cb : Bool} {v : CStr} {lock : Bool} {calls : List (UInt64 × Status)}

/-! ## A configuration that was set up -/

/-- The request is set up, whatever `mMonitorCreated` says yet. -/
structure Done (f : UInt64) (cb : Bool) (v : CStr) (lock : Bool) (calls : List (UInt64 × Status)) (s : State) : Prop
    extends CallCore f cb v lock calls s where
  noFail : NoFail s
  calm : ∀ m, s.monitor = some m → ¬Stopping s
  configured : Configured f s.trace
  vendor : .propChanged ∈ s.trace ∨ vendorOf s.props = vendorRead s.trace
  links : s.functionLinks = linksOf (linkPlan f (vendorRead s.trace))
  endpoints : s.mem.mEndpointList = endpointPlan f
  running : s.monitor.isSome = ffsRequested f
  started : ffsRequested f = true → .started ∈ s.trace

/-- The request is set up. -/
structure Finished (f : UInt64) (cb : Bool) (v : CStr) (lock : Bool) (calls : List (UInt64 × Status)) (s : State) : Prop
    extends Done f cb v lock calls s where
  created : s.mem.mMonitorCreated = s.monitor.isSome

/-- A call that has finished is a call. -/
theorem Finished.inCall {s : State} (h : Finished f cb v lock calls s) : InCall f cb v lock calls s :=
  ⟨h.toCallCore, h.noFail, h.created, h.calm⟩

/-- The environment reads no vendor configuration for the call. -/
theorem vendorRead_env {s s' : State} (hg : EnvGrows s.trace s'.trace) : vendorRead s'.trace = vendorRead s.trace := by
  rw [vendorRead, lastRead_env hg, vendorRead]

theorem Done.stable : gadgetMachine.Stable (Done f cb v lock calls) := by
  intro e s s' h he
  have hfr := envStep_frame he
  have hv := vendorRead_env hfr.trace
  refine ⟨h.toCallCore.env he, h.noFail.env hfr.trace, ?_, ?_, ?_, ?_, by rw [hfr.endpoints]; exact h.endpoints,
    by rw [hfr.thread]; exact h.running, by rw [started_env hfr.trace]; exact h.started⟩
  · intro m hm hn
    have hsome : s.monitor.isSome = true := by rw [← hfr.thread, hm]; rfl
    obtain ⟨m0, hm0⟩ := Option.isSome_iff_exists.mp hsome
    exact h.calm m0 hm0 ((stopping_env hfr.trace).mp hn)
  · obtain ⟨evs, ht, hev⟩ := hfr.trace
    rw [ht]
    exact h.configured.append (fun e hm => neutral_of_isEnv (hev e hm))
  · rw [hv]
    exact props_env he h.vendor
  · rw [functionLinks_env he, hv]
    exact h.links

theorem Finished.stable : gadgetMachine.Stable (Finished f cb v lock calls) := by
  intro e s s' h he
  have hfr := envStep_frame he
  exact ⟨Done.stable e s s' h.toDone he, by rw [hfr.created, hfr.thread]; exact h.created⟩

/-- A monitor that was not asked to stop is running. -/
theorem InCall.monitorRunning {s : State} (h : InCall f cb v lock calls s) : s.monitorRunning = s.monitor.isSome := by
  unfold State.monitorRunning
  cases hm : s.monitor with
  | none => rfl
  | some m =>
    have hq := (h.inv.quiet m hm (h.calm m hm)).2
    simp [hq.1]

/-- A finished call has done all it was asked for. -/
theorem Finished.complete {s : State} (h : Finished f cb v lock calls s) (hf : f ≠ GadgetFunction.none) :
    Complete f (vendorRead s.trace) s := by
  refine ⟨?_, h.endpoints, ?_⟩
  · rw [if_neg hf]
    exact h.links
  · rw [h.inCall.monitorRunning]
    exact h.running

/-- Taking and releasing the lock. -/
theorem Finished.setLock {s : State} (h : Finished f cb v lock calls s) (lock' : Bool) :
    Finished f cb v lock' calls { s with lockHeld := lock' } := by
  have hc : InCall f cb v lock' calls { s with lockHeld := lock' } :=
    h.inCall.log ⟨rfl, rfl, rfl, rfl⟩ rfl (List.append_nil _).symm (by simp) (by simp)
  exact ⟨⟨hc.toCallCore, hc.noFail, hc.calm, h.configured, h.vendor, h.links, h.endpoints, h.running, h.started⟩, hc.created⟩

/-- A callback reads nothing. -/
theorem vendorRead_called (tr : List Event) (f : UInt64) (status : Status) :
    vendorRead (tr ++ [.called f status]) = vendorRead tr := by
  rw [vendorRead, lastRead_append, vendorRead]
  intro e he
  rw [List.mem_singleton.mp he]
  exact ⟨rfl, rfl, fun _ => rfl⟩

/-- A finished call may call back with its status. -/
theorem Finished.called {s : State} {status : Status} (h : Finished f cb v lock [] s)
    (hs : status = .success → f ≠ GadgetFunction.none → PulledUp f s.trace) :
    Finished f cb v lock [(f, status)] (s.log (.called f status)) := by
  have hc := h.inCall.called hs
  have hv : vendorRead (s.log (.called f status)).trace = vendorRead s.trace := vendorRead_called s.trace f status
  refine ⟨⟨hc.toCallCore, hc.noFail, hc.calm, h.configured.append ?_, ?_, by rw [hv]; exact h.links, h.endpoints, h.running,
    fun hr => List.mem_append_left _ (h.started hr)⟩, hc.created⟩
  · intro e he
    rw [List.mem_singleton.mp he]
    exact ⟨rfl, rfl, fun _ => rfl⟩
  · rw [hv]
    exact h.vendor.imp_left (List.mem_append_left _)

/-- The callback answers the call. -/
theorem Finished.callback {P : State → Prop} (status : Status) (hP : gadgetMachine.Stable P)
    (h : ∀ s, P s → Finished f true v lock [] s ∧ (status = .success → PulledUp f s.trace)) :
    UsbMeets (.setCurrentUsbFunctions f true) P (perform (.setCurrentUsbFunctionsCb f status))
      (fun _ => Finished f true v lock [(f, status)]) := by
  refine Machine.Meets.call hP (fun s hs => ?_) (fun _ => Finished.stable) (fun ch s r s' hs hx => ?_)
  · obtain ⟨hfin, hup⟩ := h s hs
    exact ⟨rfl, ⟨hfin.head, hfin.calls, fun hsucc _ => hup hsucc⟩, hfin.noFail⟩
  · rw [always_eq hx]
    exact (h s hs).1.called (fun hsucc _ => (h s hs).2 hsucc)

/-- The end of a linking that succeeded is a configuration. -/
theorem Building.configured {w : CStr} {s : State} (h : Building f cb v lock (Progress.final f w) s) : Configured f s.trace := by
  obtain ⟨w', vid, pid, hc, hw', hids⟩ := h.identity
  obtain ⟨hr, hw⟩ := h.vendor w (final_vendor f w)
  refine ⟨w', vid, pid, hc, ?_, hids, ?_⟩
  · intro hn
    rw [hr, hw'.resolve_left hn, hw.resolve_left hn]
  · rw [hr, ← final_fns]
    exact h.linked

/-- The vendor configuration is the one that was read, unless a property has changed. -/
theorem Building.vendorOf {w : CStr} {s : State} (h : Building f cb v lock (Progress.final f w) s) :
    .propChanged ∈ s.trace ∨ vendorOf s.props = vendorRead s.trace := by
  obtain ⟨hr, hw⟩ := h.vendor w (final_vendor f w)
  rcases hw with hw | hw
  · exact .inl hw
  · exact h.props.imp_right (fun hp => by rw [hp, hr, hw])

/-- A configuration without a FunctionFS function is finished when it is linked. -/
theorem Building.finished {w : CStr} {s s' : State} {evs : List Event} (h : Building f cb v lock (Progress.final f w) s)
    (hc : InCall f cb v lock [] s') (ht : s'.trace = s.trace ++ evs) (hn : ∀ e ∈ evs, e.Neutral)
    (hp : s'.props = s.props) (hl : s'.links = s.links) (he : s'.mem.mEndpointList = s.mem.mEndpointList)
    (hr : s'.monitor.isSome = ffsRequested f) (hs : ffsRequested f = true → .started ∈ s'.trace) :
    Finished f cb v lock [] s' := by
  have hv : vendorRead s'.trace = vendorRead s.trace := by
    rw [ht, vendorRead, lastRead_append hn, vendorRead]
  refine ⟨⟨hc.toCallCore, hc.noFail, hc.calm, by rw [ht]; exact h.configured.append hn, ?_, ?_, ?_, hr, hs⟩, hc.created⟩
  · rw [hv, ht, hp]
    exact h.vendorOf.imp_left (List.mem_append_left _)
  · unfold State.functionLinks
    rw [hl, hv, (h.vendor w (final_vendor f w)).1, ← final_fns]
    exact h.links
  · rw [he, h.endpoints, final_endpoints]

/-! ## Pulling up right away -/

/-- The gadget is pulled up, and the flag is to be set. -/
structure Up (f : UInt64) (cb : Bool) (v w : CStr) (s : State) : Prop
    extends Building f cb v true (Progress.final f w) s where
  file : s.files .pullup = some .gadgetName
  pulled : ∃ a b, s.trace = a ++ pullUpEvent .main :: b ∧ Configured f a ∧ ∀ e ∈ b, e.isWriteOf .main = false

/-- Events of the environment are no writes of the main thread. -/
theorem not_main_of_isEnv {e : Event} (h : e.isEnv = true) : e.isWriteOf .main = false := by
  unfold Event.isEnv at h
  split at h
  · rfl
  · rfl
  · rfl
  · rfl
  · cases h

theorem Up.stable (w : CStr) : gadgetMachine.Stable (Up f cb v w) := by
  intro e s s' h he
  refine ⟨Building.stable e s s' h.toBuilding he, by rw [(envStep_alone he h.gone).2.1]; exact h.file, ?_⟩
  obtain ⟨evs, ht, hev⟩ := (envStep_frame he).trace
  obtain ⟨a, b, hab, hca, hb⟩ := h.pulled
  refine ⟨a, b ++ evs, by rw [ht, hab]; simp, hca, ?_⟩
  intro e hm
  rcases List.mem_append.mp hm with hm | hm
  · exact hb e hm
  · exact not_main_of_isEnv (hev e hm)

/-- Setting the flag after the pull-up. -/
theorem Up.apply {w : CStr} {s : State} (h : Up f cb v w s) (hf : ffsRequested f = false) :
    Finished f cb v true [] (({ s with mem := { s.mem with mCurrentUsbFunctionsApplied := true } } : State).log
      (.applied .main true)) ∧ PulledUp f (s.trace ++ [.applied .main true]) := by
  obtain ⟨a, b, hab, hca, hb⟩ := h.pulled
  have hne : ∀ x, x ≠ .applied .main true → (x ∈ s.trace ++ [.applied .main true] ↔ x ∈ s.trace) := by
    intro x hx
    simp [hx]
  have hns : .started ∉ s.trace ++ [.applied .main true] := by
    rw [hne _ (by simp)]
    exact h.notStarted
  have hgone : ∀ m, s.monitor ≠ some m := by
    intro m hm
    rw [h.gone] at hm
    cases hm
  have happ : AppliedBy f (s.trace ++ [.applied .main true]) := ⟨a, b, [], .main, by simp [hab], hca, hb, by simp⟩
  have hcall : InCall f cb v true [] (({ s with mem := { s.mem with mCurrentUsbFunctionsApplied := true } } : State).log
      (.applied .main true)) := by
    refine ⟨⟨⟨fun m hm => absurd hm (hgone m), fun m hm => absurd hm (hgone m), fun hs => absurd hs hns,
      fun hs => absurd hs hns, fun hs => absurd hs hns⟩, fun _ => ?_, h.functions, head_append h.head, h.lock, ?_,
      h.safe.append (by simp [Event.call?]), h.props.imp_left (List.mem_append_left _)⟩, ?_, h.created,
      fun m hm => absurd hm (hgone m)⟩
    · left
      rw [show (({ s with mem := { s.mem with mCurrentUsbFunctionsApplied := true } } : State).log
        (.applied .main true)).mem.mCurrentUsbFunctions = f from h.functions]
      exact happ
    · simp only [State.log]
      rw [filterMap_append_none _ _ _ (by simp [Event.call?])]
      exact h.calls
    · exact fun hm => h.noFail ((hne _ (by simp)).mp hm)
  refine ⟨h.finished hcall rfl ?_ rfl rfl rfl ?_ (fun hr => ?_), happ.pulledUp⟩
  · intro e he
    rw [List.mem_singleton.mp he]
    exact ⟨rfl, rfl, fun _ => rfl⟩
  · simp [State.log, h.gone, hf]
  · rw [hf] at hr
    cases hr

/-- What `setupFunctions` has established when it returns. -/
def SetupPost (f : UInt64) (cb : Bool) (v : CStr) (lock : Bool) (status : Status) (s : State) : Prop :=
  if status = .success then ∃ calls, Finished f cb v lock calls s ∧ Answers f cb calls else InCall f cb v lock [] s

theorem setupPost_stable (status : Status) : gadgetMachine.Stable (SetupPost f cb v lock status) := by
  unfold SetupPost
  by_cases hs : status = .success
  · simp only [hs, if_true]
    exact Machine.Stable.exists (fun calls => Finished.stable.and (Machine.Stable.const _))
  · simp only [hs, if_false]
    exact inCall_stable

/-- One callback is one answer. -/
theorem answers_one (f : UInt64) (status : Status) : Answers f true [(f, status)] := ⟨status, rfl⟩

/-- Without endpoints of its own, the gadget is pulled up at once. -/
theorem pullUpNow_meets {w : CStr} (hf : ffsRequested f = false) :
    UsbMeets (.setCurrentUsbFunctions f cb) (Building f cb v true (Progress.final f w)) (pullUpNow f cb)
      (SetupPost f cb v true) := by
  refine Machine.Meets.bind (R := fun up s => if up then Up f cb v w s else InCall f cb v true [] s) ?_ (fun up => ?_)
  · refine Machine.Meets.call Building.stable (fun s h => ⟨.inl rfl, h.noFail⟩) (fun up => ?_) (fun ch s up s' h hx => ?_)
    · cases up
      · exact inCall_stable
      · exact Up.stable w
    · have hb : Building f cb v true _ (s.write .main .gadgetName .pullup up) := h.write .gadgetName up (by simp) (by simp)
      rw [writeString_eq hx]
      cases up with
      | false => exact hb.toInCall
      | true => exact ⟨hb, rfl, s.trace, [], rfl, h.configured, by simp⟩
  · cases up with
    | false => exact Machine.Meets.ret inCall_stable (fun s h => h)
    | true =>
      refine Machine.Meets.bind (R := fun _ s => Finished f cb v true [] s ∧ PulledUp f s.trace) ?_ (fun _ => ?_)
      · refine Machine.Meets.call (Up.stable w) (fun s h => ⟨h.file, h.noFail⟩) (fun _ => ?_) (fun ch s r s' h hx => ?_)
        · intro e s s' h he
          obtain ⟨evs, ht, -⟩ := (envStep_frame he).trace
          exact ⟨Finished.stable e s s' h.1 he, by rw [ht]; exact h.2.append evs⟩
        · rw [always_eq hx]
          exact h.apply hf
      · have hst : gadgetMachine.Stable (fun s => Finished f cb v true [] s ∧ PulledUp f s.trace) := by
          intro e s s' h he
          obtain ⟨evs, ht, -⟩ := (envStep_frame he).trace
          exact ⟨Finished.stable e s s' h.1 he, by rw [ht]; exact h.2.append evs⟩
        cases cb with
        | false => exact Machine.Meets.ret hst (fun s h => ⟨[], h.1, rfl⟩)
        | true =>
          refine Machine.Meets.bind (Finished.callback .success hst (fun s h => ⟨h.1, fun _ => h.2⟩)) (fun _ => ?_)
          exact Machine.Meets.ret Finished.stable (fun s h => ⟨_, h, answers_one f .success⟩)

/-! ## Starting the monitor -/

/-- Everything is linked and the eventfd of the monitor to come is empty. -/
structure Armed (f : UInt64) (cb : Bool) (v w : CStr) (s : State) : Prop
    extends Building f cb v true (Progress.final f w) s where
  empty : s.eventCount = 0

theorem Armed.stable (w : CStr) : gadgetMachine.Stable (Armed f cb v w) :=
  fun e s s' h he => ⟨Building.stable e s s' h.toBuilding he, by rw [(envStep_alone he h.gone).2.2.1]; exact h.empty⟩

/-- A descriptor operation that changes nothing the call relies on. -/
theorem Armed.descriptor {w : CStr} {o : Op} (hpre : ∀ s, NoFail s → opPre q o s)
    (hx : ∀ ch s r s', exec o ch s = some (r, s') → s' = s) :
    UsbMeets q (Armed f cb v w) (perform o) (fun _ => Armed f cb v w) := by
  refine Machine.Meets.call (Armed.stable w) (fun s h => hpre s h.noFail) (fun _ => Armed.stable w) (fun ch s r s' h hc => ?_)
  rw [hx ch s r s' hc]
  exact h

/-- An operation that may fail and changes nothing. -/
theorem mayFail_self {s t : State} {ch : Choice} {r : Bool} (h : mayFail s s ch = some (r, t)) : t = s := by
  rcases mayFail_cases h with ⟨-, h⟩ | ⟨-, h⟩ <;> exact h

/-- The descriptors are made and all are watched, or the call goes on to fail. -/
theorem createFds_meets {w : CStr} :
    UsbMeets q (Building f cb v true (Progress.final f w)) createFds
      (fun ok s => if ok then Armed f cb v w s else InCall f cb v true [] s) := by
  have hfail : UsbMeets q (Armed f cb v w) (pure false)
      (fun ok s => if ok then Armed f cb v w s else InCall f cb v true [] s) :=
    Machine.Meets.ret (Armed.stable w) (fun s h => h.toInCall)
  refine Machine.Meets.bind (R := fun ok s => if ok then Armed f cb v w s else InCall f cb v true [] s) ?_ (fun ok => ?_)
  · refine Machine.Meets.call Building.stable (fun s h => ⟨h.notStarted, h.noFail⟩) (fun ok => ?_) (fun ch s ok s' h hx => ?_)
    · cases ok
      · exact inCall_stable
      · exact Armed.stable w
    · rcases mayFail_cases hx with ⟨rfl, rfl⟩ | ⟨rfl, rfl⟩
      · exact ⟨h.silent rfl h.gone rfl h.lock rfl rfl rfl, rfl⟩
      · exact h.toInCall
  cases ok
  · exact Machine.Meets.ret inCall_stable (fun s h => h)
  refine Machine.Meets.bind (Armed.descriptor (fun s h => h) (fun ch s r s' hx => mayFail_self hx)) (fun ok => ?_)
  cases ok
  · exact hfail
  refine Machine.Meets.bind (Armed.descriptor (fun s h => h) (fun ch s r s' hx => mayFail_self hx)) (fun ok => ?_)
  cases ok
  · exact hfail
  refine Machine.Meets.bind (Armed.descriptor (fun s h => h) (fun ch s r s' hx => mayFail_self hx)) (fun ok => ?_)
  cases ok
  · exact hfail
  · exact Machine.Meets.ret (Armed.stable w) (fun s h => h)

/-- The monitor is about to be started: its pull-up has not happened. -/
structure Starting (f : UInt64) (cb : Bool) (v w : CStr) (s : State) : Prop extends Armed f cb v w s where
  down : s.mem.gadgetPullup = false

theorem Starting.stable (w : CStr) : gadgetMachine.Stable (Starting f cb v w) :=
  fun e s s' h he => ⟨Armed.stable w e s s' h.toArmed he, by rw [(envStep_alone he h.gone).1]; exact h.down⟩

theorem neutral_started : ∀ e ∈ [Event.started], e.Neutral := by
  intro e he
  rw [List.mem_singleton.mp he]
  exact ⟨rfl, rfl, fun _ => rfl⟩

/-- The monitor starts quiet, in the configuration the call has set up. -/
theorem Starting.spawn {w : CStr} {s : State} (h : Starting f cb v w s) (hf : ffsRequested f = true) :
    Done f cb v true [] (({ s with monitor := some Monitor.init } : State).log .started) := by
  have hns : ∀ x, x ≠ Event.started → (x ∈ s.trace ++ [.started] ↔ x ∈ s.trace) := by
    intro x hx
    simp [hx]
  have hstop : ¬Stopping (({ s with monitor := some Monitor.init } : State).log .started) := by
    intro hst
    exact hst.2 (by simp [State.log])
  have hv : vendorRead (s.trace ++ [.started]) = vendorRead s.trace := by
    rw [vendorRead, lastRead_append neutral_started, vendorRead]
  refine ⟨⟨⟨?_, fun m _ hst => absurd hst hstop, fun _ => ?_, fun _ hg => ?_, fun _ m c hm hpc => ?_⟩, ?_, h.functions,
    head_append h.head, h.lock, ?_, h.safe.append (by simp [Event.call?]), h.props.imp_left (List.mem_append_left _)⟩, ?_,
    fun _ _ => hstop, h.configured.append neutral_started, ?_, ?_, ?_, ?_, fun _ => by simp [State.log]⟩
  · intro m hm _
    cases hm
    exact ⟨h.empty, by simp [MonitorPc.Quiet, Monitor.init, MonitorPc.ready, CheckFor.ready]⟩
  · rw [show (({ s with monitor := some Monitor.init } : State).log .started).mem.mCurrentUsbFunctions = f from h.functions]
    exact h.configured.append neutral_started
  · have hdown : s.mem.gadgetPullup = true := hg
    rw [h.down] at hdown
    cases hdown
  · cases hm
    cases hpc
  · exact h.applied.log rfl rfl rfl (by simp [Event.isApplied])
  · simp only [State.log]
    rw [filterMap_append_none _ _ _ (by simp [Event.call?])]
    exact h.calls
  · exact fun hm => h.noFail ((hns _ (by simp)).mp hm)
  · simp only [State.log, hv]
    exact h.vendorOf.imp_left (List.mem_append_left _)
  · simp only [State.log, hv, State.functionLinks]
    rw [(h.vendor w (final_vendor f w)).1, ← final_fns]
    exact h.links
  · exact h.endpoints.trans (final_endpoints f w)
  · rw [hf]
    rfl

/-- While functions are linked, what is watched is known. -/
theorem Building.watchedState {s : State} {g : Progress} (h : Building f cb v lock g s) : Watched s := by
  intro e he
  rw [h.endpoints] at he
  rw [h.watches]
  exact h.watched e he

/-- Once the monitor runs the call notes that it was created. -/
theorem Done.create {s : State} (h : Done f cb v lock calls s) (hf : ffsRequested f = true) :
    Finished f cb v lock calls { s with mem := { s.mem with mMonitorCreated := true } } := by
  refine ⟨⟨⟨⟨h.inv.quiet, h.inv.stopping, h.inv.configured, h.inv.pulled, h.inv.wrote⟩, h.applied, h.functions, h.head, h.lock,
    h.calls, h.safe, h.props⟩, h.noFail, h.calm, h.configured, h.vendor, h.links, h.endpoints, h.running, h.started⟩, ?_⟩
  exact (h.running.trans hf).symm

/-- Waiting for the pull-up leaves a finished call. -/
theorem waitForPullup_meets :
    UsbMeets q (Finished f cb v true []) waitForPullup (fun _ => Finished f cb v true []) := by
  refine Machine.Meets.bind (R := fun _ => Finished f cb v true []) ?_ (fun m => ?_)
  · refine Machine.Meets.call Finished.stable (fun s h => h.noFail) (fun _ => Finished.stable) (fun ch s m s' h hx => ?_)
    cases ch with
    | ok =>
      cases hx
      exact h
    | fail => cases hx
    | listing names => cases hx
  · by_cases hm : m.gadgetPullup = true
    · rw [if_pos hm]
      exact Machine.Meets.ret Finished.stable (fun s h => h)
    rw [if_neg hm]
    refine Machine.Meets.bind (R := fun _ => Finished f cb v false []) ?_ (fun _ => ?_)
    · refine Machine.Meets.call Finished.stable (fun s h => h.noFail) (fun _ => Finished.stable) (fun ch s r s' h hx => ?_)
      rw [always_eq hx]
      exact h.setLock false
    · refine Machine.Meets.call Finished.stable (fun s h => ⟨h.lock, h.noFail⟩) (fun _ => Finished.stable) ?_
      intro ch s r s' h hx
      simp only [gadgetMachine, exec, h.lock] at hx
      cases ch with
      | ok =>
        by_cases hp : s.mem.gadgetPullup = true
        · simp only [hp, Bool.false_eq_true, if_false, if_true, Option.some.injEq, Prod.mk.injEq, true_and] at hx
          rw [← hx]
          exact h.setLock true
        · simp [hp] at hx
      | fail =>
        simp only [Bool.false_eq_true, if_false, Option.some.injEq, Prod.mk.injEq, true_and] at hx
        rw [← hx]
        exact h.setLock true
      | listing names => simp at hx

/-- A successful pull-up that was published was made in this configuration. -/
theorem Finished.pulled {s : State} (h : Finished f cb v lock calls s) (hf : ffsRequested f = true)
    (hp : s.mem.gadgetPullup = true) : PulledUp f s.trace := by
  have := h.inv.pulled (h.started hf) hp
  rw [h.functions] at this
  exact this

/-- The monitor is started, and its pull-up awaited. -/
theorem startMonitor_meets {w : CStr} (hf : ffsRequested f = true) :
    UsbMeets (.setCurrentUsbFunctions f cb) (Armed f cb v w) (startMonitor f cb) (SetupPost f cb v true) := by
  refine Machine.Meets.bind (R := fun _ => Starting f cb v w) ?_ (fun _ =>
    Machine.Meets.bind (R := fun _ => Done f cb v true []) ?_ (fun _ =>
    Machine.Meets.bind (R := fun _ => Finished f cb v true []) ?_ (fun _ => ?_)))
  · refine store_meets (Armed.stable w) (Starting.stable w) (fun s h => ⟨h.notStarted, h.noFail⟩) (fun m => rfl) ?_
    intro s h
    have hs : Building.Keeps (Progress.final f w) s { s with mem := { s.mem with gadgetPullup := false } } [] :=
      ⟨.silent rfl rfl h.gone rfl, rfl, by simp, by simp⟩
    exact ⟨⟨h.quiet hs h.lock h.props (by simp) rfl rfl rfl, h.empty⟩, rfl⟩
  · refine Machine.Meets.call (Starting.stable w) (fun s h => ⟨h.watchedState, h.noFail⟩) (fun _ => Done.stable) ?_
    intro ch s r s' h hx
    rw [always_eq hx]
    exact h.spawn hf
  · refine Machine.Meets.call Done.stable (fun s h => ⟨rfl, fun _ => rfl, h.noFail⟩) (fun _ => Finished.stable) ?_
    intro ch s r s' h hx
    rw [always_eq hx]
    exact h.create hf
  · cases cb with
    | false => exact Machine.Meets.ret Finished.stable (fun s h => ⟨[], h, rfl⟩)
    | true =>
      have hst : ∀ m : Fields, gadgetMachine.Stable
          (fun s => Finished f true v true [] s ∧ (m.gadgetPullup = true → PulledUp f s.trace)) := by
        intro m e s s' h he
        obtain ⟨evs, ht, -⟩ := (envStep_frame he).trace
        exact ⟨Finished.stable e s s' h.1 he, fun hm => by rw [ht]; exact (h.2 hm).append evs⟩
      refine Machine.Meets.bind waitForPullup_meets (fun _ => Machine.Meets.bind
        (R := fun m s => Finished f true v true [] s ∧ (m.gadgetPullup = true → PulledUp f s.trace)) ?_ (fun m => ?_))
      · refine Machine.Meets.call Finished.stable (fun s h => h.noFail) hst (fun ch s m s' h hx => ?_)
        cases ch with
        | ok =>
          cases hx
          exact ⟨h, h.pulled hf⟩
        | fail => cases hx
        | listing names => cases hx
      · refine Machine.Meets.bind (Finished.callback _ (hst m) (fun s h => ⟨h.1, fun hs => h.2 ?_⟩)) (fun _ => ?_)
        · by_contra hm
          rw [if_neg hm] at hs
          cases hs
        · exact Machine.Meets.ret Finished.stable (fun s h => ⟨_, h, answers_one f _⟩)

/-! ## `setupFunctions` -/

/-- A call that failed comes back where it was. -/
theorem error_meets {P : State → Prop} (hP : gadgetMachine.Stable P) (h : ∀ s, P s → InCall f cb v lock [] s) :
    UsbMeets q P (pure Status.error) (SetupPost f cb v lock) :=
  Machine.Meets.ret hP h

/-- The setup under the lock. -/
theorem setupLocked_meets : UsbMeets (.setCurrentUsbFunctions f cb) (Entry f cb v true) (setupLocked f cb)
      (SetupPost f cb v true) := by
  refine Machine.Meets.bind (R := fun ok s =>
    if ok then Building f cb v true Progress.start s else InCall f cb v true [] s) ?_ (fun ok => ?_)
  · refine Machine.Meets.call Entry.stable (fun s h => ⟨h.notStarted, h.noFail⟩) (fun ok => ?_) (fun ch s ok s' h hx => ?_)
    · cases ok
      · exact inCall_stable
      · exact Building.stable
    · rcases mayFail_cases hx with ⟨rfl, rfl⟩ | ⟨rfl, rfl⟩
      · refine ⟨h.toInCall.alone h.notStarted (.silent rfl rfl h.gone rfl) h.gone rfl h.lock h.props, h.gone, h.notStarted,
          h.identity, h.linked, h.noLinks, h.noEndpoints, rfl, by simp [Progress.start], by simp [Progress.start]⟩
      · exact h.toInCall
  cases ok
  · exact error_meets inCall_stable (fun s h => h)
  refine Machine.Meets.bind (R := fun _ => Building f cb v true Progress.start) ?_ (fun _ => ?_)
  · exact ((Building.readable rfl).getProperty [] .bootMode (by simp)).mono (fun s h => ⟨h, by simp [Reads]⟩)
      (fun _ s h => h.1)
  refine Machine.Meets.bind linkFunctions_meets (fun linked => Machine.Meets.exists (fun w => ?_))
  cases linked with
  | none => exact error_meets inCall_stable (fun s h => h)
  | some st =>
    refine Machine.Meets.lift (fun hst => ?_)
    have hffs : st.ffsEnabled = ffsRequested f := by
      rw [hst, ← final_ffsEnabled f w]
      rfl
    cases hf : ffsRequested f with
    | false =>
      simp only [hffs, hf, Bool.not_false, if_true]
      exact pullUpNow_meets hf
    | true =>
      simp only [hffs, hf, Bool.not_true, Bool.false_eq_true, if_false]
      refine Machine.Meets.bind createFds_meets (fun created => ?_)
      cases created
      · exact error_meets inCall_stable (fun s h => h)
      · exact startMonitor_meets hf

/-- The setup takes the lock and releases it. -/
theorem setupFunctions_meets : UsbMeets (.setCurrentUsbFunctions f cb) (Entry f cb v false) (setupFunctions f cb)
      (SetupPost f cb v false) := by
  refine Machine.Meets.bind (R := fun _ => Entry f cb v true) ?_ (fun _ =>
    Machine.Meets.bind setupLocked_meets (fun status => Machine.Meets.bind (R := fun _ => SetupPost f cb v false status) ?_ ?_))
  · refine Machine.Meets.call Entry.stable (fun s h => ⟨h.lock, h.noFail⟩) (fun _ => Entry.stable) (fun ch s r s' h hx => ?_)
    simp only [gadgetMachine, exec, h.lock, Bool.false_eq_true, if_false] at hx
    rw [always_eq hx]
    exact ⟨h.toInCall.alone h.notStarted (.silent rfl rfl h.gone rfl) h.gone rfl rfl h.props, h.gone, h.notStarted, h.identity,
      h.linked, h.noLinks, h.noEndpoints⟩
  · refine Machine.Meets.call (setupPost_stable status) (fun s h => ?_) (fun _ => setupPost_stable status)
      (fun ch s r s' h hx => ?_)
    · unfold SetupPost at h
      split at h
      · obtain ⟨calls, h, -⟩ := h
        exact h.noFail
      · exact h.noFail
    · rw [always_eq hx]
      unfold SetupPost at h ⊢
      by_cases hs : status = .success
      · rw [if_pos hs] at h ⊢
        obtain ⟨calls, h, ha⟩ := h
        exact ⟨calls, h.setLock false, ha⟩
      · rw [if_neg hs] at h ⊢
        exact h.log ⟨rfl, rfl, rfl, rfl⟩ rfl (List.append_nil _).symm (by simp) (by simp)
  · exact fun _ => Machine.Meets.ret (setupPost_stable status) (fun s h => h)

/-! ## `setCurrentUsbFunctions` -/

/-- The call has begun: it has not cleared the flag yet. -/
structure Entering (f : UInt64) (cb : Bool) (v : CStr) (s : State) : Prop where
  inv : Inv s
  trace : ∃ evs, s.trace = .entered f cb :: evs ∧ ∀ e ∈ evs, e.isEnv = true
  lock : s.lockHeld = false
  created : s.mem.mMonitorCreated = s.monitor.isSome
  props : .propChanged ∈ s.trace ∨ vendorOf s.props = v

theorem Entering.stable : gadgetMachine.Stable (Entering f cb v) := by
  intro e s s' h he
  have hfr := envStep_frame he
  refine ⟨h.inv.env he, ?_, hfr.lock.trans h.lock, by rw [hfr.created, hfr.thread]; exact h.created, props_env he h.props⟩
  obtain ⟨evs, ht, hev⟩ := h.trace
  obtain ⟨evs', ht', hev'⟩ := hfr.trace
  refine ⟨evs ++ evs', by rw [ht', ht]; rfl, ?_⟩
  intro e hm
  rcases List.mem_append.mp hm with hm | hm
  · exact hev e hm
  · exact hev' e hm

/-- The events of a call that has only begun are its beginning and moves of the environment. -/
theorem Entering.not_mem {s : State} (h : Entering f cb v s) {x : Event} (hx : x.isEnv = false) (hne : x ≠ .entered f cb) :
    x ∉ s.trace := by
  obtain ⟨evs, ht, hev⟩ := h.trace
  rw [ht, List.mem_cons]
  rintro (hm | hm)
  · exact hne hm
  · rw [hev x hm] at hx
    cases hx

/-- No monitor has been started where a call enters. -/
theorem Entering.notStarted {s : State} (h : Entering f cb v s) : .started ∉ s.trace := h.not_mem rfl (by simp)

/-- Nothing has failed where a call enters. -/
theorem Entering.noFail {s : State} (h : Entering f cb v s) : NoFail s := h.not_mem rfl (by simp)

/-- Where a call enters, nothing of its own has happened. -/
theorem Entering.filterMap {β : Type} {sel : Event → Option β} {s : State} (h : Entering f cb v s)
    (hsel : ∀ e : Event, e.isEnv = true → sel e = none) (h0 : sel (.entered f cb) = none) : s.trace.filterMap sel = [] := by
  obtain ⟨evs, ht, hev⟩ := h.trace
  rw [ht, List.filterMap_cons_none h0, List.filterMap_eq_nil_iff]
  exact fun e hm => hsel e (hev e hm)

/-- Between calls the monitor, if there is one, is known, quiet and not asked to stop. -/
theorem Idle.between {s : State} (h : Idle s) :
    NoFail s ∧ s.lockHeld = false ∧ s.mem.mMonitorCreated = s.monitor.isSome ∧
      ∀ m, s.monitor = some m → s.eventCount = 0 ∧ m.pc.Quiet := by
  rcases h with h | ⟨f, cb, v, calls, h, -⟩
  · refine ⟨h.noFail, h.lock, by rw [h.created, h.monitor]; rfl, ?_⟩
    intro m hm
    rw [h.monitor] at hm
    cases hm
  · exact ⟨h.noFail, h.lock, h.created, fun m hm => h.inv.quiet m hm (h.calm m hm)⟩

theorem idle_stable : gadgetMachine.Stable Idle := fun _ _ _ h he => h.env he

/-- A call enters once it has the lock. -/
theorem enter_meets :
    UsbMeets q Idle (perform (.lockSetCurrentFunction f cb)) (fun _ s => ∃ v, Entering f cb v s) := by
  refine Machine.Meets.call idle_stable (fun s h => h.between.1) (fun _ => Machine.Stable.exists (fun v => Entering.stable)) ?_
  intro ch s r s' h hx
  obtain ⟨-, hl, hc, hq⟩ := h.between
  rw [always_eq hx]
  refine ⟨vendorOf s.props, ⟨fun m hm _ => hq m hm, fun m _ hst => ?_, fun hs => ?_, fun hs => ?_, fun hs => ?_⟩,
    ⟨[], rfl, by simp⟩, hl, hc, .inr rfl⟩
  · have := hst.1
    simp at this
  · simp at hs
  · simp at hs
  · simp at hs

/-- Clearing the flag is where the call becomes answerable for what the flag stands for. -/
theorem clearFlag_meets :
    UsbMeets q (Entering f cb v)
      (do perform (.store fun m => { m with mCurrentUsbFunctions := f })
          perform (.setApplied false))
      (fun _ => Tearing f cb v) := by
  have hst : gadgetMachine.Stable (fun s => Entering f cb v s ∧ s.mem.mCurrentUsbFunctions = f) :=
    fun e s s' h he => ⟨Entering.stable e s s' h.1 he, (envStep_frame he).functions.trans h.2⟩
  refine Machine.Meets.bind (R := fun _ s => Entering f cb v s ∧ s.mem.mCurrentUsbFunctions = f) ?_ (fun _ => ?_)
  · refine store_meets Entering.stable hst (fun s h => ⟨h.notStarted, h.noFail⟩) (fun m => rfl) (fun s h => ?_)
    have hns := h.notStarted
    exact ⟨⟨⟨h.inv.quiet, h.inv.stopping, fun hs => absurd hs hns, fun hs => absurd hs hns, fun hs => absurd hs hns⟩, h.trace,
      h.lock, h.created, h.props⟩, rfl⟩
  · refine Machine.Meets.call hst (fun s h => h.1.noFail) (fun _ => Tearing.stable) (fun ch s r s' h hx => ?_)
    rw [always_eq hx]
    have hne : ∀ x, x ≠ .applied .main false → (x ∈ s.trace ++ [.applied .main false] ↔ x ∈ s.trace) := by
      intro x hx
      simp [hx]
    have hns : .started ∉ s.trace ++ [.applied .main false] := by
      rw [hne _ (by simp)]
      exact h.1.notStarted
    have hno : ∀ b, .signalled b ∉ s.trace ++ [.applied .main false] := by
      intro b
      rw [hne _ (by simp)]
      exact h.1.not_mem rfl (by simp)
    have hstop : ¬Stopping (({ s with mem := { s.mem with mCurrentUsbFunctionsApplied := false } } : State).log
        (.applied .main false)) := fun hst => hno true hst.1
    have hcalls : s.trace.filterMap Event.call? = [] := h.1.filterMap (fun e he => call_of_isEnv he) rfl
    refine ⟨⟨⟨⟨fun m hm _ => h.1.inv.quiet m hm (fun hst => h.1.not_mem rfl (by simp) hst.1),
      fun m _ hst => absurd hst hstop, fun hs => absurd hs hns, fun hs => absurd hs hns, fun hs => absurd hs hns⟩,
      (fun ha => absurd ha (by simp [State.log])), h.2, ?_, h.1.lock, ?_, ?_, h.1.props.imp_left (List.mem_append_left _)⟩,
        hno false, h.1.created,
      fun _ _ => hstop⟩, hns, ?_, ?_⟩
    · obtain ⟨evs, ht, -⟩ := h.1.trace
      exact head_append ⟨evs, ht⟩
    · simp only [State.log]
      rw [filterMap_append_none _ _ _ (by simp [Event.call?])]
      exact hcalls
    · have hnone : ∀ a f', ¬a ++ [.called f' .success] <+: s.trace := by
        intro a f' hp
        have hmem : Event.called f' .success ∈ s.trace := hp.mem (by simp)
        exact h.1.not_mem rfl (by simp) hmem
      have hsafe : CallbacksSafe s.trace := fun a f' hp _ => absurd hp (hnone a f')
      exact hsafe.append (by simp [Event.call?])
    · simp only [State.log]
      rw [filterMap_append_none _ _ _ (by simp [Event.idWrite?])]
      exact h.1.filterMap (fun e he => (neutral_of_isEnv he).1) rfl
    · simp only [State.log]
      rw [filterMap_append_none _ _ _ (by simp [Event.link?])]
      exact h.1.filterMap (fun e he => (neutral_of_isEnv he).2.1) rfl

/-- Nothing is left, and the callback has been made or not. -/
structure Emptied (f : UInt64) (cb : Bool) (v : CStr) (calls : List (UInt64 × Status)) (s : State) : Prop
    extends InCall f cb v false calls s where
  gone : s.monitor = none
  noLinks : s.functionLinks = []
  noEndpoints : s.mem.mEndpointList = []

theorem Emptied.stable : gadgetMachine.Stable (Emptied f cb v calls) := by
  intro e s s' h he
  have hfr := envStep_frame he
  exact ⟨h.toInCall.env he, (envStep_alone he h.gone).2.2.2.1, by rw [functionLinks_env he]; exact h.noLinks,
    by rw [hfr.endpoints]; exact h.noEndpoints⟩

/-- A bare call has emptied the gadget. -/
theorem Bare.emptied {s : State} (h : Bare f cb v s) : Emptied f cb v [] s := ⟨h.inCall, h.gone, h.noLinks, h.noEndpoints⟩

/-- An empty gadget is all that no functions ask for. -/
theorem Emptied.complete {s : State} (h : Emptied GadgetFunction.none cb v calls s) (w : CStr) :
    Complete GadgetFunction.none w s := by
  refine ⟨?_, ?_, ?_⟩
  · rw [if_pos rfl]
    exact h.noLinks
  · rw [h.noEndpoints]
    decide
  · rw [h.toInCall.monitorRunning, h.gone]
    decide

/-- The error exit answers the call with a status that is no success. -/
theorem setError_meets {status : Status} (hs : status ≠ .success) :
    UsbMeets (.setCurrentUsbFunctions f cb) (InCall f cb v false []) (setError f cb status)
      (post (.setCurrentUsbFunctions f cb)) := by
  have hend : ∀ calls, Answers f cb calls →
      UsbMeets (.setCurrentUsbFunctions f cb) (InCall f cb v false calls) (pure status) (post (.setCurrentUsbFunctions f cb)) :=
      fun calls ha =>
    Machine.Meets.ret inCall_stable (fun s h => ⟨⟨v, calls, h, ha⟩, fun hs' => absurd hs' hs⟩)
  unfold setError
  cases cb with
  | false => exact hend [] rfl
  | true =>
    refine Machine.Meets.bind (R := fun _ => InCall f true v false [(f, status)]) ?_ (fun _ => hend _ (answers_one f status))
    refine Machine.Meets.call inCall_stable (fun s h => ?_) (fun _ => inCall_stable) (fun ch s r s' h hx => ?_)
    · exact ⟨rfl, ⟨h.head, h.calls, fun hs' => absurd hs' hs⟩, h.noFail⟩
    · rw [always_eq hx]
      exact h.called (fun hs' => absurd hs' hs)

/-- The exit for `NONE`. -/
theorem noneExit_meets (hf : f = GadgetFunction.none) :
    UsbMeets (.setCurrentUsbFunctions f cb) (Bare f cb v)
      (do if cb then perform (.setCurrentUsbFunctionsCb f .success)
          return Status.success)
      (post (.setCurrentUsbFunctions f cb)) := by
  subst hf
  have hend : ∀ calls, Answers GadgetFunction.none cb calls →
      UsbMeets (.setCurrentUsbFunctions GadgetFunction.none cb) (Emptied GadgetFunction.none cb v calls) (pure Status.success)
      (post (.setCurrentUsbFunctions GadgetFunction.none cb)) := fun calls ha =>
    Machine.Meets.ret Emptied.stable
      (fun s h => ⟨⟨v, calls, h.toInCall, ha⟩, fun _ => ⟨h.complete _, fun hne => absurd rfl hne⟩⟩)
  cases cb with
  | false => exact (hend [] rfl).mono (fun s h => h.emptied) (fun _ _ h => h)
  | true =>
    refine Machine.Meets.bind (R := fun _ => Emptied GadgetFunction.none true v [(GadgetFunction.none, .success)]) ?_
      (fun _ => hend _ (answers_one _ _))
    refine Machine.Meets.call Bare.stable (fun s h => ?_) (fun _ => Emptied.stable) (fun ch s r s' h hx => ?_)
    · exact ⟨rfl, ⟨h.head, h.calls, fun _ hne => absurd rfl hne⟩, h.noFail⟩
    · rw [always_eq hx]
      exact ⟨h.inCall.called (fun _ hne => absurd rfl hne), h.gone, h.noLinks, h.noEndpoints⟩

/-- A successful `setupFunctions` is a successful call. -/
theorem setupPost_post {status : Status} {s : State} (hf : f ≠ GadgetFunction.none) (hs : status = .success)
    (h : SetupPost f cb v false status s) : post (.setCurrentUsbFunctions f cb) status s := by
  unfold SetupPost at h
  rw [if_pos hs] at h
  obtain ⟨calls, h, ha⟩ := h
  exact ⟨⟨v, calls, h.inCall, ha⟩, fun _ => ⟨h.complete hf, fun _ => ⟨h.configured, h.vendor⟩⟩⟩

/-- Every call leaves what the requests promise. -/
theorem setCurrentUsbFunctions_meets (f : UInt64) (cb : Bool) :
    UsbMeets (.setCurrentUsbFunctions f cb) Idle (setCurrentUsbFunctions f cb) (post (.setCurrentUsbFunctions f cb)) := by
  refine Machine.Meets.bind enter_meets (fun _ => Machine.Meets.exists (fun v => ?_))
  refine Machine.Meets.bind (p := (do perform (.store fun m => { m with mCurrentUsbFunctions := f })
                                      perform (.setApplied false) : UsbM Unit)) clearFlag_meets (fun _ => ?_)
  refine Machine.Meets.bind tearDownGadget_meets (fun tornDown => ?_)
  by_cases ht : tornDown = .success
  · simp only [ht, ne_eq, not_true_eq_false, if_false, if_true]
    refine Machine.Meets.bind (R := fun _ => Bare f cb v) ?_ (fun _ => ?_)
    · refine Machine.Meets.call Bare.stable (fun s h => h.noFail) (fun _ => Bare.stable) (fun ch s r s' h hx => ?_)
      rw [always_eq hx]
      exact h
    · by_cases hf : f = GadgetFunction.none
      · rw [if_pos hf]
        exact noneExit_meets hf
      rw [if_neg hf]
      refine Machine.Meets.bind validateAndSetVidPid_meets (fun validated => ?_)
      by_cases hv : validated = .success
      · simp only [hv, not_true_eq_false, if_false, if_true]
        refine Machine.Meets.bind setupFunctions_meets (fun status => ?_)
        by_cases hs : status = .success
        · rw [if_neg (not_not.mpr hs)]
          exact Machine.Meets.ret (setupPost_stable status) (fun s h => setupPost_post hf hs h)
        · rw [if_pos hs]
          have herr : UsbMeets (.setCurrentUsbFunctions f cb) (InCall f cb v false []) (setError f cb status) _ :=
            setError_meets hs
          refine herr.mono (fun s h => ?_) (fun _ _ h => h)
          simpa only [SetupPost, if_neg hs] using h
      · simp only [hv, not_false_eq_true, if_true, if_false]
        exact setError_meets hv
  · simp only [ht, ne_eq, not_false_eq_true, if_true, if_false]
    exact (setError_meets ht).mono (fun s h => h.toInCall) (fun _ _ h => h)

/-! ## The other calls -/

/-- A report of the flag between calls is a report of what the last call has set up. -/
theorem Idle.reported {s : State} (h : Idle s) (ha : s.mem.mCurrentUsbFunctionsApplied = true) :
    Reported s.mem.mCurrentUsbFunctions s := by
  rcases h with h | ⟨f, cb, v, calls, h, -⟩
  · rw [h.applied] at ha
    cases ha
  · refine ⟨?_, h.applied ha⟩
    obtain ⟨rest, ht⟩ := h.head
    exact ⟨cb, rest, by rw [ht, h.functions]⟩

/-- The environment does not clear the flag. -/
theorem applied_env {e : Env} {s s' : State} (he : envStep e s = some s') (ha : s.mem.mCurrentUsbFunctionsApplied = true) :
    s'.mem.mCurrentUsbFunctionsApplied = true := by
  rcases envStep_cases he with ⟨ch, -, hm⟩ | ⟨h1, -⟩
  · obtain ⟨m, m', -, -, hc⟩ := monitorStep_cases hm
    rcases hc with ⟨-, q, evs, -, rfl⟩ | ⟨c, -, -, rfl⟩ | ⟨c, -, -, rfl⟩ | ⟨c, -, -, -, rfl⟩ | ⟨-, -, -, -, -, rfl⟩
    · exact ha
    · exact ha
    · exact ha
    · rfl
    · exact ha
  · rw [h1]
    exact ha

/-- A question about the functions leaves the gadget as it is. -/
theorem getCurrentUsbFunctions_meets :
    UsbMeets .getCurrentUsbFunctions Idle (body .getCurrentUsbFunctions) (post .getCurrentUsbFunctions) := by
  have hst : ∀ m : Fields, gadgetMachine.Stable (fun s => Idle s ∧ m.mCurrentUsbFunctions = s.mem.mCurrentUsbFunctions ∧
      (m.mCurrentUsbFunctionsApplied = true → s.mem.mCurrentUsbFunctionsApplied = true)) := by
    intro m e s s' h he
    exact ⟨h.1.env he, h.2.1.trans (envStep_frame he).functions.symm, fun hm => applied_env he (h.2.2 hm)⟩
  refine Machine.Meets.bind (R := fun _ => Idle) (Machine.Meets.bind (R := fun m s => Idle s ∧
    m.mCurrentUsbFunctions = s.mem.mCurrentUsbFunctions ∧
    (m.mCurrentUsbFunctionsApplied = true → s.mem.mCurrentUsbFunctionsApplied = true)) ?_ (fun m => ?_)) (fun _ => ?_)
  · refine Machine.Meets.call idle_stable (fun s h => h.between.1) hst (fun ch s m s' h hx => ?_)
    cases ch with
    | ok =>
      cases hx
      exact ⟨h, rfl, id⟩
    | fail => cases hx
    | listing names => cases hx
  · refine Machine.Meets.call (hst m) (fun s h => ?_) (fun _ => idle_stable) (fun ch s r s' h hx => ?_)
    · by_cases ha : m.mCurrentUsbFunctionsApplied = true
      · rw [if_pos ha, h.2.1]
        exact ⟨h.2.2 ha, h.1.reported (h.2.2 ha), h.1.between.1⟩
      · rw [if_neg ha]
        exact h.1.between.1
    · rw [always_eq hx]
      exact h.1
  · exact Machine.Meets.ret idle_stable (fun s h => h)

/-- A reset leaves what the requests promise. -/
theorem reset_meets : UsbMeets .reset Idle reset (post .reset) := by
  refine Machine.Meets.bind (R := fun _ => Idle) ?_ (fun down => ?_)
  · refine Machine.Meets.call idle_stable (fun s h => ⟨.inr (.inl ⟨rfl, h⟩), h.between.1⟩) (fun _ => idle_stable)
      (fun ch s r s' h hx => ?_)
    rw [writeString_eq hx]
    rcases h with h | ⟨f, cb, v, calls, h, ha⟩
    · refine .inl ⟨by simp [h.monitor], by simp [h.created], by simp [h.applied], by simp [h.lock], ?_⟩
      have hno := h.noFail
      unfold NoFail at hno ⊢
      rw [write_trace]
      simpa using hno
    · refine .inr ⟨f, cb, v, calls, ?_, ha⟩
      refine h.log (sameCore_write ..) (by simp [h.lock]) (write_trace ..) ?_ (fun _ e he => ?_)
      · exact fun e he => List.mem_singleton.mp he ▸ plain_wrote _ _ _
      · rw [List.mem_singleton.mp he]
        exact ⟨rfl, rfl, fun _ => rfl⟩
  · cases down
    · exact Machine.Meets.ret idle_stable (fun s h => h)
    · exact Machine.Meets.ret idle_stable (fun s h => h)

/-! ## The service -/

/-- Behind every request the service is idle. -/
theorem post_idle (q : Req) (status : Status) (s : State) (h : post q status s) : Idle s := by
  cases q with
  | setCurrentUsbFunctions f cb =>
    obtain ⟨⟨v, calls, h, ha⟩, -⟩ := h
    exact h.idle ha
  | getCurrentUsbFunctions => exact h
  | reset => exact h

/-- Every request meets its contract. -/
theorem body_meets (q : Req) : UsbMeets q Idle (body q) (post q) := by
  cases q with
  | setCurrentUsbFunctions f cb => exact setCurrentUsbFunctions_meets f cb
  | getCurrentUsbFunctions => exact getCurrentUsbFunctions_meets
  | reset => exact reset_meets

/-- Some run leads from one moment of the service to the other. -/
abbrev Reaches (c c' : Service) : Prop := gadgetMachine.Reaches body c c'

/-- At every moment of every run the service is idle or the rest of the running call meets its contract. -/
theorem service_ok {s : State} {c : Service} (hs : Idle s) (h : Reaches ⟨s, none⟩ c) :
    c.Ok gadgetMachine opPre post Idle :=
  Machine.reaches_ok idle_stable body_meets post_idle (c := ⟨s, none⟩) hs h

end Pixel845.Usb
