import Pixel845.Lemmas.UsbEnv

/-!
# A call keeps its invariant

The environment keeps `InCall` and `Idle` (`InCall.env`, `Idle.env`), and so does an operation of the call that leaves the
members and the monitor alone and logs nothing but plain events (`InCall.log`).
-/

namespace Pixel845.Usb

/-! ## Callbacks -/

/-- Events that are no callback keep the callbacks safe. -/
theorem CallbacksSafe.append {tr evs : List Event} (h : CallbacksSafe tr) (he : ∀ e ∈ evs, e.call? = none) :
    CallbacksSafe (tr ++ evs) := by
  induction evs generalizing tr with
  | nil => simpa using h
  | cons e evs ih =>
    have hcons : tr ++ e :: evs = (tr ++ [e]) ++ evs := by simp
    rw [hcons]
    refine ih ?_ (fun x hx => he x (List.mem_cons_of_mem _ hx))
    intro a f hp hf
    rcases List.prefix_concat_iff.mp hp with heq | hp
    · have hlast : Event.called f .success = e := by
        have := congrArg List.getLast? heq
        simpa using this
      have := he e List.mem_cons_self
      rw [← hlast] at this
      cases this
    · exact h a f hp hf

/-- A callback keeps the callbacks safe if it reports no success, or reports it after a pull-up. -/
theorem CallbacksSafe.called {tr : List Event} {f : UInt64} {status : Status} (h : CallbacksSafe tr)
    (hs : status = .success → f ≠ GadgetFunction.none → PulledUp f tr) : CallbacksSafe (tr ++ [.called f status]) := by
  intro a f' hp hf
  rcases List.prefix_concat_iff.mp hp with heq | hp
  · obtain ⟨ha, hc⟩ := List.append_inj' heq rfl
    simp only [List.cons.injEq, Event.called.injEq, and_true] at hc
    obtain ⟨rfl, rfl⟩ := hc
    exact ha ▸ hs rfl hf
  · exact h a f' hp hf

/-! ## The environment -/

/-- No move of the environment fails. -/
theorem NoFail.env {s s' : State} (h : NoFail s) (hg : EnvGrows s.trace s'.trace) : NoFail s' := by
  obtain ⟨evs, ht, he⟩ := hg
  unfold NoFail
  rw [ht, mem_append_env rfl he]
  exact h

/-- The first event stays the first. -/
theorem head_append {f : UInt64} {cb : Bool} {tr evs : List Event} (h : ∃ rest, tr = .entered f cb :: rest) :
    ∃ rest, tr ++ evs = .entered f cb :: rest := by
  obtain ⟨rest, rfl⟩ := h
  exact ⟨rest ++ evs, rfl⟩

/-- What the properties were stays true of the vendor string until another process changes one. -/
theorem props_env {e : Env} {s s' : State} {v : CStr} (he : envStep e s = some s')
    (h : .propChanged ∈ s.trace ∨ vendorOf s.props = v) : .propChanged ∈ s'.trace ∨ vendorOf s'.props = v := by
  obtain ⟨evs, ht, -⟩ := (envStep_frame he).trace
  rcases h with h | h
  · left
    rw [ht]
    exact List.mem_append_left _ h
  · rcases envStep_props he with hp | hp
    · right
      rw [hp]
      exact h
    · exact .inl hp

/-- The environment keeps the invariant of a call. -/
theorem CallCore.env {f : UInt64} {cb : Bool} {v : CStr} {lock : Bool} {calls : List (UInt64 × Status)} {e : Env}
    {s s' : State} (h : CallCore f cb v lock calls s) (he : envStep e s = some s') : CallCore f cb v lock calls s' := by
  have hfr := envStep_frame he
  obtain ⟨evs, ht, hev⟩ := hfr.trace
  refine ⟨h.inv.env he, h.applied.env h.inv he, hfr.functions.trans h.functions, ?_, hfr.lock.trans h.lock, ?_, ?_,
    props_env he h.props⟩
  · rw [ht]
    exact head_append h.head
  · rw [ht, filterMap_append_none _ _ _ (fun e hm => call_of_isEnv (hev e hm))]
    exact h.calls
  · rw [ht]
    exact h.safe.append (fun e hm => call_of_isEnv (hev e hm))

/-- The state of a call outlasts the moves of the environment. -/
theorem InCall.env {f : UInt64} {cb : Bool} {v : CStr} {lock : Bool} {calls : List (UInt64 × Status)} {e : Env} {s s' : State}
    (h : InCall f cb v lock calls s) (he : envStep e s = some s') : InCall f cb v lock calls s' := by
  have hfr := envStep_frame he
  refine ⟨h.toCallCore.env he, h.noFail.env hfr.trace, ?_, ?_⟩
  · rw [hfr.created, hfr.thread]
    exact h.created
  · intro m hm hn
    have hsome : s.monitor.isSome = true := by rw [← hfr.thread, hm]; rfl
    obtain ⟨m0, hm0⟩ := Option.isSome_iff_exists.mp hsome
    exact h.calm m0 hm0 ((stopping_env hfr.trace).mp hn)

/-- A call that has just begun has not called back. -/
theorem Fresh.uncalled {s : State} (h : Fresh s) : Uncalled s :=
  ⟨h.monitor, h.created, h.applied, h.lock, by simp [NoFail, h.trace]⟩

/-- Without a callback there is none after a move of the environment. -/
theorem Uncalled.env {e : Env} {s s' : State} (h : Uncalled s) (he : envStep e s = some s') : Uncalled s' := by
  obtain ⟨h1, -, -, h4, -⟩ := envStep_alone he h.monitor
  have hfr := envStep_frame he
  exact ⟨h4, by rw [h1]; exact h.created, by rw [h1]; exact h.applied, hfr.lock.trans h.lock, h.noFail.env hfr.trace⟩

/-- The environment keeps the condition between calls. -/
theorem Idle.env {e : Env} {s s' : State} (h : Idle s) (he : envStep e s = some s') : Idle s' := by
  rcases h with h | ⟨f, cb, v, calls, h, ha⟩
  · exact .inl (h.env he)
  · exact .inr ⟨f, cb, v, calls, h.env he, ha⟩

/-! ## Operations that log plain events -/

/-- An event of the call that neither concerns its monitor nor its flag nor its callback. -/
structure Event.Plain (e : Event) : Prop where
  notStarted : e ≠ .started
  notSignalled : ∀ b, e ≠ .signalled b
  notCall : e.call? = none
  notApplied : e.isApplied = false
  notMonitor : e.isWriteOf .monitor = false

theorem plain_wrote (content : Content) (path : Path) (ok : Bool) : (Event.wrote .main content path ok).Plain :=
  ⟨by simp, by simp, rfl, rfl, rfl⟩

theorem plain_linked (function : Function) (index : Nat) (ok : Bool) : (Event.linked function index ok).Plain :=
  ⟨by simp, by simp, rfl, rfl, rfl⟩

theorem plain_got (key : PropKey) (value : CStr) : (Event.got key value).Plain := ⟨by simp, by simp, rfl, rfl, rfl⟩

/-- Plain events add none of another kind. -/
theorem mem_append_plain {x : Event} (hx : ¬x.Plain) {tr evs : List Event} (h : ∀ e ∈ evs, e.Plain) :
    x ∈ tr ++ evs ↔ x ∈ tr := by
  rw [List.mem_append]
  exact ⟨fun hm => hm.resolve_right (fun hm => hx (h x hm)), .inl⟩

theorem not_plain_started : ¬Event.started.Plain := fun h => h.notStarted rfl

theorem not_plain_signalled (b : Bool) : ¬(Event.signalled b).Plain := fun h => h.notSignalled b rfl

/-- Two states agree on the members, the monitor and its eventfd, and on what the properties determine. -/
structure SameCore (s s' : State) : Prop where
  mem : s'.mem = s.mem
  monitor : s'.monitor = s.monitor
  eventCount : s'.eventCount = s.eventCount
  props : vendorOf s'.props = vendorOf s.props

/-- An operation that leaves the members and the monitor alone and logs plain events keeps the invariant of the monitor, provided
that what it logs is neutral once the monitor has been started. -/
theorem Inv.log {s s' : State} (h : Inv s) (hs : SameCore s s') {evs : List Event} (ht : s'.trace = s.trace ++ evs)
    (hp : ∀ e ∈ evs, e.Plain) (hn : .started ∈ s.trace → ∀ e ∈ evs, e.Neutral) : Inv s' := by
  have hst : Stopping s' ↔ Stopping s := by
    unfold Stopping
    rw [ht, mem_append_plain not_plain_started hp, mem_append_plain (not_plain_signalled true) hp]
  have hstart : .started ∈ s'.trace ↔ .started ∈ s.trace := by rw [ht, mem_append_plain not_plain_started hp]
  refine ⟨?_, ?_, ?_, ?_, ?_⟩
  · intro m hm hns
    rw [hs.eventCount]
    exact h.quiet m (hs.monitor ▸ hm) (fun hs => hns (hst.mpr hs))
  · intro m hm hns
    rw [hs.eventCount]
    exact h.stopping m (hs.monitor ▸ hm) (hst.mp hns)
  · intro hsm
    rw [hs.mem, ht]
    exact (h.configured (hstart.mp hsm)).append (hn (hstart.mp hsm))
  · intro hsm hg
    rw [hs.mem] at hg ⊢
    rw [ht]
    exact (h.pulled (hstart.mp hsm) hg).append evs
  · intro hsm m c hm hpc
    obtain ⟨a, b, hab, hca, hb⟩ := h.wrote (hstart.mp hsm) m c (hs.monitor ▸ hm) hpc
    refine ⟨a, b ++ evs, by rw [ht, hab]; simp, by rw [hs.mem]; exact hca, ?_⟩
    intro e hm
    rcases List.mem_append.mp hm with hm | hm
    · exact hb e hm
    · exact (hp e hm).notMonitor

/-- What the flag stands for survives whatever leaves the mask and the flag alone. -/
theorem AppliedOk.log {s s' : State} (h : AppliedOk s) (hf : s'.mem.mCurrentUsbFunctions = s.mem.mCurrentUsbFunctions)
    (ha : s'.mem.mCurrentUsbFunctionsApplied = s.mem.mCurrentUsbFunctionsApplied) {evs : List Event}
    (ht : s'.trace = s.trace ++ evs) (hp : ∀ e ∈ evs, e.isApplied = false) : AppliedOk s' := by
  intro hap
  rw [ha] at hap
  rw [hf, ht]
  rcases h hap with h | h
  · exact .inl (h.append hp)
  · exact .inr (h.append evs)

/-- Plain events do not change whether a monitor is being stopped. -/
theorem stopping_log {s s' : State} {evs : List Event} (ht : s'.trace = s.trace ++ evs) (hp : ∀ e ∈ evs, e.Plain) :
    Stopping s' ↔ Stopping s := by
  unfold Stopping
  rw [ht, mem_append_plain not_plain_started hp, mem_append_plain (not_plain_signalled true) hp]

/-- An operation that leaves the members and the monitor alone and logs plain events keeps the invariant of the call. -/
theorem CallCore.log {f : UInt64} {cb : Bool} {v : CStr} {lock lock' : Bool} {calls : List (UInt64 × Status)} {s s' : State}
    (h : CallCore f cb v lock calls s) (hs : SameCore s s') (hl : s'.lockHeld = lock') {evs : List Event}
    (ht : s'.trace = s.trace ++ evs) (hp : ∀ e ∈ evs, e.Plain) (hn : .started ∈ s.trace → ∀ e ∈ evs, e.Neutral) :
    CallCore f cb v lock' calls s' := by
  refine ⟨h.inv.log hs ht hp hn, h.applied.log (by rw [hs.mem]) (by rw [hs.mem]) ht (fun e hm => (hp e hm).notApplied), ?_, ?_,
    hl, ?_, ?_, ?_⟩
  · rw [hs.mem]
    exact h.functions
  · rw [ht]
    exact head_append h.head
  · rw [ht, filterMap_append_none _ _ _ (fun e hm => (hp e hm).notCall)]
    exact h.calls
  · rw [ht]
    exact h.safe.append (fun e hm => (hp e hm).notCall)
  · rw [ht, hs.props]
    exact h.props.imp_left (List.mem_append_left _)

/-- The state of a call goes on with plain events. -/
theorem InCall.log {f : UInt64} {cb : Bool} {v : CStr} {lock lock' : Bool} {calls : List (UInt64 × Status)} {s s' : State}
    (h : InCall f cb v lock calls s) (hs : SameCore s s') (hl : s'.lockHeld = lock') {evs : List Event}
    (ht : s'.trace = s.trace ++ evs) (hp : ∀ e ∈ evs, e.Plain) (hn : .started ∈ s.trace → ∀ e ∈ evs, e.Neutral) :
    InCall f cb v lock' calls s' := by
  refine ⟨h.toCallCore.log hs hl ht hp hn, ?_, ?_, ?_⟩
  · unfold NoFail
    rw [ht, mem_append_plain (not_plain_signalled false) hp]
    exact h.noFail
  · rw [hs.mem, hs.monitor]
    exact h.created
  · intro m hm hn'
    exact h.calm m (hs.monitor ▸ hm) ((stopping_log ht hp).mp hn')

/-- The callback is the call's answer. -/
theorem InCall.called {f : UInt64} {cb : Bool} {v : CStr} {lock : Bool} {s : State} {status : Status}
    (h : InCall f cb v lock [] s) (hs : status = .success → f ≠ GadgetFunction.none → PulledUp f s.trace) :
    InCall f cb v lock [(f, status)] (s.log (.called f status)) := by
  have hne : ∀ x, x ≠ .called f status → (x ∈ (s.log (.called f status)).trace ↔ x ∈ s.trace) := by
    intro x hx
    simp [State.log, hx]
  have hst : Stopping (s.log (.called f status)) ↔ Stopping s := by
    unfold Stopping
    rw [hne _ (by simp), hne _ (by simp)]
  have hneutral : ∀ e ∈ [Event.called f status], e.Neutral := by
    intro e he
    rw [List.mem_singleton.mp he]
    exact ⟨rfl, rfl, fun _ => rfl⟩
  refine ⟨⟨⟨?_, ?_, ?_, ?_, ?_⟩, ?_, h.functions, head_append h.head, h.lock, ?_, h.safe.called hs, ?_⟩, ?_, h.created, ?_⟩
  · exact fun m hm hn => h.inv.quiet m hm (fun hn' => hn (hst.mpr hn'))
  · exact fun m hm hn => h.inv.stopping m hm (hst.mp hn)
  · exact fun hs => (h.inv.configured ((hne _ (by simp)).mp hs)).append hneutral
  · exact fun hs hg => (h.inv.pulled ((hne _ (by simp)).mp hs) hg).append _
  · intro hs m c hm hpc
    obtain ⟨a, b, hab, hca, hb⟩ := h.inv.wrote ((hne _ (by simp)).mp hs) m c hm hpc
    refine ⟨a, b ++ [.called f status], by simp [State.log, hab], hca, ?_⟩
    intro e hm
    rcases List.mem_append.mp hm with hm | hm
    · exact hb e hm
    · rw [List.mem_singleton.mp hm]
      rfl
  · intro ha
    rcases h.applied ha with h | h
    · exact .inl (h.append (by simp [Event.isApplied]))
    · exact .inr (h.append _)
  · simp only [State.log, List.filterMap_append, h.calls]
    rfl
  · exact h.props.imp_left (List.mem_append_left _)
  · unfold NoFail
    rw [hne _ (by simp)]
    exact h.noFail
  · exact fun m hm hn => h.calm m hm (hst.mp hn)

/-- A call that was answered, or that has no callback, leaves the service idle. -/
theorem InCall.idle {f : UInt64} {cb : Bool} {v : CStr} {calls : List (UInt64 × Status)} {s : State}
    (h : InCall f cb v false calls s) (ha : Answers f cb calls) : Idle s :=
  .inr ⟨f, cb, v, calls, h, ha⟩

end Pixel845.Usb
