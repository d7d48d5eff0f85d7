import Pixel845.Lemmas.UsbRun

/-!
# What `getCurrentUsbFunctions` reports

The flag `mCurrentUsbFunctionsApplied` is cleared before the monitor of the earlier call is stopped, and it is not cleared when
the gadget is reset. So the report is true in the runs in which no monitor of an earlier call sets the flag
(`applied_report_truthful`), and agrees with the controller in those of these runs in which no reset pulls the gadget down again
(`applied_report_pulled_up`); a run of each other kind is shown to break it.
-/

namespace Pixel845.Usb

/-- A report that the functions are applied is true: the most recent call was for this mask, its configuration was set up, and the
write that set the flag came after that. -/
def Truthful (f : UInt64) (tr : List Event) : Prop := (∃ cb rest, tr = .entered f cb :: rest) ∧ AppliedBy f tr

/-! ## The monitor of an earlier call -/

/-- A step of the monitor that sets the flag is one of the monitor that the most recent call has started. -/
def setsOwnFlag (e : Env) (s : State) : Bool :=
  match e, s.monitor with
  | .monitor _, some m =>
    match m.pc with
    | .publish _ => decide (.started ∈ s.trace)
    | _ => true
  | _, _ => true

/-- The service in the runs in which no monitor of an earlier call sets the flag. -/
def ownFlagMachine : Machine Op Op.Res State Choice Env := gadgetMachine.guard setsOwnFlag (fun _ _ _ => true)

namespace UsbStatusAux

/-- No flag is set late by events of the call's own monitor. -/
theorem not_lateFlag_append {tr evs : List Event} (h : ¬LateFlag tr) (he : .applied .monitor true ∈ evs → .started ∈ tr) :
    ¬LateFlag (tr ++ evs) := by
  rintro ⟨a, b, hab, ha⟩
  rcases List.append_eq_append_iff.mp hab with ⟨c, rfl, hevs⟩ | ⟨c, htr, hb⟩
  · have hmem : Event.applied .monitor true ∈ evs := by
      rw [hevs]
      simp
    exact ha (List.mem_append_left _ (he hmem))
  · cases c with
    | nil =>
      have hmem : Event.applied .monitor true ∈ evs := by
        rw [← List.nil_append evs, ← hb]
        exact List.mem_cons_self
      rw [List.append_nil] at htr
      exact ha (htr ▸ he hmem)
    | cons x c =>
      rw [List.cons_append, List.cons.injEq] at hb
      exact h ⟨a, c, by rw [htr, ← hb.1], ha⟩

/-- A move of the environment that is no late publication sets no flag late. -/
theorem not_lateFlag_env {e : Env} {s s' : State} (h : ¬LateFlag s.trace) (hg : setsOwnFlag e s = true)
    (he : envStep e s = some s') : ¬LateFlag s'.trace := by
  rcases envStep_cases he with ⟨ch, rfl, hm⟩ | ⟨-, -, -, -, -, -, -, h8⟩
  · obtain ⟨m, m', hmon, -, hc⟩ := monitorStep_cases hm
    rcases hc with ⟨-, q, evs, hev, rfl⟩ | ⟨d, -, -, rfl⟩ | ⟨d, -, -, rfl⟩ | ⟨d, hpc, -, -, rfl⟩ | ⟨-, -, -, -, -, rfl⟩
    · exact not_lateFlag_append h fun hm => by cases hev _ hm
    · exact not_lateFlag_append h (by simp)
    · exact not_lateFlag_append h (by simp)
    · refine not_lateFlag_append h (fun _ => ?_)
      simpa [setsOwnFlag, hmon, hpc] using hg
    · exact h
  · rcases h8 with ⟨h8, -⟩ | h8
    · rw [h8]
      exact h
    · rw [h8]
      exact not_lateFlag_append h (by simp)

/-- No operation of a call sets the flag late. -/
theorem not_lateFlag_exec {o : Op} {ch : Choice} {s s' : State} {r : o.Res} (h : ¬LateFlag s.trace)
    (hx : exec o ch s = some (r, s')) : ¬LateFlag s'.trace := by
  rcases (exec_frame hx).trace with ⟨f, cb, ht⟩ | ⟨evs, ht, hev⟩
  · rw [ht]
    rintro ⟨a, b, hab, -⟩
    have hmem : Event.applied .monitor true ∈ [Event.entered f cb] := by
      rw [hab]
      simp
    simp at hmem
  · rw [ht]
    refine not_lateFlag_append h (fun hm => ?_)
    have := (hev _ hm).1
    cases this

/-- No step of such a run sets the flag late. -/
theorem not_lateFlag_step {c c' : Service} {a : Machine.Action Choice Env Req} (h : ¬LateFlag c.state.trace)
    (hs : ownFlagMachine.step body c a = some c') : ¬LateFlag c'.state.trace := by
  rcases Machine.step_cases hs with ⟨e, -, he, -⟩ | ⟨ch, q, o, k, r, -, -, hx, -⟩ | ⟨q, x, -, -, rfl⟩ | ⟨q, -, -, rfl⟩
  · exact not_lateFlag_env h (Machine.guard_env he).1 (Machine.guard_env he).2
  · exact not_lateFlag_exec h (Machine.guard_exec hx).2
  · exact h
  · exact h

end UsbStatusAux

open UsbStatusAux in
/-- In every run in which no monitor of an earlier call sets the flag, a report that the functions are applied is true. -/
theorem applied_report_truthful {s : State} {c : Service} {f : UInt64} (hs : Fresh s)
    (h : ownFlagMachine.Reaches body ⟨s, none⟩ c) (hr : reporting c = some (f, .functionsApplied)) :
    Truthful f c.state.trace := by
  obtain ⟨-, ⟨hhead, hflag⟩, -⟩ := report_pre (.inl hs.uncalled) h.of_guard hr
  have hlate : ¬LateFlag c.state.trace := by
    refine h.invariant (I := fun d => ¬LateFlag d.state.trace) ?_ (fun a d d' hd hst => not_lateFlag_step hd hst)
    rintro ⟨a, b, hab, -⟩
    rw [hs.trace] at hab
    simp at hab
  exact ⟨hhead, hflag.resolve_right hlate⟩

/-! ## Runs -/

/-- A device on which nothing was set up yet: a debuggable build without vendor functions. -/
def freshDevice : State where
  mem := { mCurrentUsbFunctions := GadgetFunction.none, mCurrentUsbFunctionsApplied := false, mMonitorCreated := false,
           mEndpointList := [], gadgetPullup := false }
  files := fun _ => none
  bound := false
  links := []
  props := fun key => if key = .buildType then "userdebug".toList else []
  present := fun _ => false
  watches := []
  queue := []
  eventCount := 0
  lockHeld := false
  monitor := none
  trace := []

theorem freshDevice_fresh : Fresh freshDevice := ⟨rfl, rfl, rfl, rfl, rfl⟩

/-- The actions of a run. -/
abbrev Run : Type := List (Machine.Action Choice Env Req)

/-- The next operations of the call succeed. -/
def succeed (n : Nat) : Run := List.replicate n (.act .ok)

/-- The next steps of the monitor succeed. -/
def monitorSteps (n : Nat) : Run := List.replicate n (.env (.monitor (.ok 0)))

/-- A call on a bare device comes to the unlinking of the functions and finds nothing there. -/
def tearDownBare (f : UInt64) : Run :=
  .request (.setCurrentUsbFunctions f false) :: succeed 8 ++ [.act (.listing [])] ++ succeed 3

/-- `setCurrentUsbFunctions(RNDIS)` succeeds. -/
def rndisRun : Run := tearDownBare GadgetFunction.rndis ++ succeed 18 ++ [.finish]

/-- `setCurrentUsbFunctions(ADB)` succeeds, and the daemon brings its endpoints up. -/
def adbRun : Run :=
  tearDownBare GadgetFunction.adb ++ succeed 26 ++ [.finish, .env (.appear ⟨.adb, 1⟩ 0), .env (.appear ⟨.adb, 2⟩ 0)]

/-- A report is asked for, and the members are read. -/
def askRun : Run := [.request .getCurrentUsbFunctions, .act .ok]

/-- The monitor started for ADB pulls the gadget up after the call for MTP has cleared the flag, and that call then fails. -/
def lateRun : Run :=
  adbRun ++ [.request (.setCurrentUsbFunctions GadgetFunction.mtp false)] ++ succeed 3 ++ monitorSteps 6 ++
    [.act .ok, .act .fail, .finish] ++ askRun

/-- The report after the failed call for MTP says that it is applied, though the call has set nothing up. -/
theorem late_report_untruthful :
    ∃ s c, Fresh s ∧ Reaches ⟨s, none⟩ c ∧ reporting c = some (GadgetFunction.mtp, .functionsApplied) ∧
      ¬Truthful GadgetFunction.mtp c.state.trace := by
  obtain ⟨c, hc, ht⟩ := reaches_of_endsIn gadgetMachine freshDevice lateRun
    (fun c => reporting c = some (GadgetFunction.mtp, .functionsApplied) && c.state.trace.all (fun e => e.idWrite? = none))
    (by decide)
  simp only [Bool.and_eq_true, decide_eq_true_eq, List.all_eq_true] at ht
  refine ⟨freshDevice, c, freshDevice_fresh, hc, ht.1, ?_⟩
  intro htrue
  obtain ⟨e, he, hid⟩ := idWrite_of_appliedBy htrue.2
  exact hid (ht.2 e he)

/-- The rule at a run: ADB is set up, its own monitor pulls the gadget up, and the report that it is applied is true. -/
theorem applied_report_truthful_adb :
    ∃ c : Service, reporting c = some (GadgetFunction.adb, .functionsApplied) ∧ Truthful GadgetFunction.adb c.state.trace := by
  obtain ⟨c, hc, ht⟩ := reaches_of_endsIn ownFlagMachine freshDevice (adbRun ++ monitorSteps 6 ++ askRun)
    (fun c => reporting c = some (GadgetFunction.adb, .functionsApplied)) (by decide)
  have hr := of_decide_eq_true ht
  exact ⟨c, hr, applied_report_truthful freshDevice_fresh hc hr⟩

/-! ## Pulling down under the flag -/

/-- No monitor of an earlier call sets the flag, and no reset pulls the gadget down once it was pulled up in the configuration of
the last call. -/
def KeepsUp (c : Service) (a : Machine.Action Choice Env Req) : Prop :=
  match a, c.thread with
  | .env e, _ => setsOwnFlag e c.state = true
  | .act .ok, some (.reset, .op (.writeString _ .pullup) _) => ¬PulledUp c.state.mem.mCurrentUsbFunctions c.state.trace
  | _, _ => True

/-- The flag stands for `GADGET_NAME` in `UDC`, and so does the write that the monitor of this call is about to publish; and no
flag was set late. -/
structure UpInv (s : State) : Prop where
  flag : s.mem.mCurrentUsbFunctionsApplied = true → s.files .pullup = some .gadgetName
  publish : .started ∈ s.trace → ∀ m c, s.monitor = some m → m.pc = .publish c → s.files .pullup = some .gadgetName
  notLate : ¬LateFlag s.trace

namespace UsbStatusAux

/-- What the files hold after a write. -/
theorem write_files (s : State) (who : Who) (content : Content) (path p : Path) (ok : Bool) :
    (s.write who content path ok).files p = if ok = true ∧ p = path then some content else s.files p := by
  unfold State.write
  cases ok
  · simp
  · simp

/-- The environment keeps the agreement if no earlier monitor sets the flag. -/
theorem upInv_env {e : Env} {s s' : State} (h : UpInv s) (hg : setsOwnFlag e s = true) (he : envStep e s = some s') :
    UpInv s' := by
  have hlate := not_lateFlag_env h.notLate hg he
  have hst : .started ∈ s'.trace ↔ .started ∈ s.trace := started_env (envStep_frame he).trace
  rcases envStep_cases he with ⟨ch, rfl, hm⟩ | ⟨h1, h2, -, -, -, -, h7, -⟩
  · obtain ⟨m, m', hmon, hmon', hc⟩ := monitorStep_cases hm
    have hpc (P : MonitorPc → Prop) (hP : P m'.pc) {x : Monitor} (hx : s'.monitor = some x) : P x.pc := by
      obtain rfl := Option.some.inj (hmon'.symm.trans hx)
      exact hP
    rcases hc with ⟨hl, q, evs, -, rfl⟩ | ⟨d, -, -, rfl⟩ | ⟨d, -, hd, rfl⟩ | ⟨d, hd, hd', -, rfl⟩ | ⟨-, -, hn, -, -, rfl⟩
    · exact ⟨h.flag, fun _ x c hx hc => absurd hc (hpc (fun pc => pc ≠ .publish c) (hl.2.2.1 c) hx), hlate⟩
    · have hup : (s.write .monitor .gadgetName .pullup true).files .pullup = some .gadgetName := by simp [write_files]
      exact ⟨fun _ => hup, fun _ _ _ _ _ => hup, hlate⟩
    · refine ⟨h.flag, fun _ x c hx hc => ?_, hlate⟩
      exact absurd hc (hpc (fun pc => pc ≠ .publish c) (hd ▸ d.next_ne_publish c) hx)
    · -- the monitor of this call publishes its own write
      have hown : .started ∈ s.trace := by simpa [setsOwnFlag, hmon, hd] using hg
      have hup := h.publish hown m d hmon hd
      exact ⟨fun _ => hup, fun _ _ _ _ _ => hup, hlate⟩
    · exact ⟨h.flag, fun _ x c hx hc => absurd hc (hpc (fun pc => pc ≠ .publish c) (hn c) hx), hlate⟩
  · refine ⟨fun ha => ?_, fun hs m c hm hc => ?_, hlate⟩
    · rw [h2]
      exact h.flag (h1 ▸ ha)
    · rw [h2]
      exact h.publish (hst.mp hs) m c (h7 ▸ hm) hc

/-- Between calls, a flag that is set or about to be set by the monitor of the last call stands for a pull-up of its
configuration. -/
theorem pulledUp_of_idle {s : State} (h : UpInv s) (hi : Idle s) (hd : ¬PulledUp s.mem.mCurrentUsbFunctions s.trace) :
    s.mem.mCurrentUsbFunctionsApplied = false ∧
      (.started ∈ s.trace → ∀ m c, s.monitor = some m → m.pc ≠ .publish c) := by
  rcases hi with hi | ⟨f, cb, v, calls, hi, -⟩
  · refine ⟨hi.applied, fun _ m c hm => ?_⟩
    rw [hi.monitor] at hm
    cases hm
  · constructor
    · rw [Bool.eq_false_iff]
      intro ha
      exact hd ((hi.applied ha).resolve_right h.notLate).pulledUp
    · intro hs m c hm hc
      obtain ⟨a, b, hab, hconf, -⟩ := hi.inv.wrote hs m c hm hc
      exact hd ⟨a, b, .monitor, hab, hconf⟩

/-- After a write to `UDC` the flag still stands for what is in it. -/
theorem upInv_pullup {q : Req} {content : Content} {s s' : State} (h : UpInv s) (hpre : opPre q (.writeString content .pullup) s)
    (hreset : q = .reset → ¬PulledUp s.mem.mCurrentUsbFunctions s.trace) (hs : s' = s.write .main content .pullup true)
    (hlate : ¬LateFlag s'.trace) : UpInv s' := by
  have hst : .started ∈ s'.trace ↔ .started ∈ s.trace := by
    rw [hs, write_trace]
    simp
  have hfile : s'.files .pullup = some content := by simp [hs, write_files]
  have hmem : s'.mem = s.mem := by simp [hs]
  have hmon : s'.monitor = s.monitor := by simp [hs]
  rcases hpre.1 with rfl | ⟨rfl, hidle⟩ | ⟨hns, hcleared⟩
  · exact ⟨fun _ => hfile, fun _ _ _ _ _ => hfile, hlate⟩
  · obtain ⟨hflag, hpublish⟩ := pulledUp_of_idle h hidle (hreset rfl)
    refine ⟨fun ha => ?_, fun hs m c hm hc => absurd hc (hpublish (hst.mp hs) m c (hmon ▸ hm)), hlate⟩
    rw [hmem, hflag] at ha
    cases ha
  · refine ⟨fun ha => ?_, fun hs => absurd (hst.mp hs) hns, hlate⟩
    exact absurd (hcleared (hmem ▸ ha)) h.notLate

/-- An operation keeps the agreement if it meets its precondition and is no late reset. -/
theorem upInv_exec {q : Req} {o : Op} {ch : Choice} {s s' : State} {r : o.Res} (h : UpInv s) (hpre : opPre q o s)
    (hreset : ∀ content, o = .writeString content .pullup → ch = .ok → q = .reset →
      ¬PulledUp s.mem.mCurrentUsbFunctions s.trace)
    (hx : exec o ch s = some (r, s')) : UpInv s' := by
  have hfr := exec_frame hx
  have hlate := not_lateFlag_exec h.notLate hx
  -- `UDC` is overwritten, or it is what it was
  by_cases hw : ∃ content, o = .writeString content .pullup ∧ ch = .ok
  · obtain ⟨content, rfl, rfl⟩ := hw
    exact upInv_pullup h hpre (hreset content rfl rfl) (writeString_eq hx ▸ by cases hx; rfl) hlate
  have hfile : s'.files .pullup = s.files .pullup := by
    rcases hfr.files with ⟨content, path, rfl, rfl⟩ | ⟨hf, -⟩
    · rw [write_files, if_neg]
      rintro ⟨hok, rfl⟩
      exact hw ⟨content, rfl, of_decide_eq_true hok⟩
    · rw [hf]
  refine ⟨fun ha => ?_, fun hs m c hm hc => ?_, hlate⟩
  · rcases hfr.mem with ⟨b, rfl, hm⟩ | ⟨g, rfl, hm⟩ | hm
    · rw [hm] at ha
      simp only at ha
      subst ha
      rw [hfile]
      exact hpre.1
    · rw [hm, hpre.1] at ha
      rw [hfile]
      exact h.flag ha
    · rw [hm] at ha
      rw [hfile]
      exact h.flag ha
  · rw [hfile]
    rcases exec_monitor hx hm with ⟨-, rfl⟩ | hmon
    · -- a monitor that was just started is at its first check
      cases hc
    · refine h.publish ((exec_started hx hs).resolve_left fun ho => ?_) m c hmon hc
      subst ho
      rw [always_eq hx] at hm
      cases hm
      cases hc

end UsbStatusAux

open UsbStatusAux in
/-- In every run in which no monitor of an earlier call sets the flag and no reset pulls a configuration down that was pulled up,
a report that the functions are applied is made while the last successful write to `UDC` was that of `GADGET_NAME`. -/
theorem applied_report_pulled_up {s : State} {c : Service} {f : UInt64} (hs : Fresh s)
    (h : gadgetMachine.ReachesIf body KeepsUp ⟨s, none⟩ c) (hr : reporting c = some (f, .functionsApplied)) :
    c.state.files .pullup = some .gadgetName := by
  have hflag := (report_pre (.inl hs.uncalled) h.reaches hr).1
  have hinv : UpInv c.state := by
    refine h.invariant (I := fun d => UpInv d.state) ⟨fun ha => ?_, fun hst => ?_, ?_⟩ ?_
    · rw [hs.applied] at ha
      cases ha
    · simp [hs.trace] at hst
    · rintro ⟨a, b, hab, -⟩
      rw [hs.trace] at hab
      simp at hab
    · intro a d d' hd hup hok hst
      rcases Machine.step_cases hst with ⟨e, rfl, he, -⟩ | ⟨ch, q, o, k, r, rfl, ht, hx, -⟩ | ⟨q, x, -, -, rfl⟩ | ⟨q, -, -, rfl⟩
      · exact upInv_env hup hok he
      · refine upInv_exec hup ((service_ok (.inl hs.uncalled) hd).pre_of_op ht) ?_ hx
        rintro content rfl rfl rfl
        simpa [KeepsUp, ht] using hok
      · exact hup
      · exact hup
  exact hinv.flag hflag

/-- `reset` leaves the flag set: the report after it says that the functions are applied while the gadget is pulled down. -/
theorem reset_report_pulled_down :
    ∃ s c, Fresh s ∧ Reaches ⟨s, none⟩ c ∧ reporting c = some (GadgetFunction.rndis, .functionsApplied) ∧
      c.state.files .pullup = some .none := by
  obtain ⟨c, hc, ht⟩ := reaches_of_endsIn gadgetMachine freshDevice
    (rndisRun ++ [.request .reset, .act .ok, .finish] ++ askRun)
    (fun c => reporting c = some (GadgetFunction.rndis, .functionsApplied) && c.state.files .pullup = some .none) (by decide)
  simp only [Bool.and_eq_true, decide_eq_true_eq] at ht
  exact ⟨freshDevice, c, freshDevice_fresh, hc, ht.1, ht.2⟩

/-- A test for `KeepsUp`: a reset is made before any pull-up. -/
def keepsUp (c : Service) (a : Machine.Action Choice Env Req) : Bool :=
  match a, c.thread with
  | .env e, _ => setsOwnFlag e c.state
  | .act .ok, some (.reset, .op (.writeString _ .pullup) _) =>
    decide (pullUpEvent .main ∉ c.state.trace ∧ pullUpEvent .monitor ∉ c.state.trace)
  | _, _ => true

/-- The test of a step that keeps the gadget up. -/
theorem keepsUp_of_test (c : Service) (a : Machine.Action Choice Env Req) (h : keepsUp c a = true) : KeepsUp c a := by
  unfold keepsUp at h
  unfold KeepsUp
  split at h
  · exact h
  · obtain ⟨hmain, hmonitor⟩ := of_decide_eq_true h
    rintro ⟨x, y, who, hxy, -⟩
    cases who with
    | main => exact hmain (by simp [hxy])
    | monitor => exact hmonitor (by simp [hxy])
  · trivial

/-- The rule at a run: the gadget is reset, ADB is set up, its monitor pulls the gadget up, and the report that it is applied is
made while that is so. -/
theorem applied_report_pulled_up_adb :
    ∃ c : Service, reporting c = some (GadgetFunction.adb, .functionsApplied) ∧ c.state.files .pullup = some .gadgetName := by
  obtain ⟨c, hc, ht⟩ := reachesIf_of_endsInIf gadgetMachine keepsUp_of_test freshDevice
    ([.request .reset, .act .ok, .finish] ++ adbRun ++ monitorSteps 6 ++ askRun)
    (fun c => reporting c = some (GadgetFunction.adb, .functionsApplied)) (by decide)
  have hr := of_decide_eq_true ht
  exact ⟨c, hr, applied_report_pulled_up freshDevice_fresh hc hr⟩

end Pixel845.Usb
