import Pixel845.Lemmas.UsbTrace

/-!
# What the environment can do to the service

One inversion lemma says what a step of the monitor can do (`monitorStep_inv`, `monitorStep_cases`); the others derive from it
what every move of the environment leaves alone (`envStep_frame`), what it leaves alone while no monitor runs (`envStep_alone`),
and that it keeps the invariant that ties the monitor to the events of the call that started it (`Inv`).
-/

namespace Pixel845.Usb

/-- Behind a check the descriptors are left that were left before it. -/
theorem CheckFor.next_ready (c : CheckFor) : c.next.ready = c.ready := by cases c <;> rfl

/-- Behind a check the monitor does not publish at once. -/
theorem CheckFor.next_ne_publish (c c' : CheckFor) : c.next ≠ .publish c' := by cases c <;> simp [CheckFor.next]

/-- Behind a check the monitor does not end at once. -/
theorem CheckFor.next_ne_done (c : CheckFor) : c.next ≠ .done := by cases c <;> simp [CheckFor.next]

/-- Behind a check the monitor is quiet if its eventfd is not among the descriptors left. -/
theorem CheckFor.next_quiet {c : CheckFor} (h : Fd.event ∉ c.ready) : c.next.Quiet :=
  ⟨c.next_ne_done, by rw [c.next_ready]; exact h⟩

/-- A local step of the monitor: it neither comes from nor leads to the block under the lock, and with nothing in its eventfd
it stays quiet. -/
def LocalStep (s : State) (pc pc' : MonitorPc) : Prop :=
  pc ≠ .done ∧ (∀ c, pc ≠ .publish c) ∧ (∀ c, pc' ≠ .publish c) ∧ (s.eventCount = 0 → pc.Quiet → pc'.Quiet)

/-- Where an endpoint was found missing, the monitor goes on locally. -/
theorem absent_local (s : State) (m : Monitor) (c : CheckFor) (j now : Nat) (h : m.pc = .access j c) :
    LocalStep s m.pc (m.absent c now).pc := by
  have hpc : (m.absent c now).pc = c.next := by
    cases c with
    | start => rfl
    | event batch ready => simp only [Monitor.absent]; split <;> rfl
  rw [hpc, h]
  exact ⟨by simp, by simp, c.next_ne_publish, fun _ hq => CheckFor.next_quiet hq.2⟩

/-- Where all endpoints were found, the monitor goes on locally. -/
theorem allFound_local (s : State) (m : Monitor) (c : CheckFor) (j now : Nat) (h : m.pc = .access j c) :
    LocalStep s m.pc (m.allFound c now).pc := by
  have hpc : (m.allFound c now).pc = .delay c ∨ (m.allFound c now).pc = .pullUp c ∨ (m.allFound c now).pc = c.next := by
    cases c with
    | start => exact .inl rfl
    | event batch ready =>
      simp only [Monitor.allFound]
      split
      · split
        · exact .inl rfl
        · exact .inr (.inl rfl)
      · exact .inr (.inr rfl)
  rw [h]
  rcases hpc with hpc | hpc | hpc <;> rw [hpc]
  · exact ⟨by simp, by simp, by simp, fun _ hq => ⟨by simp, hq.2⟩⟩
  · exact ⟨by simp, by simp, by simp, fun _ hq => ⟨by simp, hq.2⟩⟩
  · exact ⟨by simp, by simp, c.next_ne_publish, fun _ hq => CheckFor.next_quiet hq.2⟩

/-- A step of the monitor, one constructor for each way it can go. -/
inductive MonitorStep (s : State) (m : Monitor) : MonitorChoice → State → Prop
  | found {j : Nat} {c : CheckFor} {e : Endpoint} (now : Nat) (hpc : m.pc = .access j c) (he : s.mem.mEndpointList[j]? = some e) :
    MonitorStep s m (.ok now) { s with monitor := some { m with pc := .access (j + 1) c } }
  | missing {j : Nat} {c : CheckFor} {e : Endpoint} (now : Nat) (hpc : m.pc = .access j c) (he : s.mem.mEndpointList[j]? = some e)
    (hp : s.present e = false) : MonitorStep s m (.ok now) { s.log .foundMissing with monitor := some (m.absent c now) }
  | allFound {j : Nat} {c : CheckFor} (now : Nat) (hpc : m.pc = .access j c) :
    MonitorStep s m (.ok now) { s with monitor := some (m.allFound c now) }
  | refused {j : Nat} {c : CheckFor} (now : Nat) (hpc : m.pc = .access j c) (hj : j < s.mem.mEndpointList.length) :
    MonitorStep s m (.fail now) { s.log .foundMissing with monitor := some (m.absent c now) }
  | delayed {c : CheckFor} (now : Nat) (hpc : m.pc = .delay c) :
    MonitorStep s m (.ok now) { s with monitor := some { m with pc := .pullUp c } }
  | pulledUp {c : CheckFor} (now : Nat) (hpc : m.pc = .pullUp c) :
    MonitorStep s m (.ok now) { s.write .monitor .gadgetName .pullup true with monitor := some { m with pc := .publish c } }
  | notPulledUp {c : CheckFor} (now : Nat) (hpc : m.pc = .pullUp c) :
    MonitorStep s m (.fail now) { s.write .monitor .gadgetName .pullup false with monitor := some { m with pc := c.next } }
  | published {c : CheckFor} (now : Nat) (hpc : m.pc = .publish c) (hl : s.lockHeld = false) :
    MonitorStep s m (.ok now) { s.log (.applied .monitor true) with
      mem := { s.mem with mCurrentUsbFunctionsApplied := true, gadgetPullup := true }
      monitor := some { m with pc := c.next, writeUdc := false } }
  | ready {fds : List Fd} (hpc : m.pc = .epollWait) (hfds : fds.Perm s.readyFds) :
    MonitorStep s m (.ready fds) { s with monitor := some { m with pc := .dispatch fds } }
  | interrupted (now : Nat) (hpc : m.pc = .epollWait) : MonitorStep s m (.fail now) s
  | dispatched (now : Nat) (hpc : m.pc = .dispatch []) :
    MonitorStep s m (.ok now) { s with monitor := some { m with pc := .epollWait } }
  | read {r : List Fd} (now : Nat) (hpc : m.pc = .dispatch (.inotify :: r)) (hq : s.queue ≠ []) :
    MonitorStep s m (.ok now) { s with
      queue := s.queue.drop (fitting bufferSize s.queue).length
      monitor := some { m with pc := .handle (fitting bufferSize s.queue) r } }
  | notRead {r : List Fd} (now : Nat) (hpc : m.pc = .dispatch (.inotify :: r)) :
    MonitorStep s m (.fail now) { s with monitor := some { m with pc := .handle [] r } }
  | flag {r : List Fd} (now : Nat) (hpc : m.pc = .dispatch (.event :: r)) (h0 : s.eventCount ≠ 0) :
    MonitorStep s m (.ok now) { s with
      eventCount := 0
      monitor := some { m with pc := if s.eventCount = stopFlag then .done else .dispatch r } }
  | noFlag {r : List Fd} (flag : Nat) (hpc : m.pc = .dispatch (.event :: r)) :
    MonitorStep s m (.fail flag) { s with monitor := some { m with pc := if flag = stopFlag then .done else .dispatch r } }
  | handled {r : List Fd} (now : Nat) (hpc : m.pc = .handle [] r) :
    MonitorStep s m (.ok now) { s with monitor := some { m with pc := .dispatch r } }
  | event {e : InotifyEvent} {batch : List InotifyEvent} {r : List Fd} (now : Nat) (hpc : m.pc = .handle (e :: batch) r) :
    MonitorStep s m (.ok now) { s with monitor := some { m with pc := .access 0 (.event batch r) } }

/-- What a step of the monitor can be. -/
theorem monitorStep_inv {ch : MonitorChoice} {s s' : State} (h : monitorStep ch s = some s') :
    ∃ m, s.monitor = some m ∧ MonitorStep s m ch s' := by
  unfold monitorStep at h
  split at h
  · cases h
  · rename_i m hm
    refine ⟨m, hm, ?_⟩
    split at h
    · rename_i j c now hpc
      split at h
      · rename_i e he
        split at h
        · cases h
          exact .found now hpc he
        · rename_i hp
          cases h
          exact .missing now hpc he (Bool.eq_false_iff.mpr hp)
      · cases h
        exact .allFound now hpc
    · rename_i j c now hpc
      split at h
      · rename_i hj
        cases h
        exact .refused now hpc hj
      · cases h
    · rename_i c now hpc
      cases h
      exact .delayed now hpc
    · rename_i c now hpc
      cases h
      exact .pulledUp now hpc
    · rename_i c now hpc
      cases h
      exact .notPulledUp now hpc
    · rename_i c now hpc
      split at h
      · cases h
      · rename_i hl
        cases h
        exact .published now hpc (Bool.eq_false_iff.mpr hl)
    · rename_i fds hpc
      split at h
      · rename_i hf
        cases h
        exact .ready hpc (List.isPerm_iff.mp hf.1)
      · cases h
    · rename_i now hpc
      cases h
      exact .interrupted now hpc
    · rename_i now hpc
      cases h
      exact .dispatched now hpc
    · rename_i r now hpc
      split at h
      · cases h
      · rename_i hq
        cases h
        exact .read now hpc hq
    · rename_i r now hpc
      cases h
      exact .notRead now hpc
    · rename_i r now hpc
      split at h
      · cases h
      · rename_i h0
        cases h
        exact .flag now hpc h0
    · rename_i r flag hpc
      cases h
      exact .noFlag flag hpc
    · rename_i r now hpc
      cases h
      exact .handled now hpc
    · rename_i e batch r now hpc
      cases h
      exact .event now hpc
    · cases h

/-- What a step of the monitor can do: a local step, that may also take events from the inotify queue or find an endpoint missing;
the pull-up, successful or not; the block under the lock; or a read of the eventfd, which ends the thread if it finds the stop
flag there. -/
theorem monitorStep_cases {ch : MonitorChoice} {s s' : State} (h : monitorStep ch s = some s') :
    ∃ m m', s.monitor = some m ∧ s'.monitor = some m' ∧
      ((LocalStep s m.pc m'.pc ∧ ∃ q evs, (∀ e ∈ evs, e = .foundMissing) ∧
         s' = { s with queue := q, trace := s.trace ++ evs, monitor := some m' }) ∨
       (∃ c, m.pc = .pullUp c ∧ m'.pc = .publish c ∧
         s' = { s.write .monitor .gadgetName .pullup true with monitor := some m' }) ∨
       (∃ c, m.pc = .pullUp c ∧ m'.pc = c.next ∧
         s' = { s.write .monitor .gadgetName .pullup false with monitor := some m' }) ∨
       (∃ c, m.pc = .publish c ∧ m'.pc = c.next ∧ s.lockHeld = false ∧
         s' = { s.log (.applied .monitor true) with
           mem := { s.mem with mCurrentUsbFunctionsApplied := true, gadgetPullup := true }, monitor := some m' }) ∨
       (.event ∈ m.pc.ready ∧ m.pc ≠ .done ∧ (∀ c, m'.pc ≠ .publish c) ∧ s.eventCount ≠ 0 ∧
         (s.eventCount = stopFlag → m'.pc = .done) ∧ s' = { s with eventCount := 0, monitor := some m' })) := by
  obtain ⟨m, hm, hstep⟩ := monitorStep_inv h
  refine ⟨m, ?_⟩
  cases hstep with
  | found now hpc he | delayed now hpc | handled now hpc | event now hpc =>
    refine ⟨_, hm, rfl, .inl ⟨?_, s.queue, [], by simp, by simp⟩⟩
    rw [hpc]
    exact ⟨by simp, by simp, by simp, fun _ hq => ⟨by simp, hq.2⟩⟩
  | missing now hpc he hp => exact ⟨_, hm, rfl, .inl ⟨absent_local s m _ _ now hpc, s.queue, [.foundMissing], by simp, rfl⟩⟩
  | allFound now hpc => exact ⟨_, hm, rfl, .inl ⟨allFound_local s m _ _ now hpc, s.queue, [], by simp, by simp⟩⟩
  | refused now hpc hj => exact ⟨_, hm, rfl, .inl ⟨absent_local s m _ _ now hpc, s.queue, [.foundMissing], by simp, rfl⟩⟩
  | pulledUp now hpc => exact ⟨_, hm, rfl, .inr (.inl ⟨_, hpc, rfl, rfl⟩)⟩
  | notPulledUp now hpc => exact ⟨_, hm, rfl, .inr (.inr (.inl ⟨_, hpc, rfl, rfl⟩))⟩
  | published now hpc hl => exact ⟨_, hm, rfl, .inr (.inr (.inr (.inl ⟨_, hpc, rfl, hl, rfl⟩)))⟩
  | ready hpc hfds =>
    refine ⟨_, hm, rfl, .inl ⟨?_, s.queue, [], by simp, by simp⟩⟩
    rw [hpc]
    refine ⟨by simp, by simp, by simp, fun h0 _ => ⟨by simp, fun hmem => ?_⟩⟩
    have hevent : Fd.event ∈ s.readyFds := hfds.mem_iff.mp hmem
    simp [State.readyFds, h0] at hevent
  | interrupted now hpc =>
    refine ⟨m, hm, hm, .inl ⟨?_, s.queue, [], by simp, by simp [← hm]⟩⟩
    rw [hpc]
    exact ⟨by simp, by simp, by simp, fun _ hq => hq⟩
  | dispatched now hpc =>
    refine ⟨_, hm, rfl, .inl ⟨?_, s.queue, [], by simp, by simp⟩⟩
    rw [hpc]
    exact ⟨by simp, by simp, by simp, fun _ _ => ⟨by simp, by simp [MonitorPc.ready]⟩⟩
  | read now hpc hq | notRead now hpc =>
    refine ⟨_, hm, rfl, .inl ⟨?_, _, [], by simp, by simp; rfl⟩⟩
    rw [hpc]
    exact ⟨by simp, by simp, by simp, fun _ hquiet => ⟨by simp, fun hmem => hquiet.2 (List.mem_cons_of_mem _ hmem)⟩⟩
  | flag now hpc h0 =>
    refine ⟨_, hm, rfl, .inr (.inr (.inr (.inr ⟨?_, ?_, fun c => ?_, h0, fun hf => if_pos hf, rfl⟩)))⟩
    · rw [hpc]
      exact List.mem_cons_self
    · rw [hpc]
      simp
    · simp only
      split <;> simp
  | noFlag flag hpc =>
    refine ⟨_, hm, rfl, .inl ⟨?_, s.queue, [], by simp, by simp⟩⟩
    rw [hpc]
    refine ⟨by simp, by simp, ?_, fun _ hquiet => absurd List.mem_cons_self hquiet.2⟩
    intro c
    simp only
    split <;> simp

/-! ## What every move leaves alone -/

/-- The events of one trace are those of another and after them events of the environment. -/
def EnvGrows (tr tr' : List Event) : Prop := ∃ evs, tr' = tr ++ evs ∧ ∀ e ∈ evs, e.isEnv = true

/-- A trace that stays has grown by nothing. -/
theorem EnvGrows.of_eq {tr tr' : List Event} (h : tr' = tr) : EnvGrows tr tr' := ⟨[], by simp [h], by simp⟩

/-- A trace grows by an event of the environment. -/
theorem EnvGrows.of_append {tr tr' : List Event} {e : Event} (h : tr' = tr ++ [e]) (he : e.isEnv = true) : EnvGrows tr tr' :=
  ⟨[e], h, by simp [he]⟩

/-- What no move of the environment touches, and how the events grow. -/
structure EnvFrame (s s' : State) : Prop where
  functions : s'.mem.mCurrentUsbFunctions = s.mem.mCurrentUsbFunctions
  created : s'.mem.mMonitorCreated = s.mem.mMonitorCreated
  endpoints : s'.mem.mEndpointList = s.mem.mEndpointList
  links : s'.links = s.links
  lock : s'.lockHeld = s.lockHeld
  watches : s'.watches = s.watches
  thread : s'.monitor.isSome = s.monitor.isSome
  trace : EnvGrows s.trace s'.trace

@[simp] theorem notify_mem (s : State) (dir : FfsDir) (len : Nat) : (s.notify dir len).mem = s.mem := by
  unfold State.notify; split <;> rfl

@[simp] theorem notify_files (s : State) (dir : FfsDir) (len : Nat) : (s.notify dir len).files = s.files := by
  unfold State.notify; split <;> rfl

@[simp] theorem notify_links (s : State) (dir : FfsDir) (len : Nat) : (s.notify dir len).links = s.links := by
  unfold State.notify; split <;> rfl

@[simp] theorem notify_props (s : State) (dir : FfsDir) (len : Nat) : (s.notify dir len).props = s.props := by
  unfold State.notify; split <;> rfl

@[simp] theorem notify_lockHeld (s : State) (dir : FfsDir) (len : Nat) : (s.notify dir len).lockHeld = s.lockHeld := by
  unfold State.notify; split <;> rfl

@[simp] theorem notify_watches (s : State) (dir : FfsDir) (len : Nat) : (s.notify dir len).watches = s.watches := by
  unfold State.notify; split <;> rfl

@[simp] theorem notify_eventCount (s : State) (dir : FfsDir) (len : Nat) : (s.notify dir len).eventCount = s.eventCount := by
  unfold State.notify; split <;> rfl

@[simp] theorem notify_monitor (s : State) (dir : FfsDir) (len : Nat) : (s.notify dir len).monitor = s.monitor := by
  unfold State.notify; split <;> rfl

@[simp] theorem notify_trace (s : State) (dir : FfsDir) (len : Nat) : (s.notify dir len).trace = s.trace := by
  unfold State.notify; split <;> rfl

/-- A move of the environment is a step of the monitor, or it leaves the monitor and everything of the service alone, and logs
nothing unless it changes a property. -/
theorem envStep_cases {e : Env} {s s' : State} (h : envStep e s = some s') :
    (∃ ch, e = .monitor ch ∧ monitorStep ch s = some s') ∨
    (s'.mem = s.mem ∧ s'.files = s.files ∧ s'.links = s.links ∧ s'.lockHeld = s.lockHeld ∧ s'.watches = s.watches ∧
      s'.eventCount = s.eventCount ∧ s'.monitor = s.monitor ∧
      (s'.trace = s.trace ∧ s'.props = s.props ∨ s'.trace = s.trace ++ [.propChanged])) := by
  cases e with
  | monitor ch => exact .inl ⟨ch, rfl, h⟩
  | appear x len =>
    simp only [envStep] at h
    split at h
    · cases h
    · cases h
      exact .inr ⟨by simp, by simp, by simp, by simp, by simp, by simp, by simp, .inl ⟨by simp, by simp⟩⟩
  | vanish x len =>
    simp only [envStep] at h
    split at h
    · cases h
      exact .inr ⟨by simp, by simp, by simp, by simp, by simp, by simp, by simp, .inl ⟨by simp, by simp⟩⟩
    · cases h
  | otherEvent dir len =>
    cases h
    exact .inr ⟨by simp, by simp, by simp, by simp, by simp, by simp, by simp, .inl ⟨by simp, by simp⟩⟩
  | setProp key value =>
    cases h
    exact .inr ⟨rfl, rfl, rfl, rfl, rfl, rfl, rfl, .inr rfl⟩

/-- What every move of the environment leaves alone. -/
theorem envStep_frame {e : Env} {s s' : State} (h : envStep e s = some s') : EnvFrame s s' := by
  rcases envStep_cases h with ⟨ch, -, hm⟩ | ⟨h1, -, h3, h4, h5, -, h7, h8⟩
  · obtain ⟨m, m', hs, hs', hc⟩ := monitorStep_cases hm
    have ht : s'.monitor.isSome = s.monitor.isSome := by rw [hs, hs']; rfl
    rcases hc with ⟨-, q, evs, hev, rfl⟩ | ⟨c, -, -, rfl⟩ | ⟨c, -, -, rfl⟩ | ⟨c, -, -, -, rfl⟩ | ⟨-, -, -, -, -, rfl⟩
    · exact ⟨rfl, rfl, rfl, rfl, rfl, rfl, ht, evs, rfl, fun e he => by rw [hev e he]; rfl⟩
    · exact ⟨rfl, rfl, rfl, rfl, rfl, rfl, ht, .of_append rfl rfl⟩
    · exact ⟨rfl, rfl, rfl, rfl, rfl, rfl, ht, .of_append rfl rfl⟩
    · exact ⟨rfl, rfl, rfl, rfl, rfl, rfl, ht, .of_append rfl rfl⟩
    · exact ⟨rfl, rfl, rfl, rfl, rfl, rfl, ht, .of_eq rfl⟩
  · refine ⟨by rw [h1], by rw [h1], by rw [h1], h3, h4, h5, by rw [h7], ?_⟩
    rcases h8 with ⟨h8, -⟩ | h8
    · exact .of_eq h8
    · exact .of_append h8 rfl

/-- While no monitor runs, the environment leaves the members, the files and the eventfd alone as well, and logs nothing but
changes of properties. -/
theorem envStep_alone {e : Env} {s s' : State} (h : envStep e s = some s') (hm : s.monitor = none) :
    s'.mem = s.mem ∧ s'.files = s.files ∧ s'.eventCount = s.eventCount ∧ s'.monitor = none ∧
      (s'.trace = s.trace ∧ s'.props = s.props ∨ s'.trace = s.trace ++ [.propChanged]) := by
  rcases envStep_cases h with ⟨ch, -, hs⟩ | ⟨h1, h2, -, -, -, h6, h7, h8⟩
  · obtain ⟨m, m', hs', -, -⟩ := monitorStep_cases hs
    rw [hm] at hs'
    cases hs'
  · exact ⟨h1, h2, h6, h7.trans hm, h8⟩

/-- A property changes only where that is logged. -/
theorem envStep_props {e : Env} {s s' : State} (h : envStep e s = some s') :
    s'.props = s.props ∨ .propChanged ∈ s'.trace := by
  rcases envStep_cases h with ⟨ch, -, hm⟩ | ⟨-, -, -, -, -, -, -, h8⟩
  · left
    obtain ⟨m, m', -, -, hc⟩ := monitorStep_cases hm
    rcases hc with ⟨-, q, evs, -, rfl⟩ | ⟨c, -, -, rfl⟩ | ⟨c, -, -, rfl⟩ | ⟨c, -, -, -, rfl⟩ | ⟨-, -, -, -, -, rfl⟩ <;> rfl
  · rcases h8 with ⟨-, h8⟩ | h8
    · exact .inl h8
    · exact .inr (by simp [h8])

/-! ## The environment keeps the invariant of the monitor -/

/-- Events of the environment add none of the main thread. -/
theorem mem_append_env {x : Event} (hx : x.isEnv = false) {tr evs : List Event} (h : ∀ e ∈ evs, e.isEnv = true) :
    x ∈ tr ++ evs ↔ x ∈ tr := by
  rw [List.mem_append]
  constructor
  · rintro (hm | hm)
    · exact hm
    · rw [h x hm] at hx
      cases hx
  · exact .inl

/-- Events of the environment neither start a monitor nor ask one to stop. -/
theorem started_mem_env {tr evs : List Event} (h : ∀ e ∈ evs, e.isEnv = true) : .started ∈ tr ++ evs ↔ .started ∈ tr :=
  mem_append_env rfl h

/-- Moves of the environment do not change whether a monitor is being stopped. -/
theorem stopping_env {s s' : State} (h : EnvGrows s.trace s'.trace) : Stopping s' ↔ Stopping s := by
  obtain ⟨evs, ht, he⟩ := h
  unfold Stopping
  rw [ht, started_mem_env he, mem_append_env (x := .signalled true) rfl he]

/-- The part of the invariant that is about the events alone survives events of the environment. -/
theorem configured_env {s s' : State} (h : Inv s) (hf : s'.mem.mCurrentUsbFunctions = s.mem.mCurrentUsbFunctions)
    (ht : EnvGrows s.trace s'.trace) :
    .started ∈ s'.trace → .started ∈ s.trace ∧ Configured s'.mem.mCurrentUsbFunctions s'.trace := by
  obtain ⟨evs, ht, he⟩ := ht
  rw [ht, hf, started_mem_env he]
  exact fun hs => ⟨hs, (h.configured hs).append (fun e hm => neutral_of_isEnv (he e hm))⟩

/-- What is left of the invariant to check after a step of the monitor: the step itself. -/
theorem Inv.ofMonitor {s s' : State} {m m' : Monitor} (h : Inv s) (hs : s.monitor = some m) (hs' : s'.monitor = some m')
    (hst : Stopping s' ↔ Stopping s)
    (hconf : .started ∈ s'.trace → .started ∈ s.trace ∧ Configured s'.mem.mCurrentUsbFunctions s'.trace)
    (hquiet : s.eventCount = 0 → m.pc.Quiet → s'.eventCount = 0 ∧ m'.pc.Quiet)
    (hstop : s.eventCount = stopFlag ∨ m.pc = .done → s'.eventCount = stopFlag ∨ m'.pc = .done)
    (hpulled : .started ∈ s.trace → s'.mem.gadgetPullup = true → PulledUp s'.mem.mCurrentUsbFunctions s'.trace)
    (hwrote : .started ∈ s.trace → ∀ c, m'.pc = .publish c → ∃ a b, s'.trace = a ++ pullUpEvent .monitor :: b ∧
      Configured s'.mem.mCurrentUsbFunctions a ∧ ∀ e ∈ b, e.isWriteOf .monitor = false) : Inv s' := by
  have hmon : ∀ x, s'.monitor = some x → x = m' := fun x hx => Option.some.inj (hx.symm.trans hs')
  refine ⟨?_, ?_, fun hs => (hconf hs).2, fun hs => hpulled (hconf hs).1, ?_⟩
  · intro x hx hn
    rw [hmon x hx]
    have hq := h.quiet m hs (fun hn' => hn (hst.mpr hn'))
    exact hquiet hq.1 hq.2
  · intro x hx hn
    rw [hmon x hx]
    exact hstop (h.stopping m hs (hst.mp hn))
  · intro hs x c hx hpc
    rw [hmon x hx] at hpc
    exact hwrote (hconf hs).1 c hpc

/-- The environment keeps the invariant of the monitor. -/
theorem Inv.env {e : Env} {s s' : State} (h : Inv s) (he : envStep e s = some s') : Inv s' := by
  have hfr := envStep_frame he
  have hst : Stopping s' ↔ Stopping s := stopping_env hfr.trace
  have hconf := configured_env h hfr.functions hfr.trace
  rcases envStep_cases he with ⟨ch, -, hm⟩ | ⟨h1, -, -, -, -, h6, h7, h8⟩
  · obtain ⟨m, m', hs, hs', hc⟩ := monitorStep_cases hm
    rcases hc with ⟨hl, q, evs, -, rfl⟩ | ⟨c, hpc, hpc', rfl⟩ | ⟨c, hpc, hpc', rfl⟩ | ⟨c, hpc, hpc', -, rfl⟩ | ⟨hr, hd,
      hnp, h0, h1, rfl⟩
    · obtain ⟨hnd, -, hnp, hq⟩ := hl
      refine h.ofMonitor hs hs' hst hconf (fun h0 hm => ⟨h0, hq h0 hm⟩) (fun hs => .inl (hs.resolve_right hnd))
        (fun hs hp => (h.pulled hs hp).append evs) ?_
      intro _ c hpc
      exact absurd hpc (hnp c)
    · refine h.ofMonitor hs hs' hst hconf ?_ (fun hs => .inl (hs.resolve_right (by rw [hpc]; simp))) ?_ ?_
      · intro h0 hm
        rw [hpc] at hm
        rw [hpc']
        exact ⟨h0, by simp, hm.2⟩
      · intro hs hp
        exact PulledUp.append [pullUpEvent .monitor] (h.pulled hs hp)
      · intro hs c' _
        exact ⟨s.trace, [], rfl, h.configured hs, by simp⟩
    · refine h.ofMonitor hs hs' hst hconf ?_ (fun hs => .inl (hs.resolve_right (by rw [hpc]; simp))) ?_ ?_
      · intro h0 hm
        rw [hpc] at hm
        rw [hpc']
        exact ⟨h0, CheckFor.next_quiet hm.2⟩
      · intro hs hp
        exact PulledUp.append [.wrote .monitor .gadgetName .pullup false] (h.pulled hs hp)
      · intro _ c' hpx
        exact absurd (hpc'.symm.trans hpx) (c.next_ne_publish c')
    · refine h.ofMonitor hs hs' hst hconf ?_ (fun hs => .inl (hs.resolve_right (by rw [hpc]; simp))) ?_ ?_
      · intro h0 hm
        rw [hpc] at hm
        rw [hpc']
        exact ⟨h0, CheckFor.next_quiet hm.2⟩
      · intro hs' _
        obtain ⟨a, b, hab, hca, -⟩ := h.wrote hs' m c hs hpc
        exact PulledUp.append [.applied .monitor true] ⟨a, b, .monitor, hab, hca⟩
      · intro _ c' hpx
        exact absurd (hpc'.symm.trans hpx) (c.next_ne_publish c')
    · refine h.ofMonitor hs hs' hst hconf (fun h0' _ => absurd h0' h0) (fun hs => .inr (h1 (hs.resolve_right hd))) h.pulled ?_
      intro _ c hpc
      exact absurd hpc (hnp c)
  · have hg : ∃ evs, s'.trace = s.trace ++ evs ∧ (∀ e ∈ evs, e.isEnv = true) ∧ ∀ e ∈ evs, e.isWriteOf .monitor = false := by
      rcases h8 with ⟨h8, -⟩ | h8
      · exact ⟨[], by simp [h8], by simp, by simp⟩
      · exact ⟨[.propChanged], h8, by simp [Event.isEnv], by simp [Event.isWriteOf]⟩
    obtain ⟨evs, ht, hev, hnw⟩ := hg
    refine ⟨?_, ?_, fun hs => (hconf hs).2, ?_, ?_⟩
    · intro m hm hn
      rw [h7] at hm
      rw [h6]
      exact h.quiet m hm (fun hn' => hn (hst.mpr hn'))
    · intro m hm hn
      rw [h7] at hm
      rw [h6]
      exact h.stopping m hm (hst.mp hn)
    · intro hs hp
      rw [h1] at hp ⊢
      rw [ht]
      exact (h.pulled (hconf hs).1 hp).append evs
    · intro hs m c hm hpc
      rw [h7] at hm
      obtain ⟨a, b, hab, hca, hb⟩ := h.wrote (hconf hs).1 m c hm hpc
      refine ⟨a, b ++ evs, by rw [ht, hab]; simp, by rw [h1]; exact hca, ?_⟩
      intro e hm
      rcases List.mem_append.mp hm with hm | hm
      · exact hb e hm
      · exact hnw e hm

/-- The environment keeps what the flag stands for. -/
theorem AppliedOk.env {e : Env} {s s' : State} (hi : Inv s) (h : AppliedOk s) (he : envStep e s = some s') : AppliedOk s' := by
  have keep : ∀ evs, s'.mem.mCurrentUsbFunctionsApplied = s.mem.mCurrentUsbFunctionsApplied →
      s'.mem.mCurrentUsbFunctions = s.mem.mCurrentUsbFunctions → s'.trace = s.trace ++ evs →
      (∀ e ∈ evs, e.isApplied = false) → AppliedOk s' := by
    intro evs ha hf ht hev hap
    rw [ha] at hap
    rw [hf, ht]
    rcases h hap with h | h
    · exact .inl (h.append hev)
    · exact .inr (h.append evs)
  rcases envStep_cases he with ⟨ch, -, hm⟩ | ⟨h1, -, -, -, -, -, -, h8⟩
  · obtain ⟨m, m', hs, hs', hc⟩ := monitorStep_cases hm
    rcases hc with ⟨-, q, evs, hev, rfl⟩ | ⟨c, -, -, rfl⟩ | ⟨c, -, -, rfl⟩ | ⟨c, hpc, -, -, rfl⟩ | ⟨-, -, -, -, -, rfl⟩
    · exact keep evs rfl rfl rfl fun e he => by rw [hev e he]; rfl
    · exact keep [pullUpEvent .monitor] rfl rfl rfl (by simp [pullUpEvent, Event.isApplied])
    · exact keep [.wrote .monitor .gadgetName .pullup false] rfl rfl rfl (by simp [Event.isApplied])
    · intro _
      by_cases hst : .started ∈ s.trace
      · -- the monitor that sets the flag is the one this call started
        obtain ⟨a, b, hab, hca, hb⟩ := hi.wrote hst m c hs hpc
        exact .inl ⟨a, b, [], .monitor, by simp [State.log, hab], hca, hb, by simp⟩
      · exact .inr (lateFlag_of_not_started hst)
    · exact keep [] rfl rfl (by simp) (by simp)
  · rcases h8 with ⟨h8, -⟩ | h8
    · exact keep [] (by rw [h1]) (by rw [h1]) (by simp [h8]) (by simp)
    · exact keep [.propChanged] (by rw [h1]) (by rw [h1]) h8 (by simp [Event.isApplied])

end Pixel845.Usb
