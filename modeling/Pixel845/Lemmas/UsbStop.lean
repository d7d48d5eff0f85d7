import Pixel845.Lemmas.UsbRun

/-!
# The monitor can always be stopped

From any of its program points the monitor can come to `epoll_wait` and from there to the read of its eventfd, so once the stop
flag is there, and `mLock` is free, it can end (`canStop_of_flag`). What is left of a check, of a batch or of the ready
descriptors is finite; each lemma is an induction on one of these.
-/

namespace Pixel845.Usb

/-- The monitor is at a program point, the stop flag is in its eventfd, and `mLock` is free. -/
structure Flagged (pc : MonitorPc) (s : State) : Prop where
  monitor : ∃ m, s.monitor = some m ∧ m.pc = pc
  flag : s.eventCount = stopFlag
  free : s.lockHeld = false

/-- The environment alone can bring the monitor to its end. -/
def CanStop (s : State) : Prop := ∃ s' m, gadgetMachine.EnvSteps s s' ∧ s'.monitor = some m ∧ m.pc = .done

/-- What can stop after a move of the environment can stop. -/
theorem CanStop.next {e : Env} {s s' : State} (he : envStep e s = some s') (h : CanStop s') : CanStop s := by
  obtain ⟨t, m, ht, hm, hd⟩ := h
  exact ⟨t, m, Relation.ReflTransGen.head ⟨e, he⟩ ht, hm, hd⟩

/-- One step of the monitor to another program point, with the flag still there. -/
theorem canStop_step {pc pc' : MonitorPc} {s s' : State} {ch : MonitorChoice} (h : Flagged pc s)
    (hs : monitorStep ch s = some s') (hm : ∃ m, s'.monitor = some m ∧ m.pc = pc') (hc : s'.eventCount = s.eventCount)
    (hk : ∀ t, Flagged pc' t → CanStop t) : CanStop s := by
  have he : envStep (.monitor ch) s = some s' := hs
  refine CanStop.next he (hk s' ⟨hm, hc.trans h.flag, ?_⟩)
  rw [(envStep_frame he).lock]
  exact h.free

/-- The flag is read when the turn of the eventfd comes. -/
theorem canStop_dispatch {ready : List Fd} (hr : .event ∈ ready) : ∀ s, Flagged (.dispatch ready) s → CanStop s := by
  induction ready with
  | nil => cases hr
  | cons fd ready ih =>
    intro s h
    obtain ⟨m, hm, hpc⟩ := h.monitor
    cases fd with
    | inotify =>
      have hr' : Fd.event ∈ ready := (List.mem_cons.mp hr).resolve_left (by simp)
      -- the read of the inotify queue may fail, and then there is no batch
      have hread : monitorStep (.fail 0) s = some { s with monitor := some { m with pc := .handle [] ready } } := by
        simp [monitorStep, hm, hpc]
      refine canStop_step h hread ⟨_, rfl, rfl⟩ rfl (fun t ht => ?_)
      obtain ⟨m', hm', hpc'⟩ := ht.monitor
      have hdone : monitorStep (.ok 0) t = some { t with monitor := some { m' with pc := .dispatch ready } } := by
        simp [monitorStep, hm', hpc']
      exact canStop_step ht hdone ⟨_, rfl, rfl⟩ rfl (ih hr')
    | event =>
      have hstop : monitorStep (.ok 0) s = some { s with eventCount := 0, monitor := some { m with pc := .done } } := by
        simp [monitorStep, hm, hpc, h.flag, stopFlag]
      exact ⟨_, _, Relation.ReflTransGen.single ⟨.monitor (.ok 0), hstop⟩, rfl, rfl⟩

/-- `epoll_wait` returns the eventfd while the flag is there. -/
theorem canStop_epollWait (s : State) (h : Flagged .epollWait s) : CanStop s := by
  obtain ⟨m, hm, hpc⟩ := h.monitor
  have hready : Fd.event ∈ s.readyFds := by
    simp [State.readyFds, h.flag, stopFlag]
  have hne : s.readyFds ≠ [] := List.ne_nil_of_mem hready
  have hperm : s.readyFds.isPerm s.readyFds = true := List.isPerm_iff.mpr (List.Perm.refl _)
  have hwait : monitorStep (.ready s.readyFds) s = some { s with monitor := some { m with pc := .dispatch s.readyFds } } := by
    simp [monitorStep, hm, hpc, hne, hperm]
  exact canStop_step h hwait ⟨_, rfl, rfl⟩ rfl (canStop_dispatch hready)

/-- The monitor can be brought to its end while it handles the descriptors that are ready. -/
theorem canStop_ready (ready : List Fd) : ∀ s, Flagged (.dispatch ready) s → CanStop s := by
  by_cases hr : Fd.event ∈ ready
  · exact canStop_dispatch hr
  · induction ready with
    | nil =>
      intro s h
      obtain ⟨m, hm, hpc⟩ := h.monitor
      have hback : monitorStep (.ok 0) s = some { s with monitor := some { m with pc := .epollWait } } := by
        simp [monitorStep, hm, hpc]
      exact canStop_step h hback ⟨_, rfl, rfl⟩ rfl canStop_epollWait
    | cons fd ready ih =>
      intro s h
      obtain ⟨m, hm, hpc⟩ := h.monitor
      rw [List.mem_cons, not_or] at hr
      cases fd with
      | inotify =>
        have hread : monitorStep (.fail 0) s = some { s with monitor := some { m with pc := .handle [] ready } } := by
          simp [monitorStep, hm, hpc]
        refine canStop_step h hread ⟨_, rfl, rfl⟩ rfl (fun t ht => ?_)
        obtain ⟨m', hm', hpc'⟩ := ht.monitor
        have hdone : monitorStep (.ok 0) t = some { t with monitor := some { m' with pc := .dispatch ready } } := by
          simp [monitorStep, hm', hpc']
        exact canStop_step ht hdone ⟨_, rfl, rfl⟩ rfl (ih hr.2)
      | event => exact absurd rfl hr.1

section Check

variable {c : CheckFor} (hk : ∀ s, Flagged c.next s → CanStop s)

include hk

/-- The pull-up may fail, and then the check is over. -/
theorem canStop_pullUp (s : State) (h : Flagged (.pullUp c) s) : CanStop s := by
  obtain ⟨m, hm, hpc⟩ := h.monitor
  have hfail : monitorStep (.fail 0) s =
      some { s.write .monitor .gadgetName .pullup false with monitor := some { m with pc := c.next } } := by
    simp [monitorStep, hm, hpc]
  exact canStop_step h hfail ⟨_, rfl, rfl⟩ rfl hk

/-- It can be brought to its end from the delay before a pull-up. -/
theorem canStop_delay (s : State) (h : Flagged (.delay c) s) : CanStop s := by
  obtain ⟨m, hm, hpc⟩ := h.monitor
  have hsleep : monitorStep (.ok 0) s = some { s with monitor := some { m with pc := .pullUp c } } := by
    simp [monitorStep, hm, hpc]
  exact canStop_step h hsleep ⟨_, rfl, rfl⟩ rfl (canStop_pullUp hk)

/-- A check ends, whatever it finds. -/
theorem canStop_check (j : Nat) (s : State) (h : Flagged (.access j c) s) : CanStop s := by
  obtain ⟨m, hm, hpc⟩ := h.monitor
  by_cases hj : j < s.mem.mEndpointList.length
  · have habsent : monitorStep (.fail 0) s = some { s.log .foundMissing with monitor := some (m.absent c 0) } := by
      simp [monitorStep, hm, hpc, hj]
    refine canStop_step h habsent ⟨_, rfl, ?_⟩ rfl hk
    cases c with
    | start => rfl
    | event batch ready =>
      simp only [Monitor.absent]
      split <;> rfl
  · have hfound : monitorStep (.ok 0) s = some { s with monitor := some (m.allFound c 0) } := by
      simp [monitorStep, hm, hpc, List.getElem?_eq_none (Nat.le_of_not_lt hj)]
    have hend : (m.allFound c 0).pc = .delay c ∨ (m.allFound c 0).pc = .pullUp c ∨ (m.allFound c 0).pc = c.next := by
      cases c with
      | start => exact .inl rfl
      | event batch ready =>
        simp only [Monitor.allFound]
        split
        · split
          · exact .inl rfl
          · exact .inr (.inl rfl)
        · exact .inr (.inr rfl)
    rcases hend with hend | hend | hend
    · exact canStop_step h hfound ⟨_, rfl, hend⟩ rfl (canStop_delay hk)
    · exact canStop_step h hfound ⟨_, rfl, hend⟩ rfl (canStop_pullUp hk)
    · exact canStop_step h hfound ⟨_, rfl, hend⟩ rfl hk

end Check

/-- What is left of a batch is handled, one check for each event. -/
theorem canStop_handle (batch : List InotifyEvent) (ready : List Fd) : ∀ s, Flagged (.handle batch ready) s → CanStop s := by
  induction batch with
  | nil =>
    intro s h
    obtain ⟨m, hm, hpc⟩ := h.monitor
    have hnext : monitorStep (.ok 0) s = some { s with monitor := some { m with pc := .dispatch ready } } := by
      simp [monitorStep, hm, hpc]
    exact canStop_step h hnext ⟨_, rfl, rfl⟩ rfl (canStop_ready ready)
  | cons x batch ih =>
    intro s h
    obtain ⟨m, hm, hpc⟩ := h.monitor
    have hcheck : monitorStep (.ok 0) s = some { s with monitor := some { m with pc := .access 0 (.event batch ready) } } := by
      simp [monitorStep, hm, hpc]
    have hnext : ∀ t, Flagged (CheckFor.event batch ready).next t → CanStop t := ih
    exact canStop_step h hcheck ⟨_, rfl, rfl⟩ rfl (canStop_check hnext 0)

/-- It can be brought to its end from behind a check. -/
theorem canStop_next (c : CheckFor) : ∀ s, Flagged c.next s → CanStop s := by
  cases c with
  | start => exact canStop_epollWait
  | event batch ready => exact canStop_handle batch ready

/-- With the stop flag in its eventfd and `mLock` free, the monitor can end. -/
theorem canStop_of_flag {s : State} {m : Monitor} (hm : s.monitor = some m) (hf : s.eventCount = stopFlag)
    (hl : s.lockHeld = false) : CanStop s := by
  have h : Flagged m.pc s := ⟨⟨m, hm, rfl⟩, hf, hl⟩
  cases hpc : m.pc with
  | access j c => exact canStop_check (canStop_next c) j s (hpc ▸ h)
  | delay c => exact canStop_delay (canStop_next c) s (hpc ▸ h)
  | pullUp c => exact canStop_pullUp (canStop_next c) s (hpc ▸ h)
  | publish c =>
    have hset : monitorStep (.ok 0) s = some { s.log (.applied .monitor true) with
        mem := { s.mem with mCurrentUsbFunctionsApplied := true, gadgetPullup := true }
        monitor := some { m with pc := c.next, writeUdc := false } } := by
      simp [monitorStep, hm, hpc, hl]
    exact canStop_step h hset ⟨_, rfl, rfl⟩ rfl (canStop_next c)
  | epollWait => exact canStop_epollWait s (hpc ▸ h)
  | dispatch ready => exact canStop_ready ready s (hpc ▸ h)
  | handle batch ready => exact canStop_handle batch ready s (hpc ▸ h)
  | done => exact ⟨s, m, .refl, hm, hpc⟩

end Pixel845.Usb
