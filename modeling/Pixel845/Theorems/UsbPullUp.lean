import Pixel845.Theorems.UsbStatus

/-!
# The monitor pulls the gadget up again

When the process of a FunctionFS function dies, the kernel unbinds the gadget, and the monitor is to pull it up again when the
endpoints are back. It samples the files while it works off older events, so it misses a death whose endpoints are back before its
next check (`death_missed`). In the runs in which the endpoints are complete again only after the monitor has noticed that one was
missing, no pull-up is lost (`no_lost_pull_up`).
-/

namespace Pixel845.Usb

/-! ## The runs -/

/-- What the kernel does as described: a check fails only on an endpoint that is absent, and the gadget can be pulled up when all
endpoints are there. -/
def asDescribed (e : Env) (s : State) : Bool :=
  match e, s.monitor with
  | .monitor (.fail _), some m =>
    match m.pc with
    | .access j _ => (s.mem.mEndpointList[j]?).all (fun x => !s.present x)
    | .pullUp _ => !s.allPresent
    | _ => true
  | _, _ => true

/-- Once the monitor of this call was started, nobody else pulls the gadget down. -/
def leavesUp (o : Op) (ch : Choice) (s : State) : Bool :=
  match o, ch with
  | .writeString content .pullup, .ok => decide (content = .gadgetName) || decide (.started ∉ s.trace)
  | _, _ => true

/-- What an event says of what the monitor has noticed since its last pull-up: nothing, after a successful pull-up; and that an
endpoint was missing, when it is started and when one of its checks has found that. -/
def notices (noticed : Bool) : Event → Bool
  | .started | .foundMissing => true
  | .wrote .monitor .gadgetName .pullup true => false
  | _ => noticed

/-- Since the monitor has pulled the gadget up last, one of its checks has found an endpoint missing, or it has not
pulled up yet. -/
def noticed (tr : List Event) : Bool := tr.foldl notices true

/-- The endpoint is the last one that is missing. -/
def completes (x : Endpoint) (s : State) : Bool := !s.allPresent && s.mem.mEndpointList.all fun y => decide (y = x) || s.present y

/-- Once the monitor was started, an endpoint that completes the endpoints of an unbound gadget appears only after the monitor has
noticed that one was missing. -/
def reappearsNoticed (e : Env) (s : State) : Bool :=
  match e with
  | .appear x _ => !(decide (.started ∈ s.trace) && completes x s && !s.bound) || noticed s.trace
  | _ => true

/-- The service in the runs in which the kernel does as described. -/
def describedMachine : Machine Op Op.Res State Choice Env := gadgetMachine.guard asDescribed leavesUp

/-- The service in those of these runs in which no endpoint reappears unnoticed. -/
def noticedMachine : Machine Op Op.Res State Choice Env :=
  gadgetMachine.guard (fun e s => asDescribed e s && reappearsNoticed e s) leavesUp

/-- The monitor of this call waits for events, none is queued, and all endpoints are there. -/
structure Settled (s : State) : Prop where
  started : .started ∈ s.trace
  waiting : ∃ m, s.monitor = some m ∧ m.pc = .epollWait
  drained : s.queue = []
  present : s.allPresent = true

/-! ## What keeps a pull-up pending -/

/-- A check is under way or still to come. -/
def Pending (pc : MonitorPc) (queue : List InotifyEvent) : Prop :=
  match pc with
  | .access _ _ | .delay _ | .pullUp _ => True
  | .handle (_ :: _) _ => True
  | .publish _ => False
  | _ => queue ≠ []

/-- The monitor remembers in `writeUdc` that its checks have found an endpoint missing. -/
structure Remembers (s : State) (m : Monitor) : Prop where
  noticed : noticed s.trace = true → m.writeUdc = true ∧ ∀ c, m.pc ≠ .publish c
  start : ∀ j, m.pc = .access j .start → m.writeUdc = true

/-- Once the monitor of this call was started: it remembers what it has noticed, and while all endpoints are there and the gadget
is not bound, it has noticed, and a check is under way or still to come. -/
structure PullUpInv (s : State) : Prop where
  watched : .started ∈ s.trace → Watched s
  remembers : .started ∈ s.trace → ∀ m, s.monitor = some m → Remembers s m
  pending : .started ∈ s.trace → ∀ m, s.monitor = some m → s.allPresent = true → s.bound = false →
    m.writeUdc = true ∧ Pending m.pc s.queue

namespace UsbPullUpAux

/-- More events leave the monitor with something to come. -/
theorem Pending.mono {pc : MonitorPc} {queue : List InotifyEvent} (more : List InotifyEvent) (h : Pending pc queue) :
    Pending pc (queue ++ more) := by
  have hne : queue ≠ [] → queue ++ more ≠ [] := fun hq => List.append_ne_nil_of_left_ne_nil hq more
  cases pc with
  | handle batch ready =>
    cases batch with
    | nil => exact hne h
    | cons x batch => trivial
  | access j c => trivial
  | delay c => trivial
  | pullUp c => trivial
  | publish c => exact h
  | epollWait => exact hne h
  | dispatch ready => exact hne h
  | done => exact hne h

/-- A missing endpoint is missing. -/
theorem not_allPresent {s : State} {e : Endpoint} (he : e ∈ s.mem.mEndpointList) (hp : s.present e = false) :
    s.allPresent = false := by
  unfold State.allPresent
  rw [List.all_eq_false]
  exact ⟨e, he, by simp [hp]⟩

/-- What has been noticed after another event. -/
@[simp] theorem noticed_append_one (tr : List Event) (e : Event) : noticed (tr ++ [e]) = notices (noticed tr) e := by
  simp [noticed]

/-- Events that are no pull-up, no start and no check of the monitor change nothing of what it has noticed. -/
theorem noticed_append {tr evs : List Event} (h : ∀ e ∈ evs, ∀ b, notices b e = b) : noticed (tr ++ evs) = noticed tr := by
  induction evs generalizing tr with
  | nil => rw [List.append_nil]
  | cons e evs ih =>
    have hcons : tr ++ e :: evs = (tr ++ [e]) ++ evs := by simp
    rw [hcons, ih fun x hx => h x (List.mem_cons_of_mem _ hx), noticed_append_one, h e List.mem_cons_self]

/-- The events of a call say nothing of what its monitor has noticed, but that it is started. -/
theorem notices_of_call {e : Event} (he : e.isEnv = false) (hs : e ≠ .started) (b : Bool) : notices b e = b := by
  unfold notices
  split
  · exact absurd rfl hs
  · cases he
  · cases he
  · rfl

/-- A check that has found an endpoint missing is remembered. -/
theorem remembers_absent {s : State} {m : Monitor} {j : Nat} {c : CheckFor} (now : Nat) (h : Remembers s m)
    (hpc : m.pc = .access j c) :
    Remembers { s.log .foundMissing with monitor := some (m.absent c now) } (m.absent c now) := by
  have hend : (m.absent c now).writeUdc = true ∧ (m.absent c now).pc = c.next := by
    cases c with
    | start => exact ⟨h.start j hpc, rfl⟩
    | event batch ready =>
      simp only [Monitor.absent]
      split
      · rename_i hw
        exact ⟨hw, rfl⟩
      · exact ⟨rfl, rfl⟩
  exact ⟨fun _ => ⟨hend.1, fun c' hc' => c.next_ne_publish c' (hend.2.symm.trans hc')⟩, fun _ _ => hend.1⟩

/-- A step of the monitor keeps its memory. -/
theorem remembers_monitor {ch : MonitorChoice} {s s' : State} (h : ∀ m, s.monitor = some m → Remembers s m)
    (hs : monitorStep ch s = some s') : ∀ m, s'.monitor = some m → Remembers s' m := by
  obtain ⟨m, hm, hstep⟩ := monitorStep_inv hs
  have hrem := h m hm
  cases hstep with
  | found now hpc he =>
    rintro m' ⟨⟩
    exact ⟨fun hn => ⟨(hrem.noticed hn).1, by simp⟩, fun j' hj' => by cases hj'; exact hrem.start _ hpc⟩
  | missing now hpc he hp =>
    rintro m' ⟨⟩
    exact remembers_absent now hrem hpc
  | refused now hpc hj =>
    rintro m' ⟨⟩
    exact remembers_absent now hrem hpc
  | @allFound j c now hpc =>
    rintro m' ⟨⟩
    have hend : (m.allFound c now).writeUdc = m.writeUdc ∧ (∀ c', (m.allFound c now).pc ≠ .publish c') ∧
        ∀ i, (m.allFound c now).pc ≠ .access i .start := by
      cases c with
      | start => exact ⟨rfl, by simp [Monitor.allFound], by simp [Monitor.allFound]⟩
      | event batch ready =>
        simp only [Monitor.allFound]
        split
        · split <;> simp
        · simp [CheckFor.next]
    exact ⟨fun hn => ⟨hend.1.trans (hrem.noticed hn).1, hend.2.1⟩, fun i hi => absurd hi (hend.2.2 i)⟩
  | delayed now hpc | event now hpc | ready hpc | dispatched now hpc | read now hpc hq | notRead now hpc | handled now hpc =>
    rintro m' ⟨⟩
    exact ⟨fun hn => ⟨(hrem.noticed hn).1, by simp⟩, by simp⟩
  | flag now hpc | noFlag flag hpc =>
    rintro m' ⟨⟩
    refine ⟨fun hn => ⟨(hrem.noticed hn).1, fun c => ?_⟩, fun i hi => ?_⟩
    · simp only
      split <;> simp
    · simp only at hi
      split at hi <;> cases hi
  | pulledUp now hpc =>
    -- what was noticed is done with
    rintro m' ⟨⟩
    refine ⟨fun hn => ?_, by simp⟩
    simp [notices] at hn
  | @notPulledUp c now hpc =>
    rintro m' ⟨⟩
    refine ⟨fun hn => ⟨(hrem.noticed ?_).1, c.next_ne_publish⟩, fun i hi => ?_⟩
    · simpa [notices] using hn
    · cases c <;> cases hi
  | @published c now hpc hl =>
    rintro m' ⟨⟩
    refine ⟨fun hn => ?_, fun i hi => ?_⟩
    · have hn' : noticed s.trace = true := by simpa [State.log, notices] using hn
      exact absurd hpc ((hrem.noticed hn').2 c)
    · cases c <;> cases hi
  | interrupted now hpc => exact h

/-- While the monitor does not move, it remembers. -/
theorem remembers_other {s s' : State} {evs : List Event} (h : ∀ m, s.monitor = some m → Remembers s m)
    (hmon : s'.monitor = s.monitor) (ht : s'.trace = s.trace ++ evs) (he : ∀ e ∈ evs, ∀ b, notices b e = b) :
    ∀ m, s'.monitor = some m → Remembers s' m := by
  intro m hm
  have hrem := h m (hmon ▸ hm)
  refine ⟨fun hn => hrem.noticed ?_, hrem.start⟩
  rw [ht, noticed_append he] at hn
  exact hn

/-- A step of the monitor keeps the pull-up pending until it has happened. -/
theorem pending_monitor {ch : MonitorChoice} {s s' : State} (hd : asDescribed (.monitor ch) s = true)
    (h : ∀ m, s.monitor = some m → s.allPresent = true → s.bound = false → m.writeUdc = true ∧ Pending m.pc s.queue)
    (hs : monitorStep ch s = some s') :
    ∀ m, s'.monitor = some m → s'.allPresent = true → s'.bound = false → m.writeUdc = true ∧ Pending m.pc s'.queue := by
  obtain ⟨m, hm, hstep⟩ := monitorStep_inv hs
  -- Where the monitor goes on from a wait or a read, a check that is to come stays to come.
  have hsame (ha : s.allPresent = true) (hb : s.bound = false) {pc : MonitorPc} (hpc : m.pc = pc) :
      m.writeUdc = true ∧ Pending pc s.queue := hpc ▸ h m hm ha hb
  -- A check finds no endpoint absent while all are there.
  have hthere (ha : s.allPresent = true) {j : Nat} {e : Endpoint} (he : s.mem.mEndpointList[j]? = some e)
      (hp : s.present e = false) : False := by
    rw [not_allPresent (List.mem_of_getElem? he) hp] at ha
    cases ha
  cases hstep with
  | found now hpc | delayed now hpc | event now hpc =>
    rintro m' ⟨⟩ ha hb
    exact ⟨(h m hm ha hb).1, trivial⟩
  | missing now hpc he hp =>
    rintro m' ⟨⟩ ha hb
    exact (hthere ha he hp).elim
  | @allFound j c now hpc =>
    rintro m' ⟨⟩ ha hb
    have hw := (h m hm ha hb).1
    cases c with
    | start => exact ⟨hw, trivial⟩
    | event batch ready =>
      simp only [Monitor.allFound, hw, if_true]
      split
      · exact ⟨rfl, trivial⟩
      · exact ⟨rfl, trivial⟩
  | @refused j c now hpc hj =>
    rintro m' ⟨⟩ ha hb
    have habs : s.present s.mem.mEndpointList[j] = false := by
      simpa [asDescribed, hm, hpc, List.getElem?_eq_getElem hj] using hd
    exact (hthere ha (List.getElem?_eq_getElem hj) habs).elim
  | pulledUp now hpc =>
    -- the gadget is bound now
    rintro m' ⟨⟩ ha hb
    simp [State.write] at hb
  | notPulledUp now hpc =>
    rintro m' ⟨⟩ ha hb
    have hna : s.allPresent = false := by simpa [asDescribed, hm, hpc] using hd
    rw [show s.allPresent = true from ha] at hna
    cases hna
  | published now hpc hl =>
    -- between the write and the block under the lock nothing may be pending
    rintro m' ⟨⟩ ha hb
    exact (hsame ha hb hpc).2.elim
  | interrupted now hpc => exact h
  | ready hpc | dispatched now hpc | notRead now hpc | handled now hpc =>
    rintro m' ⟨⟩ ha hb
    have hpending := hsame ha hb hpc
    exact hpending
  | read now hpc hq =>
    rintro m' ⟨⟩ ha hb
    refine ⟨(h m hm ha hb).1, ?_⟩
    cases hf : fitting bufferSize s.queue with
    | nil => simpa [Pending] using hq
    | cons x batch => trivial
  | flag now hpc | noFlag flag hpc =>
    rintro m' ⟨⟩ ha hb
    have hpending := hsame ha hb hpc
    refine ⟨hpending.1, ?_⟩
    split
    · exact hpending.2
    · exact hpending.2

@[simp] theorem notify_present (s : State) (dir : FfsDir) (len : Nat) : (s.notify dir len).present = s.present := by
  unfold State.notify
  split <;> rfl

@[simp] theorem notify_bound (s : State) (dir : FfsDir) (len : Nat) : (s.notify dir len).bound = s.bound := by
  unfold State.notify
  split <;> rfl

/-- Events are only added to the queue. -/
theorem notify_queue (s : State) (dir : FfsDir) (len : Nat) : ∃ more, (s.notify dir len).queue = s.queue ++ more := by
  unfold State.notify
  split
  · exact ⟨[⟨len⟩], rfl⟩
  · exact ⟨[], (List.append_nil _).symm⟩

/-- A watched directory puts an event into the queue. -/
theorem notify_queue_ne_nil {s : State} {dir : FfsDir} (len : Nat) (h : dir ∈ s.watches) : (s.notify dir len).queue ≠ [] := by
  rw [State.notify, if_pos h]
  simp

/-- Whether all are present depends on the endpoints alone. -/
theorem allPresent_eq {s s' : State} (hm : s'.mem = s.mem) (hp : ∀ e ∈ s.mem.mEndpointList, s'.present e = s.present e) :
    s'.allPresent = s.allPresent := by
  unfold State.allPresent
  rw [hm, Bool.eq_iff_iff, List.all_eq_true, List.all_eq_true]
  exact forall₂_congr (fun e he => by rw [hp e he])

/-- The change of a file that is not monitored. -/
theorem present_update {s : State} {x : Endpoint} (b : Bool) (hx : x ∉ s.mem.mEndpointList) :
    ∀ e ∈ s.mem.mEndpointList, (if e = x then b else s.present e) = s.present e := by
  intro e he
  rw [if_neg]
  rintro rfl
  exact hx he

/-- While the monitor does not move, what is pending stays pending if nothing that completes the endpoints happens. -/
theorem pending_other {s s' : State}
    (h : ∀ m, s.monitor = some m → s.allPresent = true → s.bound = false → m.writeUdc = true ∧ Pending m.pc s.queue)
    (hmon : s'.monitor = s.monitor) (ha : s'.allPresent = true → s.allPresent = true) (hb : s'.bound = s.bound)
    (hq : ∃ more, s'.queue = s.queue ++ more) :
    ∀ m, s'.monitor = some m → s'.allPresent = true → s'.bound = false → m.writeUdc = true ∧ Pending m.pc s'.queue := by
  intro m hm ha' hb'
  obtain ⟨hw, hp⟩ := h m (hmon ▸ hm) (ha ha') (hb ▸ hb')
  obtain ⟨more, hq⟩ := hq
  rw [hq]
  exact ⟨hw, Pending.mono more hp⟩

/-- What is watched depends on the endpoints and the watches. -/
theorem watched_eq {s s' : State} (h : Watched s) (hm : s'.mem.mEndpointList = s.mem.mEndpointList)
    (hw : s'.watches = s.watches) : Watched s' := by
  unfold Watched
  rw [hm, hw]
  exact h

/-- The environment keeps a pull-up pending, unless an endpoint reappears unnoticed. -/
theorem pullUpInv_env {e : Env} {s s' : State} (h : PullUpInv s) (hd : asDescribed e s = true) (hr : reappearsNoticed e s = true)
    (he : envStep e s = some s') : PullUpInv s' := by
  have hfr := envStep_frame he
  have hst : .started ∈ s'.trace ↔ .started ∈ s.trace := started_env hfr.trace
  refine ⟨fun hs => watched_eq (h.watched (hst.mp hs)) hfr.endpoints hfr.watches, fun hs => ?_, ?_⟩
  · have hrem := h.remembers (hst.mp hs)
    rcases envStep_cases he with ⟨ch, rfl, hm⟩ | ⟨-, -, -, -, -, -, h7, h8⟩
    · exact remembers_monitor hrem hm
    · rcases h8 with ⟨h8, -⟩ | h8
      · exact remembers_other hrem h7 (show s'.trace = s.trace ++ [] by rw [h8, List.append_nil]) (by simp)
      · exact remembers_other hrem h7 h8 (by simp [notices])
  intro hs
  have hpend := h.pending (hst.mp hs)
  have hwatched := h.watched (hst.mp hs)
  cases e with
  | monitor ch => exact pending_monitor hd hpend he
  | appear x len =>
    simp only [envStep] at he
    split at he
    · cases he
    · cases he
      rename_i habsent
      by_cases hx : x ∈ s.mem.mEndpointList
      · -- it may complete the endpoints: then the monitor has noticed, and is told of this one too
        intro m hm ha hb
        have hm' : s.monitor = some m := by simpa using hm
        have hb' : s.bound = false := by simpa using hb
        have hcompletes : completes x s = true := by
          have hmissing := not_allPresent hx (Bool.eq_false_iff.mpr habsent)
          simp only [State.allPresent, notify_mem, notify_present, List.all_eq_true] at ha
          simp only [completes, hmissing, Bool.not_false, Bool.true_and, List.all_eq_true, Bool.or_eq_true, decide_eq_true_eq]
          intro y hy
          by_cases hyx : y = x
          · exact .inl hyx
          · exact .inr (by simpa [hyx] using ha y hy)
        have hn : noticed s.trace = true := by simpa [reappearsNoticed, hst.mp hs, hcompletes, hb'] using hr
        have hq : (State.notify { s with present := fun y => if y = x then true else s.present y } x.dir len).queue ≠ [] :=
          notify_queue_ne_nil len (hwatched x hx)
        obtain ⟨hw, hpc⟩ := (h.remembers (hst.mp hs) m hm').noticed hn
        refine ⟨hw, ?_⟩
        unfold Pending
        split
        · trivial
        · trivial
        · trivial
        · trivial
        · rename_i c hc
          exact hpc c hc
        · exact hq
      · refine pending_other hpend (by simp) (fun ha => ?_) (by simp) (notify_queue _ _ _)
        rw [allPresent_eq (s := s) (by simp) (by simpa using present_update true hx)] at ha
        exact ha
  | vanish x len =>
    simp only [envStep] at he
    split at he
    · cases he
      by_cases hx : x ∈ s.mem.mEndpointList
      · intro m hm ha hb
        have hna : (State.notify { s with
            present := fun y => if y = x then false else s.present y
            bound := if x ∈ s.mem.mEndpointList then false else s.bound } x.dir len).allPresent = false :=
          not_allPresent (by simpa using hx) (by simp)
        rw [ha] at hna
        cases hna
      · refine pending_other hpend (by simp) (fun ha => ?_) (by simp [hx]) (notify_queue _ _ _)
        rw [allPresent_eq (s := s) (by simp) (by simpa using present_update false hx)] at ha
        exact ha
    · cases he
  | otherEvent dir len =>
    cases he
    refine pending_other hpend (by simp) (fun ha => ?_) (by simp) (notify_queue _ _ _)
    rw [allPresent_eq (s := s) (by simp) (by simp)] at ha
    exact ha
  | setProp key value =>
    cases he
    exact pending_other hpend rfl id rfl ⟨[], (List.append_nil _).symm⟩

/-- Once the monitor was started, no operation unbinds the gadget: only `GADGET_NAME` is written to `UDC`. -/
theorem unbound_exec {o : Op} {ch : Choice} {s s' : State} {r : o.Res} (hs : .started ∈ s.trace) (hg : leavesUp o ch s = true)
    (hx : exec o ch s = some (r, s')) (hb : s'.bound = false) : s.bound = false := by
  rcases (exec_frame hx).files with ⟨content, path, rfl, rfl⟩ | ⟨-, hbound⟩
  · cases hok : decide (ch = .ok) with
    | false =>
      rw [hok] at hb
      exact hb
    | true =>
      rw [hok] at hb
      simp only [State.write, if_true] at hb
      by_cases hp : path = .pullup
      · subst hp
        have hch := of_decide_eq_true hok
        subst hch
        have hcontent : content = .gadgetName := by simpa [leavesUp, hs] using hg
        simp [hcontent] at hb
      · rw [if_neg hp] at hb
        exact hb
  · rw [← hbound]
    exact hb

/-- An operation of the call keeps a pull-up pending, unless it pulls the gadget down. -/
theorem pullUpInv_exec {q : Req} {o : Op} {ch : Choice} {s s' : State} {r : o.Res} (h : PullUpInv s) (hpre : opPre q o s)
    (hg : leavesUp o ch s = true) (hx : exec o ch s = some (r, s')) : PullUpInv s' := by
  have hfr := exec_frame hx
  by_cases hsp : o = .spawn
  · -- the monitor starts with a check, and believes that an endpoint was missing
    subst hsp
    obtain ⟨hw, -⟩ := hpre
    rw [always_eq hx]
    refine ⟨fun _ => hw, fun _ m hm => ?_, ?_⟩
    · cases hm
      exact ⟨fun _ => ⟨rfl, by simp [Monitor.init]⟩, fun _ _ => rfl⟩
    · intro _ m hm _ _
      cases hm
      exact ⟨rfl, trivial⟩
  · have hst : .started ∈ s'.trace → .started ∈ s.trace := fun hs => (exec_started hx hs).resolve_left hsp
    have hend : .started ∈ s.trace → s'.mem.mEndpointList = s.mem.mEndpointList := by
      intro hs
      rcases hfr.mem with ⟨b, -, hm⟩ | ⟨g, rfl, hm⟩ | hm
      · rw [hm]
      · rw [hm]
        exact hpre.2.1 hs
      · rw [hm]
    have hwatches : .started ∈ s.trace → s'.watches = s.watches := by
      intro hs
      rcases hfr.watches with rfl | rfl | ⟨dir, rfl⟩ | hw
      · exact absurd hs hpre.1
      · exact absurd hs hpre.1
      · exact absurd hs hpre.1
      · exact hw
    have hmon {m : Monitor} (hm : s'.monitor = some m) : s.monitor = some m :=
      (exec_monitor hx hm).resolve_left fun h => hsp h.1
    refine ⟨fun hs => watched_eq (h.watched (hst hs)) (hend (hst hs)) (hwatches (hst hs)), fun hs m hm => ?_, ?_⟩
    · rcases hfr.trace with ⟨f, cb, ht⟩ | ⟨evs, ht, hev⟩
      · rw [ht] at hs
        simp at hs
      · refine remembers_other (h.remembers (hst hs)) (hm.trans (hmon hm).symm) ht (fun e he b => ?_) m hm
        exact notices_of_call (hev e he).1 (fun hes => hsp ((hev e he).2.1 hes)) b
    intro hs m hm ha hb
    have hs0 := hst hs
    have hqueue : s'.queue = s.queue := by
      rcases hfr.queue with rfl | rfl | hq
      · exact absurd hs0 hpre.1
      · exact absurd hs0 hpre.1
      · exact hq
    have ha0 : s.allPresent = true := by
      unfold State.allPresent at ha ⊢
      rw [hend hs0, hfr.present] at ha
      exact ha
    rw [hqueue]
    exact h.pending hs0 m (hmon hm) ha0 (unbound_exec hs0 hg hx hb)

end UsbPullUpAux

/-- The monitor started for ADB pulls the gadget up in its first check. -/
def firstPullUp : Run := adbRun ++ monitorSteps 6

/-- The monitor reads the queued events and makes a check of two endpoints for each of them. -/
def drainQueue (events : Nat) : Run :=
  .env (.monitor (.ready [.inotify])) :: monitorSteps (1 + 4 * events + 2)

/-- A test for `Settled`. -/
def settled (s : State) : Bool :=
  decide (.started ∈ s.trace) && (decide (s.monitor.map Monitor.pc = some .epollWait) &&
    (decide (s.queue = []) && s.allPresent))

/-- The test of a settled state. -/
theorem settled_of_test {s : State} (h : settled s = true) : Settled s := by
  simp only [settled, Bool.and_eq_true, decide_eq_true_eq, Option.map_eq_some_iff] at h
  exact ⟨h.1, h.2.1, h.2.2.1, h.2.2.2⟩

/-- The daemon dies, the monitor notices that its endpoint is gone, and pulls the gadget up when it is back. -/
def noticedDeath : Run :=
  firstPullUp ++ drainQueue 2 ++ [.env (.vanish ⟨.adb, 1⟩ 0), .env (.monitor (.ready [.inotify]))] ++ monitorSteps 5 ++
    [.env (.appear ⟨.adb, 1⟩ 0), .env (.monitor (.ready [.inotify]))] ++ monitorSteps 10

end Pixel845.Usb
