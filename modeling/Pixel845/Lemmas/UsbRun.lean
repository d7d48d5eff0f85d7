import Pixel845.Lemmas.UsbService

/-!
# Runs of the service

What an operation leaves alone (`exec_frame`), for invariants of whole runs; what the service is reporting at a moment; and how a
run that is computed shows that a configuration is reached.
-/

namespace Pixel845.Usb

/-- What an operation does to the parts of the state that the monitor or the controller see. -/
structure ExecFrame (o : Op) (ch : Choice) (s s' : State) : Prop where
  files : (∃ content path, o = .writeString content path ∧ s' = s.write .main content path (decide (ch = .ok))) ∨
    (s'.files = s.files ∧ s'.bound = s.bound)
  mem : (∃ b, o = .setApplied b ∧ s'.mem = { s.mem with mCurrentUsbFunctionsApplied := b }) ∨
    (∃ g, o = .store g ∧ s'.mem = g s.mem) ∨ s'.mem = s.mem
  present : s'.present = s.present
  queue : o = .inotifyInit ∨ o = .closeFds ∨ s'.queue = s.queue
  watches : o = .inotifyInit ∨ o = .closeFds ∨ (∃ dir, o = .inotifyAddWatch dir) ∨ s'.watches = s.watches
  monitor : o = .join ∨ (o = .spawn ∧ s'.monitor = some Monitor.init) ∨ s'.monitor = s.monitor
  trace : (∃ f cb, s'.trace = [.entered f cb]) ∨
    ∃ evs, s'.trace = s.trace ++ evs ∧
      ∀ e ∈ evs, e.isEnv = false ∧ (e = .started → o = .spawn) ∧ ∀ names, e = .listed names → o = .opendir ∧ ch = .listing names

/-- Two states agree on the parts that the monitor or the controller see. -/
structure SameParts (s s' : State) : Prop where
  files : s'.files = s.files
  bound : s'.bound = s.bound
  mem : s'.mem = s.mem
  present : s'.present = s.present
  queue : s'.queue = s.queue
  watches : s'.watches = s.watches
  monitor : s'.monitor = s.monitor

theorem SameParts.refl (s : State) : SameParts s s := ⟨rfl, rfl, rfl, rfl, rfl, rfl, rfl⟩

/-- An operation that changes none of these parts and logs nothing. -/
theorem SameParts.frame {o : Op} {ch : Choice} {s s' : State} (h : SameParts s s') (ht : s'.trace = s.trace) :
    ExecFrame o ch s s' :=
  ⟨.inr ⟨h.files, h.bound⟩, .inr (.inr h.mem), h.present, .inr (.inr h.queue), .inr (.inr (.inr h.watches)),
    .inr (.inr h.monitor), .inr ⟨[], by rw [ht, List.append_nil], by simp⟩⟩

/-- An operation that changes none of these parts and logs an event of its own. -/
theorem SameParts.logged {o : Op} {ch : Choice} {s s' : State} {e : Event} (h : SameParts s s')
    (ht : s'.trace = s.trace ++ [e]) (he : e.isEnv = false) (hs : e ≠ .started)
    (hl : ∀ names, e = .listed names → o = .opendir ∧ ch = .listing names) : ExecFrame o ch s s' :=
  ⟨.inr ⟨h.files, h.bound⟩, .inr (.inr h.mem), h.present, .inr (.inr h.queue), .inr (.inr (.inr h.watches)),
    .inr (.inr h.monitor), .inr ⟨[e], ht, by simpa using ⟨he, fun h => absurd h hs, hl⟩⟩⟩

/-- A write changes what a write may. -/
theorem writeString_frame (s : State) (content : Content) (path : Path) (ch : Choice) :
    ExecFrame (.writeString content path) ch s (s.write .main content path (decide (ch = .ok))) := by
  refine ⟨.inl ⟨content, path, rfl, rfl⟩, .inr (.inr (by simp)), ?_, .inr (.inr ?_), .inr (.inr (.inr (by simp))),
    .inr (.inr (by simp)), .inr ⟨[.wrote .main content path (decide (ch = .ok))], by simp, by simp [Event.isEnv]⟩⟩
  · unfold State.write
    split <;> rfl
  · unfold State.write
    split <;> rfl

/-- An operation that may fail and changes none of these parts. -/
theorem mayFail_frame {o : Op} {ch : Choice} {s s₁ s' : State} {r : Bool} (h : mayFail s s₁ ch = some (r, s'))
    (hs : SameParts s s₁) (ht : s₁.trace = s.trace) : ExecFrame o ch s s' := by
  rcases mayFail_cases h with ⟨-, rfl⟩ | ⟨-, rfl⟩
  · exact hs.frame ht
  · exact (SameParts.refl s').frame rfl

/-- An operation that does not fail and changes none of these parts. -/
theorem always_frame {o : Op} {ch : Choice} {s s₁ s' : State} {r : Unit} (h : always s₁ ch = some (r, s'))
    (hs : SameParts s s₁) (ht : s₁.trace = s.trace) : ExecFrame o ch s s' := by
  rw [always_eq h]
  exact hs.frame ht

/-! ### The files -/

theorem exec_frame_writeString {content : Content} {path : Path} {ch : Choice} {s s' : State} {r : Bool}
    (h : exec (.writeString content path) ch s = some (r, s')) : ExecFrame (.writeString content path) ch s s' := by
  have hr : r = decide (ch = .ok) := by
    cases ch with
    | ok =>
      cases h
      rfl
    | fail =>
      cases h
      rfl
    | listing names => cases h
  rw [writeString_eq h, hr]
  exact writeString_frame s content path ch

theorem exec_frame_opendir {ch : Choice} {s s' : State} {r : Option (List CStr)} (h : exec .opendir ch s = some (r, s')) :
    ExecFrame .opendir ch s s' := by
  simp only [exec] at h
  split at h
  · split at h
    · cases h
      exact SameParts.logged ⟨rfl, rfl, rfl, rfl, rfl, rfl, rfl⟩ rfl rfl (by simp) (by simp)
    · cases h
  · cases h
    exact (SameParts.refl _).frame rfl
  · cases h

theorem exec_frame_symlink {function : Function} {index : Nat} {ch : Choice} {s s' : State} {r : Bool}
    (h : exec (.symlink function index) ch s = some (r, s')) : ExecFrame (.symlink function index) ch s s' := by
  simp only [exec] at h
  split at h
  · split at h
    · cases h
    · cases h
      exact SameParts.logged ⟨rfl, rfl, rfl, rfl, rfl, rfl, rfl⟩ rfl rfl (by simp) (by simp)
  · cases h
    exact SameParts.logged ⟨rfl, rfl, rfl, rfl, rfl, rfl, rfl⟩ rfl rfl (by simp) (by simp)
  · cases h

/-! ### The descriptors and the monitor -/

theorem exec_frame_inotifyInit {ch : Choice} {s s' : State} {r : Bool} (h : exec .inotifyInit ch s = some (r, s')) :
    ExecFrame .inotifyInit ch s s' := by
  rcases mayFail_cases h with ⟨-, rfl⟩ | ⟨-, rfl⟩
  · exact ⟨.inr ⟨rfl, rfl⟩, .inr (.inr rfl), rfl, .inl rfl, .inl rfl, .inr (.inr rfl), .inr ⟨[], by simp, by simp⟩⟩
  · exact (SameParts.refl _).frame rfl

theorem exec_frame_inotifyAddWatch {dir : FfsDir} {ch : Choice} {s s' : State} {r : Bool}
    (h : exec (.inotifyAddWatch dir) ch s = some (r, s')) : ExecFrame (.inotifyAddWatch dir) ch s s' := by
  rcases mayFail_cases h with ⟨-, rfl⟩ | ⟨-, rfl⟩
  · exact ⟨.inr ⟨rfl, rfl⟩, .inr (.inr rfl), rfl, .inr (.inr rfl), .inr (.inr (.inl ⟨dir, rfl⟩)), .inr (.inr rfl),
      .inr ⟨[], by simp, by simp⟩⟩
  · exact (SameParts.refl _).frame rfl

theorem exec_frame_writeEventFd {flag : Nat} {ch : Choice} {s s' : State} {r : Bool}
    (h : exec (.writeEventFd flag) ch s = some (r, s')) : ExecFrame (.writeEventFd flag) ch s s' := by
  simp only [exec] at h
  split at h
  · cases h
    exact SameParts.logged ⟨rfl, rfl, rfl, rfl, rfl, rfl, rfl⟩ rfl rfl (by simp) (by simp)
  · cases h
    exact SameParts.logged ⟨rfl, rfl, rfl, rfl, rfl, rfl, rfl⟩ rfl rfl (by simp) (by simp)
  · cases h

theorem exec_frame_join {ch : Choice} {s s' : State} {r : Unit} (h : exec .join ch s = some (r, s')) :
    ExecFrame .join ch s s' := by
  simp only [exec] at h
  split at h
  · split at h
    · rw [always_eq h]
      exact ⟨.inr ⟨rfl, rfl⟩, .inr (.inr rfl), rfl, .inr (.inr rfl), .inr (.inr (.inr rfl)), .inl rfl,
        .inr ⟨[], by simp, by simp⟩⟩
    · cases h
  · cases h

/-! ### The properties and the condition variable -/

theorem exec_frame_getProperty {key : PropKey} {ch : Choice} {s s' : State} {r : CStr}
    (h : exec (.getProperty key) ch s = some (r, s')) : ExecFrame (.getProperty key) ch s s' := by
  simp only [exec] at h
  split at h
  · cases h
    exact SameParts.logged ⟨rfl, rfl, rfl, rfl, rfl, rfl, rfl⟩ rfl rfl (by simp) (by simp)
  · cases h

theorem exec_frame_setProperty {key : PropKey} {value : CStr} {ch : Choice} {s s' : State} {r : Unit}
    (h : exec (.setProperty key value) ch s = some (r, s')) : ExecFrame (.setProperty key value) ch s s' := by
  simp only [exec] at h
  split at h
  · cases h
    exact SameParts.frame ⟨rfl, rfl, rfl, rfl, rfl, rfl, rfl⟩ rfl
  · cases h
    exact (SameParts.refl _).frame rfl
  · cases h

theorem exec_frame_cvAcquire {ch : Choice} {s s' : State} {r : Unit} (h : exec .cvAcquire ch s = some (r, s')) :
    ExecFrame .cvAcquire ch s s' := by
  simp only [exec] at h
  split at h
  · cases h
  · split at h
    · split at h
      · cases h
        exact SameParts.frame ⟨rfl, rfl, rfl, rfl, rfl, rfl, rfl⟩ rfl
      · cases h
    · cases h
      exact SameParts.frame ⟨rfl, rfl, rfl, rfl, rfl, rfl, rfl⟩ rfl
    · cases h

/-! ### All operations -/

/-- What every operation leaves alone. -/
theorem exec_frame {o : Op} {ch : Choice} {s s' : State} {r : o.Res} (h : exec o ch s = some (r, s')) :
    ExecFrame o ch s s' := by
  have hsame : SameParts s s := .refl s
  cases o with
  | lockSetCurrentFunction f cb =>
    rw [always_eq h]
    exact ⟨.inr ⟨rfl, rfl⟩, .inr (.inr rfl), rfl, .inr (.inr rfl), .inr (.inr (.inr rfl)), .inr (.inr rfl), .inl ⟨f, cb, rfl⟩⟩
  | writeString content path => exact exec_frame_writeString h
  | opendir => exact exec_frame_opendir h
  | remove name | eventfd => exact mayFail_frame h ⟨rfl, rfl, rfl, rfl, rfl, rfl, rfl⟩ rfl
  | symlink function index => exact exec_frame_symlink h
  | inotifyInit => exact exec_frame_inotifyInit h
  | inotifyAddWatch dir => exact exec_frame_inotifyAddWatch h
  | epollCreate | epollAdd fd => exact mayFail_frame h hsame rfl
  | closeFds =>
    rw [always_eq h]
    exact ⟨.inr ⟨rfl, rfl⟩, .inr (.inr rfl), rfl, .inr (.inl rfl), .inr (.inl rfl), .inr (.inr rfl), .inr ⟨[], by simp, by simp⟩⟩
  | writeEventFd flag => exact exec_frame_writeEventFd h
  | join => exact exec_frame_join h
  | spawn =>
    rw [always_eq h]
    exact ⟨.inr ⟨rfl, rfl⟩, .inr (.inr rfl), rfl, .inr (.inr rfl), .inr (.inr (.inr rfl)), .inr (.inl ⟨rfl, rfl⟩),
      .inr ⟨[.started], rfl, by simp [Event.isEnv]⟩⟩
  | getProperty key => exact exec_frame_getProperty h
  | setProperty key value => exact exec_frame_setProperty h
  | load =>
    simp only [exec] at h
    split at h
    · cases h
      exact hsame.frame rfl
    · cases h
  | store g =>
    rw [always_eq h]
    exact ⟨.inr ⟨rfl, rfl⟩, .inr (.inl ⟨g, rfl, rfl⟩), rfl, .inr (.inr rfl), .inr (.inr (.inr rfl)), .inr (.inr rfl),
      .inr ⟨[], by simp, by simp⟩⟩
  | setApplied value =>
    rw [always_eq h]
    refine ⟨.inr ⟨rfl, rfl⟩, .inl ⟨value, rfl, rfl⟩, rfl, .inr (.inr rfl), .inr (.inr (.inr rfl)), .inr (.inr rfl),
      .inr ⟨[.applied .main value], rfl, by simp [Event.isEnv]⟩⟩
  | lock =>
    simp only [exec] at h
    split at h
    · cases h
    · exact always_frame h ⟨rfl, rfl, rfl, rfl, rfl, rfl, rfl⟩ rfl
  | unlock | cvRelease => exact always_frame h ⟨rfl, rfl, rfl, rfl, rfl, rfl, rfl⟩ rfl
  | cvAcquire => exact exec_frame_cvAcquire h
  | sprintf text | usleep | getCurrentUsbFunctionsCb f status => exact always_frame h hsame rfl
  | setCurrentUsbFunctionsCb f status =>
    rw [always_eq h]
    exact SameParts.logged ⟨rfl, rfl, rfl, rfl, rfl, rfl, rfl⟩ rfl rfl (by simp) (by simp)

/-- Only `spawn` starts a monitor. -/
theorem exec_started {o : Op} {ch : Choice} {s s' : State} {r : o.Res} (h : exec o ch s = some (r, s'))
    (hs : .started ∈ s'.trace) : o = .spawn ∨ .started ∈ s.trace := by
  rcases (exec_frame h).trace with ⟨f, cb, ht⟩ | ⟨evs, ht, hev⟩
  · rw [ht] at hs
    simp at hs
  · rw [ht] at hs
    exact (List.mem_append.mp hs).symm.imp_left fun hmem => (hev _ hmem).2.1 rfl

/-- The monitor that is there after an operation has just been started, or was there before. -/
theorem exec_monitor {o : Op} {ch : Choice} {s s' : State} {r : o.Res} {m : Monitor} (h : exec o ch s = some (r, s'))
    (hm : s'.monitor = some m) : (o = .spawn ∧ m = Monitor.init) ∨ s.monitor = some m := by
  rcases (exec_frame h).monitor with rfl | ⟨rfl, hspawn⟩ | hsame
  · -- after a join there is no monitor
    simp only [exec] at h
    split at h
    · split at h
      · rw [always_eq h] at hm
        cases hm
      · cases h
    · cases h
  · exact .inl ⟨rfl, Option.some.inj (hm.symm.trans hspawn)⟩
  · exact .inr (hsame ▸ hm)

/-! ## Reports -/

/-- What the service is about to report to a caller of `getCurrentUsbFunctions`. -/
def reporting (c : Service) : Option (UInt64 × Status) :=
  match c.thread with
  | some (_, .op (.getCurrentUsbFunctionsCb f status) _) => some (f, status)
  | _ => none

/-- A service that reports stands before the callback. -/
theorem reporting_cases {c : Service} {f : UInt64} {status : Status} (h : reporting c = some (f, status)) :
    ∃ q k, c.thread = some (q, .op (.getCurrentUsbFunctionsCb f status) k) := by
  obtain ⟨s, t⟩ := c
  unfold reporting at h
  split at h
  · rename_i q f' status' k ht
    cases h
    exact ⟨q, k, ht⟩
  · cases h

/-- A report of the flag as set relies on what the contract says of it. -/
theorem report_pre {s : State} {c : Service} (hs : Idle s) (h : Reaches ⟨s, none⟩ c) {f : UInt64}
    (hr : reporting c = some (f, .functionsApplied)) :
    c.state.mem.mCurrentUsbFunctionsApplied = true ∧ Reported f c.state ∧ NoFail c.state := by
  obtain ⟨q, k, ht⟩ := reporting_cases hr
  exact (service_ok hs h).pre_of_op ht

/-- The answer the service is about to give to a caller of `setCurrentUsbFunctions`. -/
def answering (c : Service) : Option (UInt64 × Status) :=
  match c.thread with
  | some (_, .op (.setCurrentUsbFunctionsCb f status) _) => some (f, status)
  | _ => none

/-- A service that answers stands before the callback. -/
theorem answering_cases {c : Service} {f : UInt64} {status : Status} (h : answering c = some (f, status)) :
    ∃ q k, c.thread = some (q, .op (.setCurrentUsbFunctionsCb f status) k) := by
  obtain ⟨s, t⟩ := c
  unfold answering at h
  split at h
  · rename_i q f' status' k ht
    cases h
    exact ⟨q, k, ht⟩
  · cases h

/-- The request that is served, and its outcome when it is about to return. -/
def serving (c : Service) : Option (Req × Option Status) :=
  match c.thread with
  | some (q, .ret status) => some (q, some status)
  | some (q, .op _ _) => some (q, none)
  | none => none

/-- A request that is served and has returned stands at its end. -/
theorem serving_returned {c : Service} {q : Req} {status : Status} (h : serving c = some (q, some status)) :
    c.thread = some (q, .ret status) := by
  unfold serving at h
  split at h
  · rename_i q' status' ht
    cases h
    exact ht
  · cases h
  · cases h

/-! ## Computed runs -/

variable (M : Machine Op Op.Res State Choice Env)

/-- Whether a run is possible and ends where a test succeeds. -/
def endsIn (s : State) (acts : List (Machine.Action Choice Env Req)) (test : Service → Bool) : Bool :=
  match M.steps body ⟨s, none⟩ acts with
  | some c => test c
  | none => false

/-- A run that is possible reaches its end. -/
theorem reaches_of_endsIn (s : State) (acts : List (Machine.Action Choice Env Req)) (test : Service → Bool)
    (h : endsIn M s acts test = true) : ∃ c, M.Reaches body ⟨s, none⟩ c ∧ test c = true := by
  unfold endsIn at h
  split at h
  · rename_i c hc
    exact ⟨c, ⟨acts, hc⟩, h⟩
  · cases h

/-- Whether a run is possible, passes a test at every step and ends where another test succeeds. -/
def endsInIf (ok : Service → Machine.Action Choice Env Req → Bool) (s : State) (acts : List (Machine.Action Choice Env Req))
    (test : Service → Bool) : Bool :=
  match acts.foldlM (M.stepIf body ok) ⟨s, none⟩ with
  | some c => test c
  | none => false

/-- A run that is possible and passes its tests reaches its end by steps that meet the condition. -/
theorem reachesIf_of_endsInIf {ok : Service → Machine.Action Choice Env Req → Prop}
    {okTest : Service → Machine.Action Choice Env Req → Bool} (hok : ∀ c a, okTest c a = true → ok c a) (s : State)
    (acts : List (Machine.Action Choice Env Req)) (test : Service → Bool) (h : endsInIf M okTest s acts test = true) :
    ∃ c, M.ReachesIf body ok ⟨s, none⟩ c ∧ test c = true := by
  unfold endsInIf at h
  split at h
  · rename_i c hc
    exact ⟨c, Machine.ReachesIf.of_steps hok .refl hc, h⟩
  · cases h

end Pixel845.Usb
