import Pixel845.Lemmas.UsbStop
import Pixel845.Theorems.UsbStatus

/-!
# The callback of `setCurrentUsbFunctions`

Every answer to a caller is the first of its call and carries the call's mask, and a success follows a pull-up of the
configuration the call has set up; a call that returns has answered. That every call can return is another matter:
`tearDownGadget` joins the monitor even if the stop flag could not be written, and then nobody tells the monitor to end
(`callback_contract_iff`).
-/

namespace Pixel845.Usb

/-- What a caller of `setCurrentUsbFunctions` with a callback may expect: each answer is the first, for the caller's mask, and a
success only after a pull-up; a call that returns has made exactly one; and the call can be brought to its end. -/
structure CallbackContract (f : UInt64) (c : Service) : Prop where
  answers : ∀ g status, answering c = some (g, status) → g = f ∧ Answering f status c.state.trace
  returns : ∀ q status, serving c = some (q, some status) →
    ∃ answer, c.state.trace.filterMap Event.call? = [(f, answer)] ∧ CallbacksSafe c.state.trace
  completes : ∃ c', Reaches c c' ∧ c'.thread = none

namespace UsbCallbackAux

/-- The machine at a moment of a run from a fresh service. -/
def Served (s : State) (c : Service) : Prop := Reaches ⟨s, none⟩ c

/-- Nothing has failed while the service is idle. -/
theorem noFail_of_idle {s : State} (h : Idle s) : NoFail s := h.between.1

/-- Only the join is issued after a failed write of the stop flag. -/
theorem opPre_noFail {q : Req} {o : Op} {s : State} (h : opPre q o s) : o = .join ∨ NoFail s := by
  cases o with
  | join => exact .inl rfl
  | writeString content path =>
    cases path with
    | pullup => exact .inr h.2
    | _ => exact .inr h
  | sprintf text => exact .inr h.2
  | setApplied value =>
    cases value with
    | true => exact .inr h.2
    | false => exact .inr h
  | getCurrentUsbFunctionsCb f status =>
    cases status with
    | functionsApplied => exact .inr h.2.2
    | _ => exact .inr h
  | store g => exact .inr h.2.2
  | lock => exact .inr h.2
  | cvAcquire => exact .inr h.2
  | inotifyInit => exact .inr h.2
  | inotifyAddWatch dir => exact .inr h.2
  | eventfd => exact .inr h.2
  | closeFds => exact .inr h.2
  | spawn => exact .inr h.2
  | setCurrentUsbFunctionsCb f status => exact .inr h.2.2
  | _ => exact .inr h

/-- After a failed write of the stop flag the call is at the join, and the monitor is quiet. -/
theorem stuck {s : State} {c : Service} (hs : Fresh s) (h : Served s c) (hf : ¬NoFail c.state) :
    ∃ q k, c.thread = some (q, .op .join k) ∧ ∀ m, c.state.monitor = some m → m.pc ≠ .done := by
  have hok := service_ok (.inl hs.uncalled) h
  cases ht : c.thread with
  | none => exact absurd (noFail_of_idle (hok.idle_of_none ht)) hf
  | some t =>
    obtain ⟨q, p⟩ := t
    cases p with
    | ret status => exact absurd (noFail_of_idle (post_idle q status _ (hok.post_of_ret ht))) hf
    | op o k =>
      have hpre := hok.pre_of_op ht
      rcases opPre_noFail hpre with rfl | hn
      · refine ⟨q, k, rfl, ?_⟩
        intro m hm
        rcases hpre.2.2.2 with ⟨-, hn⟩ | ⟨-, hstop⟩
        · exact absurd hn hf
        · exact (hpre.1.quiet m hm hstop).2.1
      · exact absurd hn hf

/-- No step leads out of that: the call never returns. -/
theorem stuck_step {s : State} {c c' : Service} {a : Machine.Action Choice Env Req} (hs : Fresh s) (h : Served s c)
    (hf : ¬NoFail c.state) (hstep : gadgetMachine.step body c a = some c') : ¬NoFail c'.state := by
  obtain ⟨q, k, ht, hd⟩ := stuck hs h hf
  rcases Machine.step_cases hstep with ⟨e, -, he, -⟩ | ⟨ch, q', o, k', r, -, ht', hx, -⟩ | ⟨q', x, -, ht', -⟩ | ⟨q', -, ht', -⟩
  · obtain ⟨evs, htr, -⟩ := (envStep_frame he).trace
    intro hn
    refine hf (fun hm => hn ?_)
    rw [htr]
    exact List.mem_append_left _ hm
  · rw [ht] at ht'
    cases ht'
    -- the join would end only with the monitor
    simp only [gadgetMachine, exec] at hx
    split at hx
    · rename_i m hm
      split at hx
      · rename_i hdone
        exact absurd hdone (hd m hm)
      · cases hx
    · cases hx
  · rw [ht] at ht'
    cases ht'
  · rw [ht] at ht'
    cases ht'

/-- A service that is stuck stays so. -/
theorem stuck_forever {s : State} {c c' : Service} (hs : Fresh s) (h : Served s c) (hf : ¬NoFail c.state)
    (hr : Reaches c c') : ∃ q k, c'.thread = some (q, .op .join k) := by
  have hinv : Served s c' ∧ ¬NoFail c'.state := by
    refine hr.invariant (I := fun d => Served s d ∧ ¬NoFail d.state) ⟨h, hf⟩ ?_
    exact fun a d d' hd hstep => ⟨hd.1.trans (Machine.Reaches.step hstep), stuck_step hs hd.1 hd.2 hstep⟩
  obtain ⟨q, k, ht, -⟩ := stuck hs hinv.1 hinv.2
  exact ⟨q, k, ht⟩

/-- Another event is no failure. -/
theorem noFail_log {s : State} {e : Event} (h : NoFail s) (he : e ≠ .signalled false) : NoFail (s.log e) := by
  unfold NoFail State.log
  rw [List.mem_append, List.mem_singleton]
  rintro (hm | hm)
  · exact h hm
  · exact he hm.symm

/-- No moves of the environment fail. -/
theorem noFail_envSteps {s s' : State} (h : gadgetMachine.EnvSteps s s') (hn : NoFail s) : NoFail s' :=
  Machine.Stable.envSteps (P := NoFail) (fun _ _ _ h he => h.env (envStep_frame he).trace) h hn

/-- Where no write of the stop flag has failed, the world can let the next operation of the call happen. -/
theorem can_go_on {q : Req} {o : Op} {s : State} (hpre : opPre q o s) (hn : NoFail s) :
    ∃ s', gadgetMachine.EnvSteps s s' ∧ ∃ ch r s'', gadgetMachine.exec o ch s' = some (r, s'') ∧ NoFail s'' := by
  cases o with
  | join =>
    -- the monitor was told to stop, so it can come to its end
    obtain ⟨hinv, hl, hsome, hout⟩ := hpre
    obtain ⟨m, hm⟩ := Option.isSome_iff_exists.mp hsome
    have hstop : Stopping s := by
      rcases hout with ⟨hstop, -⟩ | ⟨hfail, -⟩
      · exact hstop
      · exact absurd hfail hn
    have hcan : CanStop s := by
      rcases hinv.stopping m hm hstop with hflag | hdone
      · exact canStop_of_flag hm hflag hl
      · exact ⟨s, m, .refl, hm, hdone⟩
    obtain ⟨t, m', ht, hm', hd'⟩ := hcan
    have hnt : NoFail t := noFail_envSteps ht hn
    refine ⟨t, ht, .ok, (), { t with monitor := none }, ?_, hnt⟩
    simp [gadgetMachine, exec, hm', hd', always]
  | lockSetCurrentFunction f cb => exact ⟨s, .refl, .ok, (), _, rfl, by simp [NoFail]⟩
  | writeString content path =>
    refine ⟨s, .refl, .ok, true, _, rfl, ?_⟩
    unfold NoFail at hn ⊢
    rw [write_trace]
    simpa using hn
  | opendir =>
    refine ⟨s, .refl, .listing (s.links.map Link.name), some (s.links.map Link.name), s.log (.listed (s.links.map Link.name)), ?_,
      noFail_log hn (by simp)⟩
    have hperm : (s.links.map Link.name).isPerm (s.links.map Link.name) = true := List.isPerm_iff.mpr (List.Perm.refl _)
    simp [gadgetMachine, exec, hperm]
  | symlink function index => exact ⟨s, .refl, .fail, false, _, rfl, noFail_log hn (by simp)⟩
  | writeEventFd flag =>
    refine ⟨s, .refl, .ok, true, _, rfl, ?_⟩
    exact noFail_log (s := { s with eventCount := s.eventCount + flag }) hn (by simp)
  | spawn => exact ⟨s, .refl, .ok, (), _, rfl, noFail_log (s := { s with monitor := some Monitor.init }) hn (by simp)⟩
  | getProperty key => exact ⟨s, .refl, .ok, _, _, rfl, noFail_log hn (by simp)⟩
  | setApplied value =>
    refine ⟨s, .refl, .ok, (), _, rfl, ?_⟩
    exact noFail_log (s := { s with mem := { s.mem with mCurrentUsbFunctionsApplied := value } }) hn (by simp)
  | setCurrentUsbFunctionsCb f status => exact ⟨s, .refl, .ok, (), _, rfl, noFail_log hn (by simp)⟩
  | lock =>
    refine ⟨s, .refl, .ok, (), { s with lockHeld := true }, ?_, hn⟩
    simp [gadgetMachine, exec, hpre.1, always]
  | cvAcquire =>
    -- the wait may time out
    refine ⟨s, .refl, .fail, (), { s with lockHeld := true }, ?_, hn⟩
    simp [gadgetMachine, exec, hpre.1]
  | _ => exact ⟨s, .refl, .ok, _, _, rfl, hn⟩

/-- Where no write of the stop flag has failed, the call can be brought to its end. -/
theorem can_complete {s : State} {c : Service} (hs : Fresh s) (h : Served s c) (hn : NoFail c.state) :
    ∃ c', Reaches c c' ∧ c'.thread = none := by
  obtain ⟨t, ht, -, -⟩ := Machine.reaches_idle (I := Served s) (G := NoFail)
    (fun a d d' hd hstep => hd.trans (Machine.Reaches.step hstep))
    (fun t q o k hd hg => can_go_on ((service_ok (.inl hs.uncalled) hd).pre_of_op rfl) hg) h hn
  exact ⟨_, ht, rfl⟩

end UsbCallbackAux

open UsbCallbackAux in
/-- At every moment of every call with a callback, the callback contract holds if and only if the write of the stop flag has not
failed in this call. -/
theorem callback_contract_iff {s : State} {c : Service} {f : UInt64} {outcome : Option Status} (hs : Fresh s)
    (h : Reaches ⟨s, none⟩ c) (hc : serving c = some (.setCurrentUsbFunctions f true, outcome)) :
    CallbackContract f c ↔ .signalled false ∉ c.state.trace := by
  have hok := service_ok (.inl hs.uncalled) h
  constructor
  · intro hcon hf
    obtain ⟨c', hr, hnone⟩ := hcon.completes
    obtain ⟨q, k, ht⟩ := stuck_forever hs h (fun hn => hn hf) hr
    rw [hnone] at ht
    cases ht
  · intro hn
    refine ⟨?_, ?_, can_complete hs h hn⟩
    · intro g status ha
      obtain ⟨q, k, ht⟩ := answering_cases ha
      obtain ⟨rfl, hans, -⟩ := hok.pre_of_op ht
      simp only [serving, ht] at hc
      cases hc
      exact ⟨rfl, hans⟩
    · intro q status hr
      have ht := serving_returned hr
      rw [hr] at hc
      cases hc
      obtain ⟨⟨v, calls, hcall, hans⟩, -⟩ := hok.post_of_ret ht
      obtain ⟨answer, rfl⟩ := hans
      exact ⟨answer, hcall.calls, hcall.safe⟩

/-- ADB is set up, and the next call for ADB cannot write the stop flag. -/
def stuckRun : Run :=
  tearDownBare GadgetFunction.adb ++ succeed 26 ++ [.finish, .request (.setCurrentUsbFunctions GadgetFunction.adb true)] ++
    succeed 8 ++ [.act (.listing [functionLink 0])] ++ succeed 3 ++ [.act .fail]

/-- A call that cannot write the stop flag waits for its monitor, never returns and never invokes its callback. -/
theorem stuck_call_unanswered :
    ∃ s c, Fresh s ∧ Reaches ⟨s, none⟩ c ∧ serving c = some (.setCurrentUsbFunctions GadgetFunction.adb true, none) ∧
      ¬CallbackContract GadgetFunction.adb c ∧ ∀ c', Reaches c c' → answering c' = none ∧ c'.thread ≠ none := by
  obtain ⟨c, hc, ht⟩ := reaches_of_endsIn gadgetMachine freshDevice stuckRun
    (fun c => serving c = some (.setCurrentUsbFunctions GadgetFunction.adb true, none) &&
      decide (.signalled false ∈ c.state.trace)) (by decide)
  simp only [Bool.and_eq_true, decide_eq_true_eq] at ht
  have hstuck : ∀ c', Reaches c c' → ∃ q k, c'.thread = some (q, .op .join k) := fun c' hr =>
    UsbCallbackAux.stuck_forever freshDevice_fresh hc (fun hn => hn ht.2) hr
  refine ⟨freshDevice, c, freshDevice_fresh, hc, ht.1, ?_, ?_⟩
  · intro hcon
    obtain ⟨c', hr, hnone⟩ := hcon.completes
    obtain ⟨q, k, hj⟩ := hstuck c' hr
    rw [hnone] at hj
    cases hj
  · intro c' hr
    obtain ⟨q, k, hj⟩ := hstuck c' hr
    exact ⟨by simp [answering, hj], by simp [hj]⟩

/-- The rule at a run: a call for RNDIS that is about to answer its caller keeps the contract. -/
theorem callback_contract_rndis :
    ∃ c : Service, answering c = some (GadgetFunction.rndis, .success) ∧ CallbackContract GadgetFunction.rndis c := by
  obtain ⟨c, hc, ht⟩ := reaches_of_endsIn gadgetMachine freshDevice
    (.request (.setCurrentUsbFunctions GadgetFunction.rndis true) :: succeed 8 ++ [.act (.listing [])] ++ succeed 20)
    (fun c => answering c = some (GadgetFunction.rndis, .success) &&
      (serving c = some (.setCurrentUsbFunctions GadgetFunction.rndis true, none) &&
      decide (.signalled false ∉ c.state.trace))) (by decide)
  simp only [Bool.and_eq_true, decide_eq_true_eq] at ht
  exact ⟨c, ht.1, (callback_contract_iff freshDevice_fresh hc ht.2.1).mpr ht.2.2⟩

end Pixel845.Usb
