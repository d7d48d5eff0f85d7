import Pixel845.Lemmas.UsbTearDown

/-!
# Choosing the identity

`getVendorFunctions` returns what the properties it has read determine, and nothing else unless another process changes one
while it reads (`getVendorFunctions_meets`); `validateAndSetVidPid` writes the identifiers chosen for that string, or fails.
-/

namespace Pixel845.Usb

variable {q : Req} {f : UInt64} {cb : Bool} {v : CStr} {lock : Bool}

/-! ## Reading the properties -/

/-- A property that is read is what was last read. -/
theorem lastRead_got (tr : List Event) (key : PropKey) (value : CStr) (k : PropKey) :
    lastRead (tr ++ [.got key value]) k = if key = k then value else lastRead tr k := by
  unfold lastRead
  rw [List.filterMap_append]
  by_cases hk : key = k
  · simp [Event.read?, hk]
  · simp [Event.read?, hk]

/-- What the last reads returned is what the properties are, unless another process has changed one. -/
def Reads (r : List (PropKey × CStr)) (s : State) : Prop :=
  ∀ x ∈ r, lastRead s.trace x.1 = x.2 ∧ (.propChanged ∈ s.trace ∨ s.props x.1 = x.2)

/-- The environment reads no properties for the call. -/
theorem lastRead_env {s s' : State} (hg : EnvGrows s.trace s'.trace) : lastRead s'.trace = lastRead s.trace := by
  obtain ⟨evs, ht, he⟩ := hg
  rw [ht, lastRead_append (fun e hm => neutral_of_isEnv (he e hm))]

/-- A change of a property stays in the trace. -/
theorem propChanged_env {s s' : State} (hg : EnvGrows s.trace s'.trace) (h : .propChanged ∈ s.trace) :
    .propChanged ∈ s'.trace := by
  obtain ⟨evs, ht, -⟩ := hg
  rw [ht]
  exact List.mem_append_left _ h

theorem Reads.stable (r : List (PropKey × CStr)) : gadgetMachine.Stable (Reads r) := by
  intro e s s' h he x hx
  have hg := (envStep_frame he).trace
  obtain ⟨h1, h2⟩ := h x hx
  refine ⟨by rw [lastRead_env hg]; exact h1, ?_⟩
  rcases h2 with h2 | h2
  · exact .inl (propChanged_env hg h2)
  · rcases envStep_props he with hp | hp
    · exact .inr (by rw [hp]; exact h2)
    · exact .inl hp

/-- The vendor string `w` is what the last reads determine, and what the properties determined at the start unless another process
has changed one since. -/
def Vendor (v w : CStr) (s : State) : Prop := vendorRead s.trace = w ∧ (.propChanged ∈ s.trace ∨ w = v)

theorem Vendor.stable (w : CStr) : gadgetMachine.Stable (Vendor v w) := by
  intro e s s' h he
  have hg := (envStep_frame he).trace
  refine ⟨?_, h.2.imp_left (propChanged_env hg)⟩
  rw [vendorRead, lastRead_env hg]
  exact h.1

/-- What may be said of a call around its reads of the properties. -/
structure Readable (f : UInt64) (cb : Bool) (v : CStr) (lock : Bool) (P : State → Prop) : Prop where
  stable : gadgetMachine.Stable P
  inCall : ∀ s, P s → InCall f cb v lock [] s
  read : ∀ s key, P s → P (s.log (.got key (s.props key)))
  set : ∀ s props, P s → (.propChanged ∈ s.trace ∨ vendorOf props = v) → P { s with props := props }

/-- Reading a property adds it to what was read. -/
theorem Readable.getProperty {P : State → Prop} (hP : Readable f cb v lock P) (r : List (PropKey × CStr)) (key : PropKey)
    (hk : ∀ x ∈ r, key ≠ x.1) :
    UsbMeets q (fun s => P s ∧ Reads r s) (perform (.getProperty key)) (fun x s => P s ∧ Reads ((key, x) :: r) s) := by
  refine Machine.Meets.call (hP.stable.and (Reads.stable r)) (fun s h => (hP.inCall s h.1).noFail)
    (fun x => hP.stable.and (Reads.stable _)) (fun ch s x s' h hx => ?_)
  cases ch with
  | ok =>
    cases hx
    refine ⟨hP.read s key h.1, ?_⟩
    intro y hy
    rcases List.mem_cons.mp hy with rfl | hy
    · exact ⟨by simp [State.log, lastRead_got], .inr rfl⟩
    · obtain ⟨h1, h2⟩ := h.2 y hy
      exact ⟨by simp only [State.log, lastRead_got, if_neg (hk y hy)]; exact h1, h2.imp_left (List.mem_append_left _)⟩
  | fail => cases hx
  | listing names => cases hx

/-- When the last reads determine the vendor string, so do the current properties unless another process has changed one. -/
theorem Reads.vendor {s : State} {w : CStr} {calls : List (UInt64 × Status)} (h : InCall f cb v lock calls s)
    (hr : vendorRead s.trace = w) (hp : .propChanged ∈ s.trace ∨ vendorOf s.props = w) : Vendor v w s := by
  refine ⟨hr, ?_⟩
  rcases hp with hp | hp
  · exact .inl hp
  · exact h.props.imp_right (fun hv => hp.symm.trans hv)

/-- Either another process has changed a property, or each property that was read still is what was read. -/
theorem Reads.still {r : List (PropKey × CStr)} {s : State} (h : Reads r s) :
    .propChanged ∈ s.trace ∨ ∀ x ∈ r, s.props x.1 = x.2 := by
  by_cases hp : .propChanged ∈ s.trace
  · exact .inl hp
  · exact .inr (fun x hx => (h x hx).2.resolve_left hp)

/-- The vendor string that is returned is the one the reads determine. -/
theorem getVendorFunctions_meets {P : State → Prop} (hP : Readable f cb v lock P) :
    UsbMeets q P getVendorFunctions (fun w s => P s ∧ Vendor v w s) := by
  have hret : ∀ (r : List (PropKey × CStr)) (w : CStr),
      (∀ p : PropKey → CStr, (∀ x ∈ r, p x.1 = x.2) → vendorOf p = w) →
      UsbMeets q (fun s => P s ∧ Reads r s) (pure w) (fun w s => P s ∧ Vendor v w s) := by
    intro r w hw
    refine Machine.Meets.ret (hP.stable.and (Reads.stable r)) (fun s h => ⟨h.1, ?_⟩)
    refine Reads.vendor (hP.inCall s h.1) (hw _ (fun x hx => (h.2 x hx).1)) ?_
    exact h.2.still.imp_right (fun hs => hw _ hs)
  refine Machine.Meets.mono (P := fun s => P s ∧ Reads [] s) ?_ (fun s h => ⟨h, by simp [Reads]⟩) (fun _ _ h => h)
  refine Machine.Meets.bind (hP.getProperty [] .buildType (by simp)) (fun buildType => ?_)
  by_cases hb : buildType = "user".toList
  · rw [if_pos hb]
    refine hret _ _ (fun p hp => ?_)
    simp only [List.mem_cons, List.not_mem_nil, or_false, forall_eq] at hp
    rw [vendorOf, if_pos (hp.trans hb)]
  rw [if_neg hb]
  refine Machine.Meets.bind (hP.getProperty _ .bootMode (by simp)) (fun bootMode => ?_)
  refine Machine.Meets.bind (hP.getProperty _ .persistVendorConfig (by simp)) (fun persistVendorFunctions => ?_)
  refine Machine.Meets.bind (hP.getProperty _ .vendorConfig (by simp)) (fun vendorFunctions => ?_)
  by_cases hv : vendorFunctions = []
  · rw [if_neg (by simp [hv])]
    by_cases hu : bootMode = "usbradio".toList
    · rw [if_pos hu]
      -- the property the service sets itself is the one that decides from now on
      have hw : ∀ p : PropKey → CStr, (∀ x ∈ [(PropKey.vendorConfig, vendorFunctions),
          (.persistVendorConfig, persistVendorFunctions), (.bootMode, bootMode), (.buildType, buildType)], p x.1 = x.2) →
          vendorOf p = (if persistVendorFunctions ≠ [] then persistVendorFunctions else "diag".toList) := by
        intro p hp
        simp only [List.forall_mem_cons] at hp
        obtain ⟨h1, h2, h3, h4, -⟩ := hp
        rw [vendorOf, h4, if_neg hb, h1, if_neg (by simp [hv]), h3, if_pos hu, h2]
      have hne : (if persistVendorFunctions ≠ [] then persistVendorFunctions else "diag".toList) ≠ [] := by
        by_cases hpv : persistVendorFunctions = []
        · simp [hpv]
        · rw [if_pos hpv]
          exact hpv
      refine Machine.Meets.bind (R := fun _ s => P s ∧ Vendor v
        (if persistVendorFunctions ≠ [] then persistVendorFunctions else "diag".toList) s) ?_ (fun _ => ?_)
      · refine Machine.Meets.call (hP.stable.and (Reads.stable _)) (fun s h => (hP.inCall s h.1).noFail)
          (fun _ => hP.stable.and (Vendor.stable _)) (fun ch s x s' h hx => ?_)
        have hvend := Reads.vendor (hP.inCall s h.1) (hw _ (fun x hx => (h.2 x hx).1)) (h.2.still.imp_right (hw _))
        cases ch with
        | ok =>
          cases hx
          refine ⟨hP.set s _ h.1 ?_, hvend⟩
          rcases h.2.still with hp | hp
          · exact .inl hp
          · refine hvend.2.imp_right (fun hwv => ?_)
            have h4 := hp (.buildType, buildType) (by simp)
            simp only at h4
            rw [← hwv]
            simp only [vendorOf, reduceCtorEq, if_false, h4, if_neg hb, if_pos, hne, ne_eq, not_false_eq_true]
        | fail =>
          cases hx
          exact ⟨h.1, hvend⟩
        | listing names => cases hx
      · exact Machine.Meets.ret (hP.stable.and (Vendor.stable _)) (fun s h => h)
    · rw [if_neg hu]
      refine hret _ _ (fun p hp => ?_)
      simp only [List.forall_mem_cons] at hp
      obtain ⟨h1, -, h3, h4, -⟩ := hp
      rw [vendorOf, h4, if_neg hb, h1, if_neg (by simp [hv]), h3, if_neg hu]
  · rw [if_pos hv]
    refine hret _ _ (fun p hp => ?_)
    simp only [List.forall_mem_cons] at hp
    obtain ⟨h1, -, -, h4, -⟩ := hp
    rw [vendorOf, h4, if_neg hb, h1, if_pos hv]

/-! ## Writing the identifiers -/

/-- Nothing of an earlier call is left, the call has written these identifiers, and `known` was found out about the vendor string,
which holds unless another process has changed a property. -/
structure Ready (f : UInt64) (cb : Bool) (v : CStr) (known : Prop) (ids : List (Path × Content × Bool)) (s : State) : Prop
    extends InCall f cb v false [] s where
  gone : s.monitor = none
  notStarted : .started ∉ s.trace
  ids : s.trace.filterMap Event.idWrite? = ids
  linked : s.trace.filterMap Event.link? = []
  noLinks : s.functionLinks = []
  noEndpoints : s.mem.mEndpointList = []
  found : .propChanged ∈ s.trace ∨ known

/-- A bare call is ready, with nothing written yet. -/
theorem Bare.ready {s : State} (h : Bare f cb v s) : Ready f cb v True [] s :=
  ⟨h.inCall, h.gone, h.notStarted, h.ids, h.linked, h.noLinks, h.noEndpoints, .inr trivial⟩

/-- The environment adds nothing to what is selected from the main thread. -/
theorem filterMap_env {β : Type} {sel : Event → Option β} (hsel : ∀ e : Event, e.isEnv = true → sel e = none) {s s' : State}
    (hg : EnvGrows s.trace s'.trace) : s'.trace.filterMap sel = s.trace.filterMap sel := by
  obtain ⟨evs, ht, he⟩ := hg
  rw [ht, filterMap_append_none _ _ _ (fun e hm => hsel e (he e hm))]

/-- The environment starts no monitor. -/
theorem started_env {s s' : State} (hg : EnvGrows s.trace s'.trace) : .started ∈ s'.trace ↔ .started ∈ s.trace := by
  obtain ⟨evs, ht, he⟩ := hg
  rw [ht, started_mem_env he]

theorem Ready.stable (known : Prop) (ids : List (Path × Content × Bool)) : gadgetMachine.Stable (Ready f cb v known ids) := by
  intro e s s' h he
  have hfr := envStep_frame he
  refine ⟨h.toInCall.env he, (envStep_alone he h.gone).2.2.2.1, ?_, ?_, ?_, by rw [functionLinks_env he]; exact h.noLinks,
    by rw [hfr.endpoints]; exact h.noEndpoints, h.found.imp_left (propChanged_env hfr.trace)⟩
  · rw [started_env hfr.trace]
    exact h.notStarted
  · rw [filterMap_env (fun e he => (neutral_of_isEnv he).1) hfr.trace]
    exact h.ids
  · rw [filterMap_env (fun e he => (neutral_of_isEnv he).2.1) hfr.trace]
    exact h.linked

/-- In a ready call properties can be read. -/
theorem Ready.readable (known : Prop) (ids : List (Path × Content × Bool)) : Readable f cb v false (Ready f cb v known ids) := by
  refine ⟨Ready.stable known ids, fun s h => h.toInCall, ?_, ?_⟩
  · intro s key h
    have hs : AloneStep s (s.log (.got key (s.props key))) [.got key (s.props key)] :=
      ⟨rfl, rfl, h.gone, rfl, fun e he => List.mem_singleton.mp he ▸ plain_got key _⟩
    refine ⟨h.toInCall.alone h.notStarted hs h.gone rfl h.lock h.props, h.gone, hs.notStarted h.notStarted, ?_, ?_, h.noLinks,
      h.noEndpoints, h.found.imp_left (List.mem_append_left _)⟩
    · rw [hs.trace, filterMap_append_none _ _ _ (by simp [Event.idWrite?])]
      exact h.ids
    · rw [hs.trace, filterMap_append_none _ _ _ (by simp [Event.link?])]
      exact h.linked
  · intro s props h hp
    exact ⟨h.toInCall.alone h.notStarted (.silent rfl rfl h.gone rfl) h.gone rfl h.lock hp, h.gone, h.notStarted, h.ids,
      h.linked, h.noLinks, h.noEndpoints, h.found⟩

/-- The write of an identifier. -/
theorem Ready.writeId (known : Prop) (ids : List (Path × Content × Bool)) (n : Nat) {path : Path}
    (hp : path = .vendorId ∨ path = .productId) :
    UsbMeets q (Ready f cb v known ids) (perform (.writeString (.hex n) path))
      (fun ok s => Ready f cb v known (ids ++ [(path, .hex n, ok)]) s) := by
  refine Machine.Meets.call (Ready.stable known ids) (fun s h => ?_) (fun ok => Ready.stable known _) (fun ch s ok s' h hx => ?_)
  · rcases hp with rfl | rfl
    · exact h.noFail
    · exact h.noFail
  rw [writeString_eq hx]
  have hs : AloneStep s (s.write .main (.hex n) path ok) [.wrote .main (.hex n) path ok] :=
    ⟨by simp, by simp, by simp [h.gone], by simp, fun e he => List.mem_singleton.mp he ▸ plain_wrote _ _ _⟩
  refine ⟨h.toInCall.alone h.notStarted hs h.gone (by simp) (by simp [h.lock]) (by simp [h.props]), by simp [h.gone],
    hs.notStarted h.notStarted, ?_, ?_, by simp [State.functionLinks, ← h.noLinks], by simp [h.noEndpoints],
    by rw [hs.trace]; exact h.found.imp_left (List.mem_append_left _)⟩
  · rw [hs.trace, List.filterMap_append, h.ids]
    rcases hp with rfl | rfl <;> rfl
  · rw [hs.trace, filterMap_append_none _ _ _ (by simp [Event.link?])]
    exact h.linked

/-- The writes of the identifiers that were chosen for a mask, by a vendor string that is the one at the start unless another
process has changed a property. -/
def Identity (f : UInt64) (v : CStr) (tr : List Event) : Prop :=
  ∃ w vid pid, chooseVidPid f w = some (vid, pid) ∧ (.propChanged ∈ tr ∨ w = v) ∧
    tr.filterMap Event.idWrite? = [(.vendorId, .hex vid, true), (.productId, .hex pid, true)]

/-- Both identifiers are written, or the call fails. -/
theorem setVidPid_meets (known : Prop) (vid pid : Nat) :
    UsbMeets q (Ready f cb v known []) (setVidPid vid pid)
      (fun status s => if status = .success then
        Ready f cb v known [(.vendorId, .hex vid, true), (.productId, .hex pid, true)] s else InCall f cb v false [] s) := by
  refine Machine.Meets.bind (Ready.writeId known [] vid (.inl rfl)) (fun vidWritten => ?_)
  cases vidWritten
  · exact Machine.Meets.ret (Ready.stable known _) (fun s h => h.toInCall)
  refine Machine.Meets.bind (Ready.writeId known _ pid (.inr rfl)) (fun pidWritten => ?_)
  cases pidWritten
  · exact Machine.Meets.ret (Ready.stable known _) (fun s h => h.toInCall)
  · exact Machine.Meets.ret (Ready.stable known _) (fun s h => h)

/-- The identifiers are written and nothing is linked: the state in which `setupFunctions` is entered. -/
structure Entry (f : UInt64) (cb : Bool) (v : CStr) (lock : Bool) (s : State) : Prop extends InCall f cb v lock [] s where
  gone : s.monitor = none
  notStarted : .started ∉ s.trace
  identity : Identity f v s.trace
  linked : s.trace.filterMap Event.link? = []
  noLinks : s.functionLinks = []
  noEndpoints : s.mem.mEndpointList = []

/-- The identity outlasts events that do not write it. -/
theorem Identity.append {tr evs : List Event} (h : Identity f v tr) (he : ∀ e ∈ evs, e.idWrite? = none) :
    Identity f v (tr ++ evs) := by
  obtain ⟨w, vid, pid, h1, h2, h3⟩ := h
  exact ⟨w, vid, pid, h1, h2.imp_left (List.mem_append_left _), by rw [filterMap_append_none _ _ _ he]; exact h3⟩

theorem Entry.stable : gadgetMachine.Stable (Entry f cb v lock) := by
  intro e s s' h he
  have hfr := envStep_frame he
  refine ⟨h.toInCall.env he, (envStep_alone he h.gone).2.2.2.1, ?_, ?_, ?_, by rw [functionLinks_env he]; exact h.noLinks,
    by rw [hfr.endpoints]; exact h.noEndpoints⟩
  · rw [started_env hfr.trace]
    exact h.notStarted
  · obtain ⟨evs, ht, hev⟩ := hfr.trace
    rw [ht]
    exact h.identity.append (fun e hm => (neutral_of_isEnv (hev e hm)).1)
  · rw [filterMap_env (fun e he => (neutral_of_isEnv he).2.1) hfr.trace]
    exact h.linked

/-- With success, the identity is written and the functions can be linked. -/
theorem validateAndSetVidPid_meets :
    UsbMeets q (Bare f cb v) (validateAndSetVidPid f)
      (fun status s => if status = .success then Entry f cb v false s else InCall f cb v false [] s) := by
  refine Machine.Meets.bind (R := fun w s => Ready f cb v True [] s ∧ Vendor v w s) ?_ (fun w => ?_)
  · exact (getVendorFunctions_meets (Ready.readable True [])).mono (fun s h => h.ready) (fun _ _ h => h)
  · cases hc : chooseVidPid f w with
    | none => exact Machine.Meets.ret ((Ready.stable True []).and (Vendor.stable w)) (fun s h => h.1.toInCall)
    | some x =>
      obtain ⟨vid, pid⟩ := x
      have hset : UsbMeets q (Ready f cb v (w = v) []) (setVidPid vid pid) _ := setVidPid_meets (w = v) vid pid
      refine hset.mono (fun s h => ?_) (fun status s h => ?_)
      · exact { h.1 with found := h.2.2 }
      · by_cases hs : status = .success
        · rw [if_pos hs] at h ⊢
          exact ⟨h.toInCall, h.gone, h.notStarted, ⟨w, vid, pid, hc, h.found, h.ids⟩, h.linked, h.noLinks, h.noEndpoints⟩
        · rw [if_neg hs] at h ⊢
          exact h

end Pixel845.Usb
