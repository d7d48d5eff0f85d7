import Pixel845.Lemmas.RmnetCall
import Pixel845.Lemmas.RmnetLegacy
import Pixel845.Lemmas.RmnetReply
import Pixel845.Rmnet.Spec

/-!
# Codes that say what happened

A call returns one of four codes, and two of them come with an error code. The error codes of the library, the errors of the
system and those of the kernel meet in one `uint16_t`, and a failed receive is returned as an error code of the library.
`codes_documented_iff` says for which answers of the system and the kernel the codes are what the header of the library says.
-/

namespace Pixel845.Rmnet

/-- The return value is one of the four codes, and one that sends the caller to the error code comes with an error code. -/
def Documented (x : Outcome) : Prop :=
  (x.rc = rmnetctlSuccess ∨ x.rc = rmnetctlLibErr ∨ x.rc = rmnetctlKernelErr ∨ x.rc = rmnetctlInvalidArg) ∧
    (x.rc = rmnetctlLibErr ∨ x.rc = rmnetctlKernelErr → ∃ e, x.errorCode = some e ∧ e ≠ rmnetctlApiSuccess)

/-- The place of the error number in an acknowledgement. -/
def ackError : Load := ⟨16, 4⟩

/-- An answer that the codes of an RTM call can say: a receive succeeds, a failure has an error number, and the error number of an
acknowledgement is not one of the multiples of `2^16`, which `error_code` cannot hold. -/
def EventSayable (acked : Bool) : Prog.Event Op.Res → Prop
  | ⟨.ifNametoindex _, r⟩ => r.1 = 0 → r.2 ≠ 0
  | ⟨.malloc _, r⟩ => r ≠ .error 0
  | ⟨.peek, r⟩ => ∃ n, r = .ok n
  | ⟨.recv _, r⟩ => ∃ n, r = .ok n
  | ⟨.load l, v⟩ => acked → l = ackError → v = 0 ∨ ¬2 ^ 16 ∣ v
  | _ => True

/-- The call ends with an acknowledgement. -/
def RtmCall.acked : RtmCall → Bool
  | .getvnd _ _ => false
  | _ => true

/-- A response that the codes of a legacy call can say, among those of its type: the code of the kernel is not the one to which
`RMNETCTL_KERNEL_FIRST_ERR` adds up to nothing. -/
def ResponseSayable (type : MessageType) (bytes : List UInt8) : Prop :=
  messageType (responseIn bytes) = type.ctorIdx →
    ¬(crd (responseIn bytes) = rmnetNetlinkMsgReturncode ∧ returnCode (responseIn bytes) = 65521)

/-- The codes of a call can say all answers of the system and the kernel to its operations. -/
def Call.Sayable (t : Events) : Call → Prop
  | .rtm _ q => ∀ e ∈ t, EventSayable q.acked e
  | .legacy _ q => ∀ bytes ∈ received t, ResponseSayable q.type bytes

/-- What is read from the buffer lies in it. -/
def Buffered (t : Events) : Prop := ∃ m : Image, ∀ l v, ⟨.load l, v⟩ ∈ t → v = m.load l

namespace CodesAux

variable {acked : Bool} {prog receive : RmM Outcome} {t t' : Events} {x : Outcome}

/-! ### Outcomes -/

/-- Success and an invalid argument are documented. -/
theorem documented_ok (hx : x.rc = rmnetctlSuccess ∨ x.rc = rmnetctlInvalidArg) : Documented x := by
  have h1 : ¬(rmnetctlSuccess = rmnetctlLibErr ∨ rmnetctlSuccess = rmnetctlKernelErr) := by decide
  have h2 : ¬(rmnetctlInvalidArg = rmnetctlLibErr ∨ rmnetctlInvalidArg = rmnetctlKernelErr) := by decide
  rcases hx with hx | hx
  · exact ⟨.inl hx, fun h => absurd h (by rwa [hx])⟩
  · exact ⟨.inr (.inr (.inr hx)), fun h => absurd h (by rwa [hx])⟩

/-- An error is documented exactly when its error code is not zero. -/
theorem documented_err_iff {rc : Int} {e : Errno} {outs : List Output} (hrc : rc = rmnetctlLibErr ∨ rc = rmnetctlKernelErr) :
    Documented ⟨rc, some e, outs⟩ ↔ e ≠ rmnetctlApiSuccess := by
  have h4 : rc = rmnetctlSuccess ∨ rc = rmnetctlLibErr ∨ rc = rmnetctlKernelErr ∨ rc = rmnetctlInvalidArg := by tauto
  simp [Documented, h4, hrc]

/-- A failed receive is returned as an error code. -/
theorem not_documented_receive (e : Option Errno) (outs : List Output) :
    ¬Documented ⟨rmnetctlApiErrMessageReceive.toNat, e, outs⟩ := by
  have hne : ¬((rmnetctlApiErrMessageReceive.toNat : Int) = rmnetctlSuccess ∨ (rmnetctlApiErrMessageReceive.toNat : Int) =
      rmnetctlLibErr ∨ (rmnetctlApiErrMessageReceive.toNat : Int) = rmnetctlKernelErr ∨
      (rmnetctlApiErrMessageReceive.toNat : Int) = rmnetctlInvalidArg) := by decide
  exact fun h => hne h.1

/-! ### RTM calls -/

/-- The codes at the end of every execution are documented exactly when they can say all answers. -/
def Exact (acked : Bool) (prog : RmM Outcome) : Prop :=
  ∀ t x, prog.Exec t x → Buffered t → (Documented x ↔ ∀ e ∈ t, EventSayable acked e)

/-- An outcome that is documented is exact. -/
theorem exact_ret (hx : Documented x) : Exact acked (.ret x) := by
  rintro t y hy -
  cases hy
  simp [hx]

/-- Fewer events are buffered as well. -/
theorem buffered_mono (h : Buffered t) (hs : ∀ e ∈ t', e ∈ t) : Buffered t' := by
  obtain ⟨m, hm⟩ := h
  exact ⟨m, fun l v hv => hm l v (hs _ hv)⟩

/-- The rule for an operation: the call goes on after an answer that can be said, or it ends there. -/
theorem exact_op {o : Op} {k : o.Res → RmM Outcome}
    (hk : ∀ r, Buffered [⟨o, r⟩] → EventSayable acked ⟨o, r⟩ ∧ Exact acked (k r) ∨
      ∃ x, k r = .ret x ∧ (Documented x ↔ EventSayable acked ⟨o, r⟩)) :
    Exact acked (.op o k) := by
  intro t x hx hb
  cases hx with
  | @op _ r _ t _ hx =>
    rcases hk r (buffered_mono hb (by simp)) with ⟨hsay, hex⟩ | ⟨y, hy, hiff⟩
    · rw [hex t x hx (buffered_mono hb fun e he => .tail _ he)]
      simp [hsay]
    · rw [hy] at hx
      cases hx
      simp [hiff]

/-- The rule for an operation whose answer can always be said. -/
theorem exact_silent {o : Op} {k : o.Res → RmM Outcome} (ho : ∀ r, EventSayable acked ⟨o, r⟩) (hk : ∀ r, Exact acked (k r)) :
    Exact acked (.op o k) :=
  exact_op fun r _ => .inl ⟨ho r, hk r⟩

/-- When the code of an error is not taken for success. -/
theorem not_dvd_iff {v : Nat} (hv : v < 2 ^ 32) : (.ofNat (2 ^ 32 - v) : Errno) ≠ rmnetctlApiSuccess ↔ ¬2 ^ 16 ∣ v := by
  have h : (.ofNat (2 ^ 32 - v) : Errno) = rmnetctlApiSuccess ↔ (2 ^ 32 - v) % 2 ^ 16 = 0 := by
    rw [← UInt16.toNat_inj, UInt16.toNat_ofNat']
    rfl
  rw [ne_eq, h]
  omega

/-- Getting an acknowledgement is exact. -/
theorem rmnetGetAck_exact : Exact true rmnetGetAck := by
  refine exact_op ?_
  intro r _
  cases r with
  | error e =>
    refine .inr ⟨_, rfl, iff_of_false (not_documented_receive _ _) ?_⟩
    rintro ⟨n, hn⟩
    cases hn
  | ok n =>
    refine .inl ⟨⟨n, rfl⟩, exact_silent (fun r _ hl => absurd hl (by decide)) fun type => ?_⟩
    change Exact true (Prog.lift _ _ (if (type : Nat) = nlmsgError then _ else _))
    split
    · refine exact_op fun error hb => .inr ?_
      change ∃ x, Prog.lift _ _ (if (error : Nat) = 0 then _ else _) = _ ∧ _
      by_cases h0 : (error : Nat) = 0
      · rw [if_pos h0]
        exact ⟨_, rfl, iff_of_true (documented_ok (.inl rfl)) fun _ _ => .inl h0⟩
      · rw [if_neg h0]
        obtain ⟨m, hm⟩ := hb
        have hlt : (error : Nat) < 2 ^ 32 := by
          rw [hm ackError error (by simp [ackError])]
          have hlt := leNat_lt (m.read 16 4)
          rwa [Image.read_length] at hlt
        refine ⟨_, rfl, (documented_err_iff (.inr rfl)).trans ((not_dvd_iff hlt).trans ?_)⟩
        simp [EventSayable, ackError, h0]
    · exact exact_ret ((documented_err_iff (.inl rfl)).mpr (by decide))

/-- Every execution of a reader ends with documented codes. -/
def Ends (r : Reader Outcome) : Prop := ∀ t x, r.Exec t x → Documented x

theorem ends_ret (hx : Documented x) : Ends (.ret x) := by
  intro t y hy
  cases hy
  exact hx

theorem ends_bind {α : Type} {p : Reader α} {f : α → Reader Outcome} (hf : ∀ a, Ends (f a)) : Ends (p >>= f) := by
  intro t x hx
  obtain ⟨t₁, t₂, a, -, -, h2⟩ := Prog.exec_bind hx
  exact hf a t₂ x h2

/-- A reply without a link is an end. -/
theorem noLink_ends : Ends noLink := by
  have hdone : Documented { rc := rmnetctlKernelErr, errorCode := some rmnetctlApiErrRtaFailure } :=
    (documented_err_iff (.inr rfl)).mpr (by decide)
  exact ends_ret hdone

/-- Reading a link leads to an end. -/
theorem readLink_ends (o : GetvndOuts) : Ends (readLink o) := by
  have hsuccess : (rmnetctlApiSuccess.toNat : Int) = rmnetctlSuccess := by decide
  have hdone (outs : List Output) : Documented { rc := rmnetctlApiSuccess.toNat, outs := outs } := documented_ok (.inl hsuccess)
  rw [readLink_eq]
  refine ends_bind fun nlmsgLen => ends_bind fun found => ?_
  cases found with
  | none => exact noLink_ends
  | some linkinfo =>
    refine ends_bind fun linkinfoLen => ends_bind fun found => ?_
    cases found with
    | none => exact noLink_ends
    | some datainfo => exact ends_bind fun _ => ends_bind fun _ => ends_bind fun outs => ends_ret (hdone outs)

/-- Nothing that `rtrmnet_ctl_getvnd` reads is an error number. -/
theorem fromBuffer_exact {r : Reader Outcome} (hr : Ends r) : Exact false (fromBuffer r) := by
  induction r with
  | ret x => exact exact_ret (hr _ _ (.ret x))
  | op l k ih =>
    have ho (v : Nat) : EventSayable false ⟨.load l, v⟩ := fun h => absurd h (by decide)
    exact exact_silent ho fun v => ih v fun t x hx => hr _ _ (.op l v hx)

/-- Getting a link is exact. -/
theorem receiveLink_exact (o : GetvndOuts) : Exact false (receiveLink o) := by
  refine exact_op ?_
  intro r _
  cases r with
  | error e =>
    refine .inr ⟨_, rfl, iff_of_false (not_documented_receive _ _) ?_⟩
    rintro ⟨n, hn⟩
    cases hn
  | ok n =>
    refine .inl ⟨⟨n, rfl⟩, exact_op fun r _ => ?_⟩
    cases r with
    | error e => exact .inr ⟨_, rfl, (documented_err_iff (.inl rfl)).trans (by simp [EventSayable, rmnetctlApiSuccess])⟩
    | ok _ =>
      refine .inl ⟨by simp [EventSayable], exact_op fun r _ => ?_⟩
      cases r with
      | error e =>
        refine .inr ⟨_, rfl, iff_of_false (not_documented_receive _ _) ?_⟩
        rintro ⟨n, hn⟩
        cases hn
      | ok n => exact .inl ⟨⟨n, rfl⟩, fromBuffer_exact (readLink_ends o)⟩

/-- Sending a request leaves the rest exact. -/
theorem sendReq_exact (req : Req) (hr : Exact acked receive) : Exact acked (sendReq req receive) := by
  refine exact_silent (fun _ => trivial) fun r => ?_
  cases r with
  | error e => exact exact_ret ((documented_err_iff (.inl rfl)).mpr (by decide))
  | ok _ => exact hr

/-- Looking up names leaves the rest exact. -/
theorem withIndices_exact (names : List CString) {k : List UInt32 → RmM Outcome} (hk : ∀ is, Exact acked (k is)) :
    Exact acked (withIndices names k) := by
  induction names generalizing k with
  | nil => exact hk []
  | cons name names ih =>
    refine exact_op ?_
    intro r _
    change _ ∨ ∃ x, (if r.1 = 0 then _ else _ : RmM Outcome) = _ ∧ _
    by_cases h0 : r.1 = 0
    · refine .inr ⟨{ rc := rmnetctlKernelErr, errorCode := some r.2 }, if_pos h0, (documented_err_iff (.inr rfl)).trans ?_⟩
      simp [EventSayable, h0, rmnetctlApiSuccess]
    · refine .inl ⟨fun h => absurd h h0, ?_⟩
      change Exact acked (if r.1 = 0 then _ else _)
      rw [if_neg h0]
      exact ih fun is => hk _

/-- A call is exact if its receive is. -/
theorem rtmCall_exact (call : Option RtmRequest) (hr : ∀ r, call = some r → Exact acked r.receive) :
    Exact acked (rtmCall call) := by
  cases call with
  | none => exact exact_ret (documented_ok (.inr rfl))
  | some r =>
    refine exact_silent (fun _ => trivial) fun stack => exact_silent (fun _ => trivial) fun seq => ?_
    exact withIndices_exact _ fun is => sendReq_exact _ (hr r rfl)

/-- Every receive is exact. -/
theorem receive_exact (q : RtmCall) : Exact q.acked q.receive := by
  cases q with
  | getvnd v o => exact receiveLink_exact o
  | _ => exact rmnetGetAck_exact

/-! ### Legacy calls -/

variable {type : MessageType} {response : Image}

/-- A return code has two bytes. -/
theorem returnCode_lt (response : Image) : returnCode response < 2 ^ 16 := by
  have hlt := leNat_lt (response.read 6 2)
  rwa [Image.read_length] at hlt

/-- The codes that a call takes from a return code. -/
theorem setCodes_documented_iff (response : Image) (e : Errno) :
    Documented (rmnetctlSetCodes (returnCode response) e) ↔ returnCode response ≠ 65521 := by
  have hlt := returnCode_lt response
  unfold rmnetctlSetCodes
  by_cases h0 : returnCode response = rmnetConfigOk
  · rw [if_pos h0, h0]
    exact iff_of_true (documented_ok (.inl rfl)) (by decide)
  · rw [if_neg h0, documented_err_iff (.inr rfl), ne_eq, ← UInt16.toNat_inj, UInt16.toNat_add, UInt16.toNat_ofNat']
    have h15 : rmnetctlKernelFirstErr.toNat = 15 := rfl
    have hs : rmnetctlApiSuccess.toNat = 0 := rfl
    rw [h15, hs]
    simp only [rmnetConfigOk] at h0
    omega

/-- When the outcome of a return code is documented. -/
theorem codeOutcome_documented_iff (response : Image) :
    Documented (codeOutcome response) ↔
      ¬(crd response = rmnetNetlinkMsgReturncode ∧ returnCode response = 65521) := by
  unfold codeOutcome
  by_cases hc : crd response = rmnetNetlinkMsgReturncode
  · rw [if_neg (not_not.mpr hc), setCodes_documented_iff]
    simp [hc]
  · rw [if_pos hc]
    exact iff_of_true ((documented_err_iff (.inl rfl)).mpr (by decide)) fun h => hc h.1

/-- When the outcome of data is documented. -/
theorem dataOutcome_documented_iff {read : Image → Outcome} (hread : ∀ response, Documented (read response)) (response : Image) :
    Documented (dataOutcome read response) ↔
      ¬(crd response = rmnetNetlinkMsgReturncode ∧ returnCode response = 65521) := by
  have hne : rmnetNetlinkMsgReturncode ≠ rmnetNetlinkMsgReturndata := by decide
  unfold dataOutcome
  by_cases hd : crd response = rmnetNetlinkMsgReturndata
  · rw [if_neg (not_not.mpr hd)]
    exact iff_of_true (hread response) fun h => hne (h.1.symm.trans hd)
  · rw [if_pos hd]
    by_cases hc : crd response = rmnetNetlinkMsgReturncode
    · rw [if_pos hc, setCodes_documented_iff]
      simp [hc]
    · rw [if_neg hc]
      exact iff_of_true ((documented_err_iff (.inl rfl)).mpr (by decide)) fun h => hc h.1

/-- A name that is too long is documented. -/
theorem truncation_documented (outs : List Output) :
    Documented { rc := rmnetctlLibErr, errorCode := some rmnetctlApiErrStringTruncation, outs := outs } :=
  (documented_err_iff (.inl rfl)).mpr (by decide)

/-- Success is documented. -/
theorem success_documented (outs : List Output) : Documented (success outs) := documented_ok (.inl rfl)

/-- What a call makes of a response. -/
theorem outcome_documented_iff {p : Ptrs} {q : LegacyCall} {r : LegacyRequest} (hr : q.call p = some r) (response : Image)
    (behind : CString) :
    Documented (r.outcome response behind) ↔
      ¬(crd response = rmnetNetlinkMsgReturncode ∧ returnCode response = 65521) := by
  cases q with
  | setLogicalEpConfig epId operatingMode devName nextDev =>
    obtain ⟨s, hs, hr⟩ := Option.bind_eq_some_iff.mp hr
    obtain ⟨t, ht, hr⟩ := Option.bind_eq_some_iff.mp hr
    cases hr
    exact codeOutcome_documented_iff response
  | newVnd | newVndPrefix =>
    simp only [LegacyCall.call, rmnetNewVnd, rmnetNewVndPrefix] at hr
    split at hr
    · cases hr
      exact codeOutcome_documented_iff response
    · cases hr
  | newVndName =>
    simp only [LegacyCall.call, rmnetNewVndName] at hr
    split at hr
    · cases hr
      exact codeOutcome_documented_iff response
    · cases hr
  | addDelVndTcFlow =>
    simp only [LegacyCall.call, rmnetAddDelVndTcFlow] at hr
    split at hr
    · cases hr
      exact codeOutcome_documented_iff response
    · cases hr
  | getVndName id buf buflen =>
    simp only [LegacyCall.call, rmnetGetVndName] at hr
    split at hr
    · cases hr
      refine dataOutcome_documented_iff (fun response => ?_) response
      split
      · exact truncation_documented _
      · exact success_documented _
    · cases hr
  | getLogicalEpConfig epId devName operatingMode nextDev nextDevLen =>
    obtain ⟨s, hs, rfl⟩ := Option.map_eq_some_iff.mp hr
    refine dataOutcome_documented_iff (fun response => ?_) response
    change Documented (if _ then _ else _)
    split
    · exact truncation_documented _
    · exact success_documented _
  | getNetworkDeviceAssociated | getLinkEgressDataFormat | getLinkIngressDataFormatTailspace =>
    obtain ⟨s, hs, rfl⟩ := Option.map_eq_some_iff.mp hr
    exact dataOutcome_documented_iff (fun _ => success_documented _) response
  | _ =>
    obtain ⟨s, hs, rfl⟩ := Option.map_eq_some_iff.mp hr
    exact codeOutcome_documented_iff response

/-- The errors of a transaction are documented. -/
theorem transactErrors_documented {e : Errno} (he : e ∈ transactErrors) :
    Documented { rc := rmnetctlLibErr, errorCode := some e } := by
  refine (documented_err_iff (.inl rfl)).mpr ?_
  rintro rfl
  exact absurd he (by decide)

/-- A request has the type of its call. -/
theorem type_of_request {p : Ptrs} {q : LegacyCall} {r : LegacyRequest} {stack request : Image} (hc : q.call p = some r)
    (hr : r.request stack = .ok request) : messageType request = q.type.ctorIdx := by
  rw [request_eq hc] at hr
  exact messageType_stored hr

/-- A legacy call fails with an error code of the library, or with the one that its response gives. -/
theorem legacy_documented_iff {p : Ptrs} {q : LegacyCall} (hx : (legacyCall (q.call p)).Exec t x) :
    Documented x ↔ (Call.legacy p q).Sayable t := by
  have hends := legacy_ends hx
  generalize hrec : received t = bs at hends
  generalize sent t = ms at hends
  simp only [Call.Sayable, hrec]
  cases hends with
  | invalid hc => simpa using documented_ok (.inr rfl)
  | refused hc hr =>
    rw [request_eq hc, storePieces_eq] at hr
    split at hr
    · cases hr
    · cases hr
      simpa using truncation_documented []
  | failed hc hr hu hh ht =>
    cases ht with
    | unsent he => simpa using transactErrors_documented he
    | unanswered he => simpa using transactErrors_documented he
    | mistyped he htype =>
      refine iff_of_true (transactErrors_documented he) ?_
      intro b hb ht
      rw [List.mem_singleton.mp hb] at ht
      exact absurd (ht.trans (type_of_request hc hr).symm) htype
  | @answered r stack request seq pid bytes hc hr hu hh htype behind =>
    rw [outcome_documented_iff hc, List.forall_mem_singleton, ResponseSayable]
    have ht : messageType (responseIn bytes) = q.type.ctorIdx := htype.trans (type_of_request hc hr)
    exact (true_imp_iff.symm.trans (by rw [eq_true ht]))

/-- When the outcome of a call is documented. -/
theorem rtm_documented_iff {p : Ptrs} {q : RtmCall} (hx : (q.body p).Exec t x) (hb : Buffered t) :
    Documented x ↔ (Call.rtm p q).Sayable t := by
  rw [body_eq] at hx
  exact rtmCall_exact _ (fun r hr => receive_request hr ▸ receive_exact q) t x hx hb

end CodesAux

open CodesAux in
/-- Whatever the system and the kernel answer: a call ends with the codes that the header of the library promises exactly when its
codes can say all answers. -/
theorem codes_documented_iff (q : Call) (t : Events) (x : Outcome) (hx : q.body.Exec t x) (hb : Buffered t) :
    Documented x ↔ q.Sayable t := by
  cases q with
  | rtm p q => exact rtm_documented_iff hx hb
  | legacy p q => exact legacy_documented_iff hx

/-! ## A link that is deleted -/

/-- A call that deletes a link. -/
def deletion : Call := .rtm ⟨true, true⟩ (.delvnd (some rmnetData0.name))

/-- The execution of a call with these answers. -/
def Call.events (q : Call) (h : (o : Op) → o.Res) : Events := (q.body.trace h).map fun o => ⟨o, h o⟩

/-- Answers that read from one memory make a buffered execution. -/
theorem Call.buffered (q : Call) {h : (o : Op) → o.Res} {m : Image} (hm : ∀ l, h (.load l) = m.load l) :
    Buffered (q.events h) := by
  refine ⟨m, ?_⟩
  intro l v hl
  obtain ⟨o, -, ho⟩ := List.mem_map.mp hl
  cases ho
  exact hm l

/-- An acknowledgement with an error number. -/
def errorAck (error : Nat) : List UInt8 := leBytes 4 36 ++ leBytes 2 nlmsgError ++ List.replicate 10 0 ++ leBytes 4 error ++
      List.replicate 16 0

/-- The rule at a deletion that the kernel refuses with `-EPERM`. -/
theorem codes_documented_deletion :
    Documented (deletion.body.run (surroundings (errorAck (2 ^ 32 - 1))).answer) ↔
      deletion.Sayable (deletion.events (surroundings (errorAck (2 ^ 32 - 1))).answer) :=
  codes_documented_iff _ _ _ (Prog.exec_run _ _) (deletion.buffered fun _ => rfl)

/-- A kernel that answers with `-65536` is reported as an error with the error code 0. -/
example : deletion.body.run (surroundings (errorAck (2 ^ 32 - 2 ^ 16))).answer =
    { rc := rmnetctlKernelErr, errorCode := some 0 } := by
  decide

/-- The answers when the acknowledgement cannot be received. -/
def recvFails : (o : Op) → o.Res
  | .recv _ => .error 4
  | .load l => Image.zero.load l
  | o => (surroundings []).answer o

/-- A deletion whose acknowledgement is interrupted returns `RMNETCTL_API_ERR_MESSAGE_RECEIVE`, which is none of the
four codes. -/
theorem not_codes_documented :
    deletion.body.run recvFails = { rc := 4, errorCode := some 4 } ∧
      ¬∀ (q : Call) (t : Events) (x : Outcome), q.body.Exec t x → Buffered t → Documented x := by
  have hrun : deletion.body.run recvFails = { rc := rmnetctlApiErrMessageReceive.toNat, errorCode := some 4 } := by decide
  refine ⟨hrun, ?_⟩
  intro hall
  have hx := hall deletion _ _ (Prog.exec_run recvFails _) (deletion.buffered fun _ => rfl)
  rw [hrun] at hx
  exact CodesAux.not_documented_receive _ _ hx

end Pixel845.Rmnet
