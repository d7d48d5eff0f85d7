import Pixel845.Lemmas.RmnetLegacy
import Pixel845.Rmnet.Spec

/-!
# A getter that succeeds has answered

The legacy getters test the kind of a reply twice: a reply without data may still hold a return code, and a return code of zero
makes the getter succeed without an answer. Two of them copy a name to the caller before they check its length, and read on behind
a name that does not end in the reply. `getter_answers_iff` says that these are the only replies for which a getter does not keep
its word: it succeeds exactly with an answer, and changes nothing else.
-/

namespace Pixel845.Rmnet

/-- A legacy getter with its arguments. Of an output argument it is given whether it is not `NULL`. -/
inductive Getter where
  | networkDeviceAssociated (devName : Option CString) (registerStatus : Bool)
  | linkEgressDataFormat (devName : Option CString) (egressFlags aggSize aggCount : Bool)
  | linkIngressDataFormatTailspace (devName : Option CString) (ingressFlags tailSpacing : Bool)
  | logicalEpConfig (epId : Int32) (devName : Option CString) (operatingMode nextDev : Bool) (nextDevLen : UInt32)
  | vndName (id : UInt32) (buf : Bool) (buflen : UInt32)

/-- A getter as a legacy call. -/
def Getter.toCall : Getter → LegacyCall
  | .networkDeviceAssociated devName registerStatus => .getNetworkDeviceAssociated devName registerStatus
  | .linkEgressDataFormat devName egressFlags aggSize aggCount => .getLinkEgressDataFormat devName egressFlags aggSize aggCount
  | .linkIngressDataFormatTailspace devName ingressFlags tailSpacing =>
    .getLinkIngressDataFormatTailspace devName ingressFlags tailSpacing
  | .logicalEpConfig epId devName operatingMode nextDev nextDevLen =>
    .getLogicalEpConfig epId devName operatingMode nextDev nextDevLen
  | .vndName id buf buflen => .getVndName id buf buflen

/-- The function of a getter. -/
def Getter.call (p : Ptrs) (g : Getter) : Option LegacyRequest := g.toCall.call p

/-- The output arguments that are not `NULL` have been assigned from a reply: names are those that end in it. -/
def Getter.Assigned (response : Image) (outs : List Output) : Getter → Prop
  | .networkDeviceAssociated _ _ => outs = [.registerStatus (returnCode response)]
  | .linkEgressDataFormat _ _ _ _ =>
    outs = [.egressFlags (response.nat 24 4), .aggSize (response.nat 28 2), .aggCount (response.nat 30 2)]
  | .linkIngressDataFormatTailspace _ ingressFlags tailSpacing =>
    outs = (if ingressFlags then [.ingressFlags (response.nat 24 4)] else []) ++
      if tailSpacing then [.tailSpacing (response.nat 32 1)] else []
  | .logicalEpConfig _ _ _ _ nextDevLen => ∃ s, nameIn response 29 = some s ∧
      outs = [.nextDev (strlcpyInto (min rmnetMaxStrLen nextDevLen.toNat) s), .operatingMode (response.nat 28 1)]
  | .vndName _ _ _ => ∃ s, nameIn response 12 = some s ∧ outs = [.buf s]

/-- The name in a reply ends there, and passes the check of its length. -/
def Getter.NameFits (response : Image) : Getter → Prop
  | .logicalEpConfig _ _ _ _ _ => ∃ s, nameIn response 29 = some s ∧ s.length ≤ rmnetMaxStrLen
  | .vndName _ _ buflen => ∃ s, nameIn response 12 = some s ∧ s.length < buflen.toNat
  | _ => True

/-- A getter keeps its word: if it succeeds, the reply that was received is data, every output argument was assigned from it and
the error code says success; if not, no output argument was changed. -/
structure Getter.Answers (g : Getter) (t : Events) (x : Outcome) : Prop where
  success : x.rc = rmnetctlSuccess → ∃ bytes, received t = [bytes] ∧ crd (responseIn bytes) = rmnetNetlinkMsgReturndata ∧
    g.Assigned (responseIn bytes) x.outs ∧ x.errorCode = some rmnetctlApiSuccess
  failure : x.rc ≠ rmnetctlSuccess → x.outs = []

/-- A reply of the type of the request that a getter can answer from or refuse: it is no return code of zero, and a name in it
ends and is short enough. -/
structure Getter.Clear (g : Getter) (response : Image) : Prop where
  code : ¬(crd response = rmnetNetlinkMsgReturncode ∧ returnCode response = rmnetConfigOk)
  name : crd response = rmnetNetlinkMsgReturndata → g.NameFits response

namespace GettersAux

variable {p : Ptrs} {g : Getter} {r : LegacyRequest} {response : Image} {behind : CString} {t : Events} {x : Outcome}

theorem libErr_ne : rmnetctlLibErr ≠ rmnetctlSuccess := by decide

theorem kernelErr_ne : rmnetctlKernelErr ≠ rmnetctlSuccess := by decide

/-- What a getter makes of a response with data. -/
def Getter.read (g : Getter) (behind : CString) (response : Image) : Outcome :=
  match g with
  | .networkDeviceAssociated _ _ => success [.registerStatus (returnCode response)]
  | .linkEgressDataFormat _ _ _ _ =>
    success [.egressFlags (response.nat 24 4), .aggSize (response.nat 28 2), .aggCount (response.nat 30 2)]
  | .linkIngressDataFormatTailspace _ ingressFlags tailSpacing =>
    success ((if ingressFlags then [.ingressFlags (response.nat 24 4)] else []) ++
      if tailSpacing then [.tailSpacing (response.nat 32 1)] else [])
  | .logicalEpConfig _ _ _ _ nextDevLen =>
    let copied := Output.nextDev (strlcpyInto (min rmnetMaxStrLen nextDevLen.toNat) (stringAt response behind 29))
    if rmnetMaxStrLen < (stringAt response behind 29).length then
      { rc := rmnetctlLibErr, errorCode := some rmnetctlApiErrStringTruncation, outs := [copied] }
    else success [copied, .operatingMode (response.nat 28 1)]
  | .vndName _ _ buflen =>
    let copied := Output.buf (strlcpyInto buflen.toNat (stringAt response behind 12))
    if buflen.toNat ≤ (stringAt response behind 12).length then
      { rc := rmnetctlLibErr, errorCode := some rmnetctlApiErrStringTruncation, outs := [copied] }
    else success [copied]

/-- A message of data is read. -/
theorem dataOutcome_data {read : Image → Outcome} (hd : crd response = rmnetNetlinkMsgReturndata) :
    dataOutcome read response = read response := by
  simp [dataOutcome, hd]

/-- A message of a return code is taken for its code. -/
theorem dataOutcome_code {read : Image → Outcome} (hc : crd response = rmnetNetlinkMsgReturncode) :
    dataOutcome read response = rmnetctlSetCodes (returnCode response) rmnetctlApiErrReturnType := by
  simp [dataOutcome, hc, show rmnetNetlinkMsgReturncode ≠ rmnetNetlinkMsgReturndata by decide]

/-- Another message is refused. -/
theorem dataOutcome_other {read : Image → Outcome} (hd : crd response ≠ rmnetNetlinkMsgReturndata)
    (hc : crd response ≠ rmnetNetlinkMsgReturncode) :
    dataOutcome read response = { rc := rmnetctlLibErr, errorCode := some rmnetctlApiErrReturnType } := by
  simp [dataOutcome, hd, hc]

/-- All getters test the kind of the response in the same way. -/
theorem outcome_eq (hr : g.call p = some r) (response : Image) (behind : CString) :
    r.outcome response behind = dataOutcome (Getter.read g behind) response := by
  cases g with
  | vndName id buf buflen =>
    simp only [Getter.call, Getter.toCall, LegacyCall.call, rmnetGetVndName] at hr
    split at hr
    · cases hr
      rfl
    · cases hr
  | _ =>
    obtain ⟨devName, -, rfl⟩ := Option.map_eq_some_iff.mp hr
    rfl

/-- A getter makes a faultless outcome of data. -/
def Faultless (g : Getter) (response : Image) (x : Outcome) : Prop :=
  (x.rc = rmnetctlSuccess → g.Assigned response x.outs ∧ x.errorCode = some rmnetctlApiSuccess) ∧
    (x.rc ≠ rmnetctlSuccess → x.outs = [])

/-- A success that assigns what was answered is without fault. -/
theorem faultless_success {outs : List Output} (h : g.Assigned response outs) : Faultless g response (success outs) :=
  ⟨fun _ => ⟨h, rfl⟩, fun hrc => absurd rfl hrc⟩

/-- A name that is cut is a fault. -/
theorem not_faultless_truncation (out : Output) :
    ¬Faultless g response { rc := rmnetctlLibErr, errorCode := some rmnetctlApiErrStringTruncation, outs := [out] } := by
  rintro ⟨-, h⟩
  cases h libErr_ne

/-- A response with data is read as it should be exactly when the name in it ends and fits. -/
theorem read_faultless_iff (g : Getter) (response : Image) (behind : CString) :
    Faultless g response (Getter.read g behind response) ↔ g.NameFits response := by
  cases g with
  | networkDeviceAssociated | linkEgressDataFormat | linkIngressDataFormatTailspace =>
    exact iff_of_true (faultless_success rfl) trivial
  | logicalEpConfig epId devName operatingMode nextDev nextDevLen =>
    simp only [Getter.read, Getter.NameFits]
    cases hname : nameIn response 29 with
    | none =>
      have hlong : rmnetMaxStrLen < (stringAt response behind 29).length := by
        rw [stringAt_of_open hname, List.length_append, Image.read_length]
        exact Nat.lt_add_right _ (by decide)
      rw [if_pos hlong]
      exact iff_of_false (not_faultless_truncation _) (by simp)
    | some s =>
      rw [stringAt_of_name hname]
      simp only [Option.some.injEq, exists_eq_left']
      split
      · rename_i hlong
        exact iff_of_false (not_faultless_truncation _) (not_le.mpr hlong)
      · rename_i hshort
        exact iff_of_true (faultless_success ⟨s, hname, rfl⟩) (not_lt.mp hshort)
  | vndName id buf buflen =>
    simp only [Getter.read, Getter.NameFits]
    cases hname : nameIn response 12 with
    | none =>
      refine iff_of_false ?_ (by simp)
      split
      · exact not_faultless_truncation _
      · -- The name goes on behind the reply, so it was not assigned from it.
        rintro ⟨h, -⟩
        obtain ⟨⟨s, hs, -⟩, -⟩ := h rfl
        rw [hname] at hs
        cases hs
    | some s =>
      rw [stringAt_of_name hname]
      simp only [Option.some.injEq, exists_eq_left']
      split
      · rename_i hlong
        exact iff_of_false (not_faultless_truncation _) (not_lt.mpr hlong)
      · rename_i hshort
        refine iff_of_true (faultless_success ⟨s, hname, ?_⟩) (not_le.mp hshort)
        rw [strlcpyInto, List.take_of_length_le (by omega)]

/-- A getter that fails without a change keeps its word. -/
theorem answers_of_failure {rc : Int} {errorCode : Option Errno} (h : rc ≠ rmnetctlSuccess) :
    g.Answers t { rc := rc, errorCode := errorCode } :=
  ⟨fun hrc => absurd hrc h, fun _ => rfl⟩

/-- A getter that takes its outcome from a reply keeps its word exactly if the reply is clear. -/
theorem answers_iff_clear {bytes : List UInt8} (ht : received t = [bytes]) :
    g.Answers t (dataOutcome (Getter.read g behind) (responseIn bytes)) ↔ g.Clear (responseIn bytes) := by
  have hne : rmnetNetlinkMsgReturncode ≠ rmnetNetlinkMsgReturndata := by decide
  generalize hresp : responseIn bytes = response
  by_cases hdata : crd response = rmnetNetlinkMsgReturndata
  · -- Data: only the name can go wrong.
    have hread := read_faultless_iff g response behind
    rw [dataOutcome_data hdata]
    constructor
    · intro h
      refine ⟨fun hc => hne (hc.1.symm.trans hdata), fun _ => hread.mp ⟨fun hrc => ?_, h.failure⟩⟩
      obtain ⟨bytes', hb', -, hassigned⟩ := h.success hrc
      obtain rfl : bytes = bytes' := List.singleton_inj.mp (ht.symm.trans hb')
      exact hresp ▸ hassigned
    · intro h
      obtain ⟨hs, hf⟩ := hread.mpr (h.name hdata)
      refine ⟨fun hrc => ⟨bytes, ht, ?_⟩, hf⟩
      rw [hresp]
      exact ⟨hdata, hs hrc⟩
  · by_cases hcode : crd response = rmnetNetlinkMsgReturncode
    · -- A return code: zero is taken for success.
      rw [dataOutcome_code hcode, rmnetctlSetCodes]
      split
      · rename_i hok
        refine iff_of_false (fun h => ?_) fun hclear => hclear.code ⟨hcode, hok⟩
        obtain ⟨bytes', hb', hdata', -⟩ := h.success rfl
        obtain rfl : bytes = bytes' := List.singleton_inj.mp (ht.symm.trans hb')
        exact hdata (hresp ▸ hdata')
      · rename_i hok
        exact iff_of_true (answers_of_failure kernelErr_ne) ⟨fun hc => hok hc.2, fun hd => absurd hd hdata⟩
    · rw [dataOutcome_other hdata hcode]
      exact iff_of_true (answers_of_failure libErr_ne) ⟨fun hc => hcode hc.1, fun hd => absurd hd hdata⟩

end GettersAux

open GettersAux in
/-- Whatever the operations answer, a getter keeps its word exactly when the reply it receives, if it is one of the type of its
request, is clear. -/
theorem getter_answers_iff (p : Ptrs) (g : Getter) (t : Events) (x : Outcome) (hx : (legacyCall (g.call p)).Exec t x) :
    g.Answers t x ↔
      ∀ bytes ∈ received t, messageType (responseIn bytes) = g.toCall.type.ctorIdx → g.Clear (responseIn bytes) := by
  have hends := legacy_ends hx
  generalize hrec : received t = bs at hends
  generalize sent t = ms at hends
  cases hends with
  | invalid hc => exact iff_of_true (answers_of_failure (by decide)) (by simp)
  | refused hc hr => exact iff_of_true (answers_of_failure libErr_ne) (by simp)
  | failed hc hr hu hh ht =>
    refine iff_of_true (answers_of_failure libErr_ne) ?_
    cases ht with
    | unsent he => simp
    | unanswered he => simp
    | mistyped he htype =>
      intro b hb htype'
      rw [List.mem_singleton.mp hb] at htype'
      rw [request_eq hc] at hr
      exact absurd (htype'.trans (messageType_stored hr).symm) htype
  | @answered r stack request seq pid bytes hc hr hu hh htype behind hb =>
    rw [request_eq hc] at hr
    have ht : messageType (responseIn bytes) = g.toCall.type.ctorIdx := htype.trans (messageType_stored hr)
    rw [outcome_eq hc, answers_iff_clear hrec, List.forall_mem_singleton]
    exact (true_imp_iff.symm.trans (by rw [eq_true ht]))

/-- A reply to a request for the name of a virtual device: data, with the name `rmnet_data0`. -/
def nameOfData0 : List UInt8 :=
  List.replicate 18 0 ++ [12, 0, 0, 0x80] ++ List.replicate 6 0 ++ rmnetData0.name.bytes ++ List.replicate 49 0

/-- The getter of the name of a virtual device, with a buffer of 32 bytes. -/
def vndNameGetter : Getter := .vndName 0 true 32

/-- The rule at a name that the caller is given. -/
theorem getter_answers_data0 :
    (legacyCall (vndNameGetter.call ⟨true, true⟩)).run (surroundings nameOfData0).answer = success [.buf rmnetData0.name.bytes] ∧
      (vndNameGetter.Answers ((surroundings nameOfData0).events (legacyCall (vndNameGetter.call ⟨true, true⟩)))
          ((legacyCall (vndNameGetter.call ⟨true, true⟩)).run (surroundings nameOfData0).answer) ↔
        ∀ bytes ∈ received ((surroundings nameOfData0).events (legacyCall (vndNameGetter.call ⟨true, true⟩))),
          messageType (responseIn bytes) = vndNameGetter.toCall.type.ctorIdx → vndNameGetter.Clear (responseIn bytes)) :=
  ⟨by decide, getter_answers_iff _ _ _ _ ((surroundings nameOfData0).exec _)⟩

/-- A reply to a request for the egress data format: a return code, which is zero. -/
def codeOfSuccess : List UInt8 := List.replicate 18 0 ++ [4, 0, 0, 0x40] ++ List.replicate 66 0

/-- The getter of the egress data format of a device. -/
def egressGetter : Getter := .linkEgressDataFormat (some rmnetIpa0.name) true true true

/-- With a return code of zero the getter succeeds: it assigns nothing, and leaves the error code of a wrong kind of reply. -/
theorem code_of_success_unanswered :
    (legacyCall (egressGetter.call ⟨true, true⟩)).run (surroundings codeOfSuccess).answer =
        { rc := rmnetctlSuccess, errorCode := some rmnetctlApiErrReturnType, outs := [] } ∧
      ¬∀ p g t x, (legacyCall (Getter.call p g)).Exec t x → g.Answers t x := by
  have heq : (legacyCall (egressGetter.call ⟨true, true⟩)).run (surroundings codeOfSuccess).answer =
      { rc := rmnetctlSuccess, errorCode := some rmnetctlApiErrReturnType, outs := [] } := by decide
  refine ⟨heq, ?_⟩
  intro hall
  have hans := hall _ _ _ _ ((surroundings codeOfSuccess).exec (legacyCall (egressGetter.call ⟨true, true⟩)))
  rw [heq] at hans
  obtain ⟨_, -, -, -, hcode⟩ := hans.success rfl
  exact absurd hcode (by decide)

end Pixel845.Rmnet
