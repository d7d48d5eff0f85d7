import Mathlib.Data.List.TakeDrop
import Pixel845.Lemmas.RmnetLegacy
import Pixel845.Rmnet.Spec

/-!
# Names are not cut

A legacy call checks the length of a name in one of three ways, before or after it copies the name. The check after the copy lets
a name of `RMNET_MAX_STR_LEN` bytes pass, one more than its field holds, and knows nothing of a shorter destination. A name in a
reply that does not end is copied with what lies behind it on the stack. `names_whole_iff` says when a call does neither and
reports success.
-/

namespace Pixel845.Rmnet

/-- A name in a reply that a call copies to its caller: its offset in the response, the length of the destination, and
the argument. -/
structure ReplyName where
  off : Nat
  size : Nat
  out : List UInt8 → Output

/-- The name that a call copies to its caller. -/
def LegacyCall.replyName : LegacyCall → Option ReplyName
  | .getLogicalEpConfig _ _ _ _ nextDevLen => some ⟨29, nextDevLen.toNat, .nextDev⟩
  | .getVndName _ _ buflen => some ⟨12, buflen.toNat, .buf⟩
  | _ => none

/-- The call refuses a string. -/
def Refuses (x : Outcome) : Prop :=
  x.rc = rmnetctlInvalidArg ∨ x.rc = rmnetctlLibErr ∧ x.errorCode = some rmnetctlApiErrStringTruncation

/-- A name that the call is given stands in the message of a call that succeeds, with its terminator; if it does not fit, it is
refused before anything is sent. -/
structure ArgWhole (t : Events) (x : Outcome) (n : Nat × CString) : Prop where
  success : x.rc = rmnetctlSuccess → ∃ msg, sent t = [msg] ∧ (Image.ofBytes msg).Has (16 + n.1) (n.2.bytes ++ [0])
  refused : rmnetMaxStrLen ≤ n.2.strlen → Refuses x ∧ sent t = []

/-- The name in a response is what the caller of a call that succeeds is given; if it does not end in the response or does not
fit, it is refused. -/
structure ReplyWhole (x : Outcome) (n : ReplyName) (name : Option (List UInt8)) : Prop where
  success : x.rc = rmnetctlSuccess → ∃ s, name = some s ∧ n.out s ∈ x.outs
  refused : (∀ s, name = some s → n.size ≤ s.length) → Refuses x

/-- The response is the data that the call has asked for. -/
def LegacyCall.Answers (q : LegacyCall) (response : Image) : Prop :=
  messageType response = q.type.ctorIdx ∧ crd response = rmnetNetlinkMsgReturndata

/-- No name is cut without a word. -/
structure LegacyCall.NamesWhole (q : LegacyCall) (t : Events) (x : Outcome) : Prop where
  args : ∀ n ∈ q.names, ArgWhole t x n
  reply : ∀ n, q.replyName = some n → ∀ bytes ∈ received t, q.Answers (responseIn bytes) →
    ReplyWhole x n (nameIn (responseIn bytes) n.off)

/-- The lengths at which the checks are right: a name that is copied before its length is checked is not of `RMNET_MAX_STR_LEN`
bytes; the name of the next device in a response is shorter than the destination and its field, or longer than the field; and the
name of a virtual device that does not end in its response is too long for the destination by what lies behind it. -/
structure LegacyCall.LengthsChecked (p : Ptrs) (q : LegacyCall) (t : Events) : Prop where
  args : q.call p = none ∨ ∀ n ∈ q.names, n.2.strlen ≠ rmnetMaxStrLen
  nextDev : ∀ epId devName operatingMode nextDev nextDevLen, q = .getLogicalEpConfig epId devName operatingMode
    nextDev nextDevLen → ∀ bytes ∈ received t, q.Answers (responseIn bytes) → ∀ s, nameIn (responseIn bytes) 29 = some s →
      s.length < min rmnetMaxStrLen nextDevLen.toNat ∨ rmnetMaxStrLen < s.length
  vndName : ∀ id buf buflen, q = .getVndName id buf buflen →
    ∀ bytes ∈ received t, q.Answers (responseIn bytes) → nameIn (responseIn bytes) 12 = none →
      ∀ behind : CString, ⟨.behindResponse, behind⟩ ∈ t → buflen.toNat ≤ rmnetNlMsgSize - 12 + behind.strlen

namespace NamesAux

variable {p : Ptrs} {q : LegacyCall} {r : LegacyRequest} {t : Events} {x : Outcome} {stack request response : Image}
  {n : Nat × CString} {behind : CString}

/-! ### Names in requests -/

/-- A name stands apart from what it is written with. -/
theorem pairwise_nameField (off : Nat) (name : Option CString) :
    (nameField off name).Pairwise fun x y => x.name? ≠ none → x.Apart y := by
  cases name <;> simp [nameField]

/-- A name in front of a piece that begins behind its field. -/
theorem name_apart {off : Nat} {name : Option CString} {x y : Piece} (hx : x ∈ nameField off name)
    (hy : off + rmnetMaxStrLen ≤ y.content.1 ∨ y.content.1 + y.content.2.length ≤ off) : x.Apart y := by
  obtain ⟨s, -, rfl⟩ := Option.map_eq_some_iff.mp (Option.mem_toList.mp hx)
  simp only [Piece.Apart, Piece.content, List.length_append, List.length_take, List.length_singleton, rmnetMaxStrLen] at hy ⊢
  omega

/-- A name in front stands apart from the others. -/
theorem pairwise_behind {off : Nat} {name : Option CString} {ps : List Piece}
    (hps : ps.Pairwise fun x y => x.name? ≠ none → x.Apart y)
    (h : ∀ y ∈ ps, off + rmnetMaxStrLen ≤ y.content.1 ∨ y.content.1 + y.content.2.length ≤ off) :
    (nameField off name ++ ps).Pairwise fun x y => x.name? ≠ none → x.Apart y :=
  List.pairwise_append.mpr ⟨pairwise_nameField off name, hps, fun _ hx y hy _ => name_apart hx (h y hy)⟩

/-- What is written behind a name does not touch it. -/
theorem fields_pairwise (q : LegacyCall) : q.fields.Pairwise fun x y => x.name? ≠ none → x.Apart y := by
  have hvnd (id : UInt32) (name : Option CString) : (vndFields id name).Pairwise fun x y => x.name? ≠ none → x.Apart y := by
    refine List.pairwise_cons.mpr ⟨fun y _ h => absurd rfl h, pairwise_behind (by simp) ?_⟩
    simp
  cases q with
  | associateNetworkDevice | getNetworkDeviceAssociated | getLinkEgressDataFormat | getLinkIngressDataFormatTailspace =>
    exact pairwise_nameField _ _
  | newVnd | newVndPrefix | newVndName => exact hvnd _ _
  | getVndName | addDelVndTcFlow => simp [LegacyCall.fields, Piece.name?]
  | setLogicalEpConfig epId operatingMode devName nextDev =>
    refine pairwise_behind (pairwise_behind (by simp [epPiece, Piece.name?]) (by simp [epPiece])) fun y hy => .inl ?_
    rcases List.mem_append.mp hy with hy | hy
    · obtain ⟨s, -, rfl⟩ := Option.map_eq_some_iff.mp (Option.mem_toList.mp hy)
      simp [Piece.content, rmnetMaxStrLen]
    · simp only [epPiece, List.mem_cons, List.not_mem_nil, or_false] at hy
      rcases hy with rfl | rfl <;> simp [rmnetMaxStrLen]
  | _ => exact pairwise_behind (by simp [epPiece, Piece.name?]) (by simp [epPiece, rmnetMaxStrLen])

/-- A name that is shorter than its field stands in the message. -/
theorem message_has {seq pid : UInt32} (hc : q.call p = some r) (hr : r.request stack = .ok request) (hn : n ∈ q.names)
    (hlen : n.2.strlen < rmnetMaxStrLen) :
    (Image.ofBytes (transactMessage seq pid request)).Has (16 + n.1) (n.2.bytes ++ [0]) := by
  have hmem := mem_names.mp hn
  have hbetween := fields_between q _ hmem
  obtain ⟨pre, post, hsplit⟩ := List.append_of_mem hmem
  have hpair := fields_pairwise q
  rw [hsplit, List.pairwise_append, List.pairwise_cons] at hpair
  rw [request_eq hc, LegacyCall.pieces, hsplit, ← List.append_assoc] at hr
  have hhas := stored_has hr fun y hy => hpair.2.1.1 y hy (by simp [Piece.name?])
  have htake : n.2.bytes.take (rmnetMaxStrLen - 1) = n.2.bytes :=
    List.take_of_length_le (by simp only [CString.strlen] at hlen; omega)
  simp only [Piece.content, htake] at hhas hbetween
  exact transactMessage_has hhas (by omega) (by omega)

/-- In a call with valid arguments, the names are short, or there is only one. -/
theorem names_short_or_only (hc : q.call p = some r) : (∀ n ∈ q.names, n.2.strlen < rmnetMaxStrLen) ∨ q.names.length ≤ 1 := by
  have hone (off : Nat) (name : Option CString) : ((nameField off name).filterMap Piece.name?).length ≤ 1 := by
    cases name <;> simp [nameField, Piece.name?]
  cases q with
  | setLogicalEpConfig epId operatingMode devName nextDev =>
    left
    obtain ⟨s, hs, hc⟩ := Option.bind_eq_some_iff.mp hc
    obtain ⟨s', hs', hc⟩ := Option.bind_eq_some_iff.mp hc
    obtain ⟨rfl, h1⟩ := checked_eq_some hs
    obtain ⟨rfl, h2⟩ := checked_eq_some hs'
    intro n hn
    simp only [LegacyCall.names, LegacyCall.fields, nameField, epPiece, Option.map_some, Option.toList_some, List.cons_append,
      List.nil_append, List.filterMap_cons, Piece.name?, List.filterMap_nil, List.mem_cons, List.not_mem_nil, or_false] at hn
    rcases hn with rfl | rfl
    · exact h1
    · exact h2
  | _ =>
    right
    simp only [LegacyCall.names, LegacyCall.fields, vndFields, epPiece, List.filterMap_append, List.filterMap_cons, Piece.name?,
      List.filterMap_nil, List.append_nil, hone, List.length_nil, Nat.zero_le]

/-! ### Names in responses -/

theorem libErr_ne_success : rmnetctlLibErr ≠ rmnetctlSuccess := by decide

theorem libErr_ne_invalidArg : rmnetctlLibErr ≠ rmnetctlInvalidArg := by decide

/-- The execution has received data, in a response that the call takes its outcome from. -/
theorem answered_of_received {bytes : List UInt8} (hx : (legacyCall (q.call p)).Exec t x) (hb : bytes ∈ received t)
    (ha : q.Answers (responseIn bytes)) :
    ∃ r behind, q.call p = some r ∧ x = r.outcome (responseIn bytes) behind ∧ ∀ s, ⟨.behindResponse, s⟩ ∈ t ↔ s = behind := by
  have hends := legacy_ends hx
  generalize sent t = ms at hends
  generalize received t = bs at hends hb
  cases hends with
  | invalid hc => cases hb
  | refused hc hr => cases hb
  | failed hc hr hu hh ht =>
    cases ht with
    | unsent he => cases hb
    | unanswered he => cases hb
    | mistyped he htype =>
      rw [List.mem_singleton.mp hb] at ha
      rw [request_eq hc] at hr
      exact absurd (ha.1.trans (messageType_stored hr).symm) htype
  | answered hc hr hu hh htype hbehind =>
    rw [List.mem_singleton.mp hb]
    exact ⟨_, _, hc, rfl, hbehind⟩

/-- What `rmnet_get_logical_ep_config` makes of data. -/
theorem getLogicalEpConfig_outcome {epId : Int32} {devName : Option CString} {operatingMode nextDev : Bool} {nextDevLen : UInt32}
    (hc : (LegacyCall.getLogicalEpConfig epId devName operatingMode nextDev nextDevLen).call p = some r)
    (hd : crd response = rmnetNetlinkMsgReturndata) :
    0 < nextDevLen.toNat ∧ r.outcome response behind =
      if rmnetMaxStrLen < (stringAt response behind 29).length then
        { rc := rmnetctlLibErr, errorCode := some rmnetctlApiErrStringTruncation,
          outs := [.nextDev (strlcpyInto (min rmnetMaxStrLen nextDevLen.toNat) (stringAt response behind 29))] }
      else success [.nextDev (strlcpyInto (min rmnetMaxStrLen nextDevLen.toNat) (stringAt response behind 29)),
        .operatingMode (response.nat 28 1)] := by
  obtain ⟨s, hs, rfl⟩ := Option.map_eq_some_iff.mp hc
  refine ⟨?_, ?_⟩
  rotate_left
  · simp only [dataOutcome, hd, ne_eq, not_true_eq_false, if_false]
  unfold checked at hs
  split at hs
  · rename_i hvalid
    simp only [Bool.and_eq_true, bne_iff_ne, ne_eq] at hvalid
    exact Nat.pos_of_ne_zero fun h0 => hvalid.1.2.2 (UInt32.toNat_inj.mp h0)
  · cases hs

/-- What `rmnet_get_vnd_name` makes of data. -/
theorem getVndName_outcome {id buflen : UInt32} {buf : Bool} (hc : (LegacyCall.getVndName id buf buflen).call p = some r)
    (hd : crd response = rmnetNetlinkMsgReturndata) :
    r.outcome response behind =
      if buflen.toNat ≤ (stringAt response behind 12).length then
        { rc := rmnetctlLibErr, errorCode := some rmnetctlApiErrStringTruncation,
          outs := [.buf (strlcpyInto buflen.toNat (stringAt response behind 12))] }
      else success [.buf (strlcpyInto buflen.toNat (stringAt response behind 12))] := by
  simp only [LegacyCall.call, rmnetGetVndName] at hc
  split at hc
  · cases hc
    simp only [dataOutcome, hd, ne_eq, not_true_eq_false, if_false]
  · cases hc

/-- A string is copied as a whole if it is shorter than its place. -/
theorem strlcpyInto_eq_iff {size : Nat} {s : List UInt8} (h0 : 0 < size) : strlcpyInto size s = s ↔ s.length < size := by
  rw [strlcpyInto, List.take_eq_self_iff]
  omega

/-- A refused name is not cut without a word. -/
theorem replyWhole_truncation {n : ReplyName} {name : Option (List UInt8)} (outs : List Output) :
    ReplyWhole { rc := rmnetctlLibErr, errorCode := some rmnetctlApiErrStringTruncation, outs := outs } n name :=
  ⟨fun h => absurd h libErr_ne_success, fun _ => .inr ⟨rfl, rfl⟩⟩

/-- A call that succeeds refuses no name. -/
theorem not_refuses_success (outs : List Output) : ¬Refuses (success outs) := by
  rintro (h | ⟨h, -⟩)
  · exact absurd h (show rmnetctlSuccess ≠ rmnetctlInvalidArg by decide)
  · exact libErr_ne_success h.symm

/-- A name that is copied from a response is whole unless its length is one that the check gets wrong. One that does not end there
is longer than its field, and refused. -/
theorem getLogicalEpConfig_whole_iff {epId : Int32} {devName : Option CString} {operatingMode nextDev : Bool}
    {nextDevLen : UInt32} (hc : (LegacyCall.getLogicalEpConfig epId devName operatingMode nextDev nextDevLen).call p = some r)
    (hd : crd response = rmnetNetlinkMsgReturndata) (behind : CString) :
    ReplyWhole (r.outcome response behind) ⟨29, nextDevLen.toNat, .nextDev⟩ (nameIn response 29) ↔
      ∀ s, nameIn response 29 = some s → s.length < min rmnetMaxStrLen nextDevLen.toNat ∨ rmnetMaxStrLen < s.length := by
  obtain ⟨h0, heq⟩ := getLogicalEpConfig_outcome hc hd
  rw [heq]
  cases hname : nameIn response 29 with
  | none =>
    have hlong : rmnetMaxStrLen < (stringAt response behind 29).length := by
      rw [stringAt_of_open hname, List.length_append, Image.read_length]
      exact Nat.lt_add_right _ (by decide)
    rw [if_pos hlong]
    exact iff_of_true (replyWhole_truncation _) (by simp)
  | some s =>
    rw [stringAt_of_name hname]
    simp only [Option.some.injEq, forall_eq']
    by_cases hlong : rmnetMaxStrLen < s.length
    · rw [if_pos hlong]
      exact iff_of_true (replyWhole_truncation _) (.inr hlong)
    · rw [if_neg hlong, or_iff_left hlong]
      have h16 : 0 < min rmnetMaxStrLen nextDevLen.toNat := Nat.lt_min.mpr ⟨by decide, h0⟩
      constructor
      · intro h
        obtain ⟨s', hs', hmem⟩ := h.success rfl
        obtain rfl := Option.some.inj hs'
        simp only [success, List.mem_cons, Output.nextDev.injEq, reduceCtorEq, List.not_mem_nil, or_false] at hmem
        exact (strlcpyInto_eq_iff h16).mp hmem.symm
      · intro h
        refine ⟨fun _ => ⟨s, rfl, ?_⟩, fun hsize => absurd (hsize s rfl) ?_⟩
        · rw [(strlcpyInto_eq_iff h16).mpr h]
          exact List.mem_cons_self
        · exact not_le.mpr (h.trans_le (min_le_right _ _))

/-- A name of a virtual device is whole if it ends in the response; if not, it must be too long by what lies behind it. -/
theorem getVndName_whole_iff {id buflen : UInt32} {buf : Bool} (hc : (LegacyCall.getVndName id buf buflen).call p = some r)
    (hd : crd response = rmnetNetlinkMsgReturndata) (behind : CString) :
    ReplyWhole (r.outcome response behind) ⟨12, buflen.toNat, .buf⟩ (nameIn response 12) ↔
      (nameIn response 12 = none → buflen.toNat ≤ rmnetNlMsgSize - 12 + behind.strlen) := by
  rw [getVndName_outcome hc hd]
  cases hname : nameIn response 12 with
  | none =>
    have hlen : (stringAt response behind 12).length = rmnetNlMsgSize - 12 + behind.strlen := by
      rw [stringAt_of_open hname, List.length_append, Image.read_length, CString.strlen]
    rw [← hlen]
    split
    · rename_i hlong
      exact iff_of_true (replyWhole_truncation _) fun _ => hlong
    · rename_i hfits
      refine iff_of_false (fun h => ?_) fun h => hfits (h rfl)
      exact not_refuses_success _ (h.refused (by simp))
  | some s =>
    rw [stringAt_of_name hname]
    refine iff_of_true ?_ (by simp)
    split
    · exact replyWhole_truncation _
    · rename_i hfits
      refine ⟨fun _ => ⟨s, rfl, ?_⟩, fun hsize => absurd (hsize s rfl) hfits⟩
      rw [(strlcpyInto_eq_iff (by omega)).mpr (not_le.mp hfits)]
      exact List.mem_cons_self

/-! ### Both -/

/-- The errors of a transaction do not refuse a name. -/
theorem not_truncation {e : Errno} (he : e ∈ transactErrors) : ¬Refuses { rc := rmnetctlLibErr, errorCode := some e } := by
  rintro (h | ⟨-, h⟩)
  · exact libErr_ne_invalidArg h
  · rw [Option.some.inj h] at he
    exact absurd he (by decide)

/-- When the names of the arguments are sent as a whole. -/
theorem args_iff (hx : (legacyCall (q.call p)).Exec t x) :
    (∀ n ∈ q.names, ArgWhole t x n) ↔ (q.call p = none ∨ ∀ n ∈ q.names, n.2.strlen ≠ rmnetMaxStrLen) := by
  have hrefuse (hr : Refuses x) (hs : sent t = []) (h0 : x.rc ≠ rmnetctlSuccess) : ∀ n ∈ q.names, ArgWhole t x n :=
    fun n _ => ⟨fun h => absurd h h0, fun _ => ⟨hr, hs⟩⟩
  have hends := legacy_ends hx
  generalize hms : sent t = ms at hends
  generalize received t = bs at hends
  cases hends with
  | invalid hc => exact iff_of_true (hrefuse (.inl rfl) hms (by decide)) (.inl hc)
  | @refused r stack e hc hr =>
    have htrunc : e = rmnetctlApiErrStringTruncation := by
      rw [request_eq hc, storePieces_eq] at hr
      split at hr
      · cases hr
      · exact (Except.error.inj hr).symm
    refine iff_of_true (hrefuse (.inr ⟨rfl, congrArg some htrunc⟩) hms libErr_ne_success) (.inr fun n hn h16 => ?_)
    -- The name that is too long would be another one.
    have hlong : ¬∀ n ∈ q.names, n.2.strlen ≤ rmnetMaxStrLen := by
      rw [← request_ok_iff hc stack, hr]
      rintro ⟨request, h⟩
      cases h
    rcases names_short_or_only hc with h | h
    · exact absurd h16 (h n hn).ne
    · refine hlong ?_
      intro n' hn'
      obtain ⟨a, ha⟩ := List.length_eq_one_iff.mp (le_antisymm h (List.length_pos_of_mem hn))
      rw [ha, List.mem_singleton] at hn hn'
      rw [hn', ← hn]
      exact h16.le
  | @failed r stack request seq pid e sent' received' hc hr hu hh ht =>
    have he : e ∈ transactErrors := by cases ht <;> assumption
    have hle := (request_ok_iff hc stack).mp ⟨request, hr⟩
    have hsome : q.call p ≠ none := by simp [hc]
    rw [or_iff_right hsome]
    constructor
    · intro h n hn h16
      exact not_truncation he ((h n hn).refused h16.ge).1
    · intro h n hn
      have hlt := lt_of_le_of_ne (hle n hn) (h n hn)
      exact ⟨fun h => absurd h libErr_ne_success, fun h => absurd h (not_le.mpr hlt)⟩
  | @answered r stack request seq pid bytes hc hr hu hh htype =>
    have hle := (request_ok_iff hc stack).mp ⟨request, hr⟩
    have hsome : q.call p ≠ none := by simp [hc]
    rw [or_iff_right hsome]
    constructor
    · intro h n hn h16
      have hs := ((h n hn).refused h16.ge).2
      rw [hms] at hs
      cases hs
    · intro h n hn
      have hlt := lt_of_le_of_ne (hle n hn) (h n hn)
      exact ⟨fun _ => ⟨_, hms, message_has hc hr hn hlt⟩, fun h => absurd h (not_le.mpr hlt)⟩

end NamesAux

open NamesAux in
/-- Whatever the system and the kernel answer: no name is cut without a word exactly if no length is one that the checks
get wrong. -/
theorem names_whole_iff (p : Ptrs) (q : LegacyCall) (t : Events) (x : Outcome) (hx : (legacyCall (q.call p)).Exec t x) :
    q.NamesWhole t x ↔ q.LengthsChecked p t := by
  constructor
  · intro h
    refine ⟨(args_iff hx).mp h.args, ?_, ?_⟩
    · rintro epId devName operatingMode nextDev nextDevLen rfl bytes hb ha
      obtain ⟨r, behind, hc, rfl, -⟩ := answered_of_received hx hb ha
      exact (getLogicalEpConfig_whole_iff hc ha.2 behind).mp (h.reply _ rfl bytes hb ha)
    · rintro id buf buflen rfl bytes hb ha hopen s hs
      obtain ⟨r, behind, hc, rfl, hbehind⟩ := answered_of_received hx hb ha
      obtain rfl := (hbehind s).mp hs
      exact (getVndName_whole_iff hc ha.2 s).mp (h.reply _ rfl bytes hb ha) hopen
  · intro h
    refine ⟨(args_iff hx).mpr h.args, ?_⟩
    intro n hn bytes hb ha
    obtain ⟨r, behind, hc, rfl, hbehind⟩ := answered_of_received hx hb ha
    cases q with
    | getLogicalEpConfig epId devName operatingMode nextDev nextDevLen =>
      cases hn
      exact (getLogicalEpConfig_whole_iff hc ha.2 behind).mpr (h.nextDev _ _ _ _ _ rfl bytes hb ha)
    | getVndName id buf buflen =>
      cases hn
      refine (getVndName_whole_iff hc ha.2 behind).mpr fun hopen => ?_
      exact h.vndName _ _ _ rfl bytes hb ha hopen behind ((hbehind behind).mpr rfl)
    | _ => cases hn

/-- A device that is to be created under a name. -/
def creation (name : CString) : RmM Outcome := legacyCall ((LegacyCall.newVndName 0 (some name)).call ⟨true, true⟩)

/-- A response of success to it. -/
def created : List UInt8 := List.replicate 18 0 ++ [16, 0, 0, 0x40] ++ List.replicate 66 0

/-- The rule at a name that fits. -/
theorem names_whole_data0 :
    (LegacyCall.newVndName 0 (some rmnetData0.name)).NamesWhole ((surroundings created).events (creation rmnetData0.name))
        ((creation rmnetData0.name).run (surroundings created).answer) ↔
      (LegacyCall.newVndName 0 (some rmnetData0.name)).LengthsChecked ⟨true, true⟩
        ((surroundings created).events (creation rmnetData0.name)) :=
  names_whole_iff _ _ _ _ ((surroundings created).exec _)

/-- A name of 16 bytes. -/
def sixteen : CString := ⟨List.replicate 16 0x61, by decide⟩

open NamesAux in
/-- A device whose name is of 16 bytes is created with the first 15 of them. -/
theorem not_names_whole :
    (creation sixteen).run (surroundings created).answer = { rc := rmnetctlSuccess, errorCode := some rmnetctlApiSuccess } ∧
      ¬∀ p q t x, (legacyCall (LegacyCall.call p q)).Exec t x → q.NamesWhole t x := by
  refine ⟨by decide, ?_⟩
  intro hall
  have hx := (surroundings created).exec (creation sixteen)
  rcases (args_iff hx).mp (hall _ _ _ _ hx).args with h | h
  · cases h
  · exact h (12, sixteen) (mem_names.mpr (by simp [LegacyCall.fields, vndFields, nameField])) rfl

end Pixel845.Rmnet
