import Pixel845.Lemmas.RmnetCall
import Pixel845.Lemmas.RmnetLink

/-!
# Flow and uplink messages say what they were made from

The flow commands share one `struct tcmsg`, whose fields are other parameters in each command, and the uplink parameters have a
structure of their own. A message decodes to the command that it was made from, with the index of the device, the name of the link
and all parameters (`command_sent`), and so messages with equal attributes come from equal commands.
-/

namespace Pixel845.Rmnet

/-! ## Commands -/

/-- A command for a link, with its parameters. -/
inductive Command where
  | activateFlow (bearerId : UInt8) (flowId ipType tcmHandle : UInt32)
  | deleteFlow (bearerId : UInt8) (flowId ipType : UInt32)
  | controlFlow (bearerId : UInt8) (sequence : UInt16) (grantsize : UInt32) (ack : UInt8)
  | flowStateUp (inst epType ifaceid flags : UInt32)
  | flowStateDown (inst : UInt32)
  | setQmiScale (scale : UInt32)
  | setWdaFreq (freq : UInt32)
  | setUplinkAggregationParams (packetCount : UInt8) (byteCount : UInt16) (timeLimit : UInt32) (features : UInt8)
deriving DecidableEq

/-- The call that sends a command for a link of a device. -/
def Command.call (devname : Option CString) (v : DevName) : Command → RtmCall
  | .activateFlow bearerId flowId ipType tcmHandle => .activateFlow devname (some v.name) bearerId flowId ipType tcmHandle
  | .deleteFlow bearerId flowId ipType => .deleteFlow devname (some v.name) bearerId flowId ipType
  | .controlFlow bearerId sequence grantsize ack => .controlFlow devname (some v.name) bearerId sequence grantsize ack
  | .flowStateUp inst epType ifaceid flags => .flowStateUp devname (some v.name) inst epType ifaceid flags
  | .flowStateDown inst => .flowStateDown devname (some v.name) inst
  | .setQmiScale scale => .setQmiScale devname (some v.name) scale
  | .setWdaFreq freq => .setWdaFreq devname (some v.name) freq
  | .setUplinkAggregationParams packetCount byteCount timeLimit features =>
    .setUplinkAggregationParams devname (some v.name) packetCount byteCount timeLimit features

/-- A command that is sent: a QMI scale of zero is refused. -/
def Command.accepted : Command → Bool
  | .setQmiScale scale => scale != 0
  | _ => true

/-! ## Decoding -/

/-- The `struct tcmsg` at an offset. -/
def tcmsgAt (m : Image) (off : Nat) : Tcmsg where
  tcmFamily := m off
  tcmPad1 := m (off + 1)
  tcmPad2 := .ofNat (m.nat (off + 2) 2)
  tcmIfindex := .ofNat (m.nat (off + 4) 4)
  tcmHandle := .ofNat (m.nat (off + 8) 4)
  tcmParent := .ofNat (m.nat (off + 12) 4)
  tcmInfo := .ofNat (m.nat (off + 16) 4)

/-- The command of a `struct tcmsg`, by its family. -/
def Command.ofTcmsg (t : Tcmsg) : Option Command :=
  [none,
    some (.activateFlow t.tcmPad1 t.tcmParent t.tcmIfindex t.tcmHandle),
    some (.deleteFlow t.tcmPad1 t.tcmParent t.tcmIfindex),
    some (.controlFlow t.tcmPad1 t.tcmPad2 t.tcmInfo t.tcmParent.toUInt8),
    some (.flowStateUp t.tcmHandle t.tcmInfo t.tcmParent t.tcmIfindex),
    some (.flowStateDown t.tcmHandle),
    some (.setQmiScale t.tcmIfindex),
    some (.setWdaFreq t.tcmIfindex)].getD t.tcmFamily.toNat none

/-- The command of the `struct rmnetctl_uplink_params` at an offset. -/
def Command.ofUplinkParams (m : Image) (off : Nat) : Command :=
  .setUplinkAggregationParams (m (off + 2)) (.ofNat (m.nat off 2)) (.ofNat (m.nat (off + 4) 4)) (m (off + 3))

/-- The command in the parameters of a link. -/
def Command.ofTable (m : Image) (tb : Table) : Option Command :=
  (tb.entries rmnetctlIflaDfcQos).elim ((tb.entries rmnetctlIflaUplinkParams).map fun attr => Command.ofUplinkParams m (attr + 4))
    fun attr => Command.ofTcmsg (tcmsgAt m (attr + 4))

/-- What a message says: the index of the device, the name of the link and a command. -/
structure Said where
  devindex : UInt32
  vndname : List UInt8
  command : Command
deriving DecidableEq

/-- Read a message as the driver does: the device, the name, and the first of the parameters in `IFLA_INFO_DATA` of
`IFLA_LINKINFO`. -/
def decode (m : Image) : Option Said := do
  let link ← attrAt m iflaLink
  let ifname ← attrAt m iflaIfname
  let tb ← readLinkTable.run m.load
  let command ← Command.ofTable m tb
  return ⟨.ofNat (m.nat (link + 4) 4), (m.read (ifname + 4) (m.nat ifname 2 - 4)).takeWhile (· != 0), command⟩

namespace CommandsAux

variable {m : Image} {off : Nat} {d v : DevName} {c : Command} {devindex : UInt32} {p : Ptrs} {t : Events} {x : Outcome}

/-! ### Parameters -/

/-- The parameters of a command: the type of their attribute and their bytes. -/
def param : Command → Nat × List UInt8
  | .activateFlow bearerId flowId ipType tcmHandle =>
    (rmnetctlIflaDfcQos,
      Tcmsg.bytes { tcmHandle := tcmHandle, tcmFamily := 1, tcmPad1 := bearerId, tcmIfindex := ipType, tcmParent := flowId })
  | .deleteFlow bearerId flowId ipType =>
    (rmnetctlIflaDfcQos, Tcmsg.bytes { tcmFamily := 2, tcmIfindex := ipType, tcmPad1 := bearerId, tcmParent := flowId })
  | .controlFlow bearerId sequence grantsize ack =>
    (rmnetctlIflaDfcQos, Tcmsg.bytes
      { tcmFamily := 3, tcmPad1 := bearerId, tcmPad2 := sequence, tcmParent := ack.toUInt32, tcmInfo := grantsize })
  | .flowStateUp inst epType ifaceid flags =>
    (rmnetctlIflaDfcQos, Tcmsg.bytes
      { tcmHandle := inst, tcmFamily := 4, tcmIfindex := flags, tcmParent := ifaceid, tcmInfo := epType })
  | .flowStateDown inst => (rmnetctlIflaDfcQos, Tcmsg.bytes { tcmHandle := inst, tcmFamily := 5 })
  | .setQmiScale scale => (rmnetctlIflaDfcQos, Tcmsg.bytes { tcmIfindex := scale, tcmFamily := 6 })
  | .setWdaFreq freq => (rmnetctlIflaDfcQos, Tcmsg.bytes { tcmIfindex := freq, tcmFamily := 7 })
  | .setUplinkAggregationParams packetCount byteCount timeLimit features =>
    (rmnetctlIflaUplinkParams, UplinkParams.bytes ⟨byteCount, packetCount, features, timeLimit⟩)

theorem param_length (c : Command) : (param c).2.length ≤ 20 := by
  cases c <;> simp [param, Tcmsg.bytes, UplinkParams.bytes]

/-- The types of the parameters. -/
theorem param_type (c : Command) : (param c).1 = rmnetctlIflaDfcQos ∨ (param c).1 = rmnetctlIflaUplinkParams := by
  cases c <;> simp [param]

/-- A number of four bytes is read back. -/
theorem ofNat_nat4 {n : UInt32} (h : m.Has off (leBytes 4 n.toNat)) : UInt32.ofNat (m.nat off 4) = n := by
  have hn : n.toNat % 256 ^ 4 = n.toNat := Nat.mod_eq_of_lt n.toNat_lt
  rw [h.nat_eq, hn, UInt32.ofNat_toNat]

/-- A number of two bytes is read back. -/
theorem ofNat_nat2 {n : UInt16} (h : m.Has off (leBytes 2 n.toNat)) : UInt16.ofNat (m.nat off 2) = n := by
  have hn : n.toNat % 256 ^ 2 = n.toNat := Nat.mod_eq_of_lt n.toNat_lt
  rw [h.nat_eq, hn, UInt16.ofNat_toNat]

/-- A flow is read back. -/
theorem tcmsgAt_eq {t : Tcmsg} (h : m.Has off t.bytes) : tcmsgAt m off = t := by
  simp only [Tcmsg.bytes, Image.has_append, Image.has_cons, Image.has_nil, and_true, List.length_append, List.length_cons,
    List.length_nil, leBytes_length, Nat.reduceAdd] at h
  obtain ⟨⟨⟨⟨⟨⟨h0, h1⟩, h2⟩, h4⟩, h8⟩, h12⟩, h16⟩ := h
  simp only [tcmsgAt, h0, h1, ofNat_nat2 h2, ofNat_nat4 h4, ofNat_nat4 h8, ofNat_nat4 h12, ofNat_nat4 h16]

/-- The parameters of the uplink are read back. -/
theorem ofUplinkParams_eq {u : UplinkParams} (h : m.Has off u.bytes) :
    Command.ofUplinkParams m off = .setUplinkAggregationParams u.packetCount u.byteCount u.timeLimit u.features := by
  simp only [UplinkParams.bytes, Image.has_append, Image.has_cons, Image.has_nil, and_true, List.length_append, List.length_cons,
    List.length_nil, leBytes_length, Nat.reduceAdd] at h
  obtain ⟨⟨h0, h2, h3⟩, h4⟩ := h
  simp only [Command.ofUplinkParams, h2, h3, ofNat_nat2 h0, ofNat_nat4 h4]

/-- The parameters of a command are read back. -/
theorem ofTable_eq {attr : Nat} (h : m.Has (attr + 4) (param c).2) :
    Command.ofTable m (Table.cleared.set (param c).1 attr) = some c := by
  have hne : rmnetctlIflaDfcQos ≠ rmnetctlIflaUplinkParams := by decide
  unfold Command.ofTable
  simp only [Table.set, Table.cleared]
  cases c with
  | setUplinkAggregationParams packetCount byteCount timeLimit features =>
    simp only [param] at h ⊢
    rw [Function.update_of_ne hne, Function.update_self, Option.elim_none, Option.map_some, ofUplinkParams_eq h]
  | controlFlow bearerId sequence grantsize ack =>
    simp only [param] at h ⊢
    rw [Function.update_self, Option.elim_some, tcmsgAt_eq h]
    simp [Command.ofTcmsg]
  | _ =>
    simp only [param] at h ⊢
    rw [Function.update_self, Option.elim_some, tcmsgAt_eq h]
    rfl

/-! ### Messages -/

/-- The attributes of the message for a command. -/
def attrs (devindex : UInt32) (v : DevName) (c : Command) : List Rta :=
  linkAttrs devindex v (oneParam (param c).1 (param c).2 (param_length c))

/-- A message with the attributes of a command decodes to it. -/
theorem decode_of_frames (h : Frames m (attrs devindex v c)) : decode m = some ⟨devindex, v.name.bytes, c⟩ := by
  have h0 : Frames m ([] ++ attrs devindex v c) := h
  obtain ⟨link, hlink, -, hindex⟩ := h0.link (by simp)
  obtain ⟨ifname, hifname, hlen, hname⟩ := h0.ifname (by simp)
  have htb := readLinkTable_link h0.has h0.len h0.short (by simp)
  obtain ⟨-, hc1⟩ := linkInfo_found h0.has (by simp)
  obtain ⟨-, hc2⟩ := infoData_found hc1
  have hparam : m.Has (datainfoAt devindex v [] + 4 + 4) (param c).2 := by
    have h := hc2.has
    simp only [oneParam, Rta.encode_cons, Rta.encode_nil, List.append_nil] at h
    exact (Rta.has_bytes h).2.2
  have htable : (rtaParse rmnetctlIflaMax (datainfoAt devindex v [] + 4)
      (Rta.encode (oneParam (param c).1 (param c).2 (param_length c)).attrs).length).run m.load =
      Table.cleared.set (param c).1 (datainfoAt devindex v [] + 4) := by
    rw [rtaParse_encode hc2.has]
    rcases param_type c with ht | ht <;> simp [oneParam, Rta.headers, ht] <;> rfl
  have hstr : (m.read (ifname + 4) (m.nat ifname 2 - 4)).takeWhile (· != 0) = v.name.bytes := by
    have hread : m.read (ifname + 4) (v.name.bytes ++ [0]).length = v.name.bytes ++ [0] := hname
    have hsize : m.nat ifname 2 - 4 = (v.name.bytes ++ [0]).length := by
      rw [hlen, CString.strlen, List.length_append, List.length_singleton]
      omega
    rw [hsize, hread, List.takeWhile_append_of_pos]
    · simp
    · intro b hb
      exact bne_iff_ne.mpr fun h0 => v.name.noNul (h0 ▸ hb)
  rw [htable] at htb
  simp only [decode, hlink, hifname, htb, Option.bind_eq_bind, Option.bind_some, ofTable_eq hparam, hstr, hindex,
    UInt32.ofNat_toNat]
  rfl

/-! ### Calls -/

variable {devname : Option CString}

/-- The request for a command. -/
def request (v : DevName) (c : Command) (name : CString) : RtmRequest where
  type := rtmNewlink
  flags := nlmFRequestAck
  names := [name]
  build := fun is req => (fillLinkParams (is.headD 0) v.name (param c).1 (param c).2 req).2
  receive := rmnetGetAck

/-- A device name is short enough. -/
theorem nameOk_of_short (v : DevName) : nameOk (some v.name) = true := by
  simp [nameOk, rmnetctlCheckDevName, not_le.mpr v.short]

/-- The request of a command. -/
theorem request_eq (p : Ptrs) (devname : Option CString) (v : DevName) (c : Command) :
    (c.call devname v).request p = devname.bind fun name =>
      if p.ok && (nameOk (some name) && c.accepted) then some (request v c name) else none := by
  have hv := nameOk_of_short v
  cases devname with
  | none => cases c <;> rfl
  | some name =>
    cases c <;>
      simp only [Command.call, RtmCall.request, flowRequest, newlinkRequest, hv, Command.accepted, Bool.and_true,
        Option.bind_some, request, param, rmnetFillFlowMsg]
    all_goals rfl

/-- What a call for a command sends: nothing, or one message for the index that it has found. -/
theorem command_sends (hx : ((c.call devname v).body p).Exec t x) :
    sent t = [] ∨ ∃ name index errno req, devname = some name ∧
      (⟨.ifNametoindex name, (index, errno)⟩ : Prog.Event Op.Res) ∈ t ∧ Holds req (Rta.encode (attrs index v c)) ∧
      sent t = [req.message] := by
  rw [body_eq, request_eq] at hx
  cases devname with
  | none =>
    cases hx
    exact .inl rfl
  | some name =>
    rw [Option.bind_some] at hx
    split at hx
    · obtain ⟨stack, seq, index, errno, hindex, hsent⟩ := rtmCall_sent rfl silent_rmnetGetAck hx
      by_cases h0 : index = 0
      · exact .inl (by rw [hsent, if_pos h0])
      · rw [if_neg h0] at hsent
        have ht : (param c).1 < 2 ^ 16 := by rcases param_type c with h | h <;> rw [h] <;> decide
        have hgives : (fillLinkParams index v.name (param c).1 (param c).2).Gives [] () ([] ++ Rta.encode (attrs index v c)) :=
          fillLinkParams_gives (by decide) ht (param_length c)
        obtain ⟨req, hreq, hholds⟩ := hgives _ (initReq_holds stack rtmNewlink nlmFRequestAck seq)
        refine .inr ⟨name, index, errno, req, rfl, hindex, hholds, ?_⟩
        rw [hsent]
        simp only [request, List.headD_cons, hreq]
    · cases hx
      exact .inl rfl

/-- A call with valid arguments sends a message if its device has an index. -/
theorem command_sent_once {d : DevName} (hp : p.ok = true) (hc : c.accepted = true)
    (hx : ((c.call (some d.name) v).body p).Exec t x)
    (hd : ∀ index errno, (⟨.ifNametoindex d.name, (index, errno)⟩ : Prog.Event Op.Res) ∈ t → index ≠ 0) :
    ∃ msg, sent t = [msg] := by
  have hvalid : (p.ok && (nameOk (some d.name) && c.accepted)) = true := by rw [hp, hc, nameOk_of_short]; rfl
  rw [body_eq, request_eq, Option.bind_some, if_pos hvalid] at hx
  obtain ⟨stack, seq, index, errno, hindex, hsent⟩ := rtmCall_sent rfl silent_rmnetGetAck hx
  rw [if_neg (hd index errno hindex)] at hsent
  exact ⟨_, hsent⟩

end CommandsAux

/-- The execution has found the index of a device. -/
def Found (t : Events) (devname : Option CString) (index : UInt32) : Prop :=
  ∃ name errno, devname = some name ∧ (⟨.ifNametoindex name, (index, errno)⟩ : Prog.Event Op.Res) ∈ t

open CommandsAux in
/-- Every message that is sent for a command decodes, in whatever memory it lies, to the index that was found for the device, the
name of the link and the command with all of its parameters; two of them with equal attributes are for one command, link and
index; and a call with valid arguments sends one. -/
theorem command_sent (p : Ptrs) (devname : Option CString) (v : DevName) (c : Command) (t : Events) (x : Outcome)
    (hx : ((c.call devname v).body p).Exec t x) :
    (∀ msg ∈ sent t, ∃ index, Found t devname index ∧ ∀ m : Image, m.Has 0 msg → decode m = some ⟨index, v.name.bytes, c⟩) ∧
    (∀ p' devname' v' c' t' x', ((Command.call devname' v' c').body p').Exec t' x' → ∀ msg ∈ sent t, ∀ msg' ∈ sent t',
      msg.drop nlmsgHeaders = msg'.drop nlmsgHeaders →
        c = c' ∧ v = v' ∧ ∃ index, Found t devname index ∧ Found t' devname' index) ∧
    (p.ok = true → c.accepted = true → ∀ d : DevName, devname = some d.name → (∀ index, Found t devname index → index ≠ 0) →
      ∃ msg, sent t = [msg]) := by
  refine ⟨?_, ?_, ?_⟩
  · intro msg hmsg
    rcases command_sends hx with h | ⟨name, index, errno, req, hname, hindex, hholds, h⟩
    · rw [h] at hmsg
      cases hmsg
    · rw [h] at hmsg
      rw [List.mem_singleton.mp hmsg]
      exact ⟨index, ⟨name, errno, hname, hindex⟩, fun m hm => decode_of_frames (frames_of_holds hholds hm)⟩
  · intro p' devname' v' c' t' x' hx' msg hmsg msg' hmsg' heq
    rcases command_sends hx with h | ⟨name, index, errno, req, hname, hindex, hholds, h⟩
    · rw [h] at hmsg
      cases hmsg
    rcases command_sends hx' with h' | ⟨name', index', errno', req', hname', hindex', hholds', h'⟩
    · rw [h'] at hmsg'
      cases hmsg'
    rw [h] at hmsg
    rw [h'] at hmsg'
    rw [List.mem_singleton.mp hmsg, List.mem_singleton.mp hmsg', message_drop hholds, message_drop hholds'] at heq
    -- The memory of one message holds the attributes of both.
    have hframes : Frames req.mem (attrs index v c) := frames_of_holds hholds (Image.has_read _ _ _)
    have hframes' : Frames req.mem (attrs index' v' c') := ⟨heq ▸ hframes.has, heq ▸ hframes.len, heq ▸ hframes.short⟩
    have hsaid := (decode_of_frames hframes).symm.trans (decode_of_frames hframes')
    simp only [Option.some.injEq, Said.mk.injEq] at hsaid
    obtain ⟨rfl, hv, rfl⟩ := hsaid
    have hvv : v = v' := by
      obtain ⟨⟨bytes, hb⟩, hs⟩ := v
      obtain ⟨⟨bytes', hb'⟩, hs'⟩ := v'
      simp only at hv
      subst hv
      rfl
    exact ⟨rfl, hvv, index, ⟨name, errno, hname, hindex⟩, ⟨name', errno', hname', hindex'⟩⟩
  · rintro hp hc d rfl hd
    exact command_sent_once hp hc hx fun index errno h => hd index ⟨_, errno, rfl, h⟩

/-- A flow that is activated for bearer 5. -/
def activation : Command := .activateFlow 5 0x10 4 0x20001

/-- The rule at an activation for `rmnet_data0`. -/
theorem command_sent_activation :
    sent ((surroundings []).events ((activation.call (some rmnetIpa0.name) rmnetData0).body ⟨true, true⟩)) ≠ [] ∧
    ∀ msg ∈ sent ((surroundings []).events ((activation.call (some rmnetIpa0.name) rmnetData0).body ⟨true, true⟩)),
      ∃ index, Found ((surroundings []).events ((activation.call (some rmnetIpa0.name) rmnetData0).body ⟨true, true⟩))
        (some rmnetIpa0.name) index ∧ ∀ m : Image, m.Has 0 msg → decode m = some ⟨index, rmnetData0.name.bytes, activation⟩ :=
  ⟨by decide +kernel, (command_sent ⟨true, true⟩ (some rmnetIpa0.name) rmnetData0 activation _ _ ((surroundings []).exec _)).1⟩

example : (sent ((surroundings []).events ((activation.call (some rmnetIpa0.name) rmnetData0).body ⟨true, true⟩))).map
    (fun msg => decode (Image.ofBytes msg)) = [some ⟨7, rmnetData0.name.bytes, activation⟩] := by
  decide +kernel

end Pixel845.Rmnet
