import Pixel845.Lemmas.RmnetLink

/-!
# Link messages say what they were made from

The message that `rtrmnet_ctl_newvnd` or `rtrmnet_ctl_changevnd` sends, decoded the way `rtrmnet_ctl_getvnd` decodes a reply,
gives back the device, the name, the MUX ID and the flags of the call, whatever memory follows the message
(`link_message_round_trip`).
-/

namespace Pixel845.Rmnet

/-- What the decoder finds in a message of `len` bytes that describes a link. -/
structure RoundTrip (m : Image) (len : Nat) (d : UInt32) (v : DevName) (index : UInt8) (flagconfig : UInt32) : Prop where
  /-- The length of the message covers exactly its attributes, and is not more than a `struct nlmsg`. -/
  total : m.nat 0 4 = len ∧ len ≤ nlmsgSize ∧ ∃ pre,
    len = nlmsgHeaders + (Rta.encode (pre ++ linkAttrs d v (vndParams index flagconfig))).length ∧
      m.Has nlmsgHeaders (Rta.encode (pre ++ linkAttrs d v (vndParams index flagconfig)))
  link : ∃ o, attrAt m iflaLink = some o ∧ m.nat o 2 = 8 ∧ m.nat (o + 4) 4 = d.toNat
  ifname : ∃ o, attrAt m iflaIfname = some o ∧ m.nat o 2 = 4 + (v.name.strlen + 1) ∧ m.Has (o + 4) (v.name.bytes ++ [0])
  /-- Each nested attribute covers exactly its children, and the table has the parameters of the link. -/
  nested : ∃ linkinfo datainfo tb,
    attrAt m iflaLinkinfo = some linkinfo ∧ Covers m linkinfo (linkInfos (vndParams index flagconfig)) ∧
    (rtaFind (linkinfo + 4) (m.nat linkinfo 2 - 4) iflaInfoData).run m.load = some datainfo ∧
    Covers m datainfo (vndParams index flagconfig).attrs ∧
    readLinkTable.run m.load = some tb ∧
    (∃ o, tb.entries rmnetctlIflaMuxId = some o ∧ m.nat (o + 4) 2 = index.toNat) ∧
    ((tb.entries rmnetctlIflaFlags).isSome ↔ flagconfig ≠ 0) ∧
    ∀ o, tb.entries rmnetctlIflaFlags = some o → m.nat (o + 4) 4 = flagconfig.toNat ∧ m.nat (o + 8) 4 = flagconfig.toNat

/-- The calls that send a link message. -/
def sendsLink (devname vndname : DevName) (index : UInt8) (flagconfig : UInt32) : List RtmCall :=
  [.newvnd (some devname.name) (some vndname.name) index flagconfig,
    .changevnd (some devname.name) (some vndname.name) index flagconfig]

namespace RoundTripAux

variable {m : Image} {off : Nat} {d : UInt32} {v : DevName} {index : UInt8} {flagconfig : UInt32} {pre : List Rta}
  {msg : List UInt8}

/-! ### The parameters in memory -/

/-- The index is read back. -/
theorem muxId_has (h : m.Has off (Rta.encode (vndParams index flagconfig).attrs)) : m.nat (off + 4) 2 = index.toNat := by
  rw [vndParams, Rta.encode_cons, Image.has_append] at h
  obtain ⟨-, -, hp⟩ := Rta.has_bytes h.1
  rw [Image.Has.nat_eq hp]
  exact Nat.mod_eq_of_lt (Nat.lt_trans index.toNat_lt (by decide))

/-- The flags and their mask are read back. -/
theorem flags_has (h : m.Has off (Rta.encode (vndParams index flagconfig).attrs)) (hflag : flagconfig ≠ 0) :
    m.nat (off + 8 + 4) 4 = flagconfig.toNat ∧ m.nat (off + 8 + 8) 4 = flagconfig.toNat := by
  have hlen : align4 (numAttr rmnetctlIflaMuxId 2 index.toNat (by decide)).len = 8 := by simp [numAttr, Rta.len, align4]
  have hlt : flagconfig.toNat % 256 ^ 4 = flagconfig.toNat := Nat.mod_eq_of_lt flagconfig.toNat_lt
  simp only [vndParams, hflag, if_false, Rta.encode_cons, Image.has_append, Rta.bytes_length, hlen] at h
  obtain ⟨-, h, -⟩ := h
  obtain ⟨-, -, hp⟩ := Rta.has_bytes h
  simp only [iflaVlanFlags, Image.has_append, leBytes_length] at hp
  rw [hp.1.nat_eq, hlt]
  exact ⟨rfl, hp.2.nat_eq.trans hlt⟩

/-! ### The message -/

/-- A message that a function has filled with the attributes of a link reads back. -/
theorem roundTrip_of_has (h : m.Has nlmsgHeaders (Rta.encode (pre ++ linkAttrs d v (vndParams index flagconfig))))
    (hlen : m.nat 0 4 = nlmsgHeaders + (Rta.encode (pre ++ linkAttrs d v (vndParams index flagconfig))).length)
    (hspace : nlmsgHeaders + (Rta.encode (pre ++ linkAttrs d v (vndParams index flagconfig))).length ≤ nlmsgSize)
    (hpre : ∀ x ∈ pre, x.type.toNat = rmnetIflaNumTxQueues) :
    RoundTrip m (m.nat 0 4) d v index flagconfig := by
  have hshort : (Rta.encode (pre ++ linkAttrs d v (vndParams index flagconfig))).length < 2 ^ 31 := by
    simp only [nlmsgSize] at hspace
    omega
  have hne : ∀ t, t ≠ rmnetIflaNumTxQueues → ∀ x ∈ pre, x.type.toNat ≠ t := by
    intro t ht x hx
    rw [hpre x hx]
    exact ht.symm
  have hframes : Frames m (pre ++ linkAttrs d v (vndParams index flagconfig)) := ⟨h, hlen, hshort⟩
  refine ⟨⟨rfl, hlen ▸ hspace, _, hlen, h⟩, hframes.link (hne iflaLink (by decide)),
    hframes.ifname (hne iflaIfname (by decide)), ?_⟩
  · obtain ⟨hf1, hc1⟩ := linkInfo_found h (hne iflaLinkinfo (by decide))
    obtain ⟨hf2, hc2⟩ := infoData_found hc1
    have ht := readLinkTable_link h hlen hshort (hne iflaLinkinfo (by decide))
    have htable := rtaParse_vndParams hc2.has
    have h12 : rmnetctlIflaMuxId ≠ rmnetctlIflaFlags := by decide
    refine ⟨_, _, _, by rw [attrAt, hlen, nlmsgPayload_eq hshort, hf1], hc1, by rw [hc1.payload, hf2], hc2, ht, ?_, ?_, ?_⟩
    · refine ⟨datainfoAt d v pre + 4, ?_, muxId_has hc2.has⟩
      rw [htable, Function.update_of_ne h12, Function.update_self]
    · rw [htable, Function.update_self]
      by_cases hflag : flagconfig = 0 <;> simp [hflag]
    · intro o ho
      rw [htable, Function.update_self] at ho
      by_cases hflag : flagconfig = 0
      · simp [hflag] at ho
      · rw [if_neg hflag] at ho
        obtain rfl := Option.some.inj ho
        exact flags_has hc2.has hflag

/-- Memory that begins with a message reads back as the message was filled. -/
theorem roundTrip_of_holds {req : Req} (pre : List Rta)
    (h : Holds req (Rta.encode (pre ++ linkAttrs d v (vndParams index flagconfig))))
    (hpre : ∀ x ∈ pre, x.type.toNat = rmnetIflaNumTxQueues) (hm : m.Has 0 req.message) :
    RoundTrip m req.message.length d v index flagconfig := by
  have hframes := frames_of_holds h hm
  have hnat : m.nat 0 4 = req.nlmsgLen := hframes.len.trans h.len.symm
  rw [Req.message, Image.read_length, ← hnat]
  exact roundTrip_of_has hframes.has hframes.len h.space hpre

/-! ### The calls -/

variable {p : Ptrs} {devname : CString} {valid : Bool} {bs : List UInt8} {h : (o : Op) → o.Res}

/-- Getting an acknowledgement sends nothing. -/
theorem rmnetGetAck_sent (h : (o : Op) → o.Res) : (rmnetGetAck.trace h).filterMap Op.sent? = [] := by
  simp only [rmnetGetAck, perform, Prog.trace_bind, Prog.trace_call]
  cases Prog.run h (Prog.call (.recv 292)) with
  | error e => rfl
  | ok n =>
    rw [fromBuffer, Prog.trace_lift]
    simp only [List.singleton_append, List.filterMap_cons, List.filterMap_map, Op.sent?, List.filterMap_eq_nil_iff,
      Function.comp_apply, implies_true]

/-- A request is sent once. -/
theorem sendReq_sent (h : (o : Op) → o.Res) (req : Req) :
    ((sendReq req rmnetGetAck).trace h).filterMap Op.sent? = [req.message] := by
  simp only [sendReq, perform, Prog.trace_bind, Prog.trace_call]
  cases Prog.run h (Prog.call (.send req.message)) with
  | error e => rfl
  | ok n =>
    simp only [List.singleton_append, List.filterMap_cons, Op.sent?]
    rw [rmnetGetAck_sent]

/-- A call with valid arguments for an existing device sends one message, filled as its function fills it. -/
theorem newlinkCall_sent (vndname : CString) (flags : Nat) (fill : UInt32 → CString → Fill Unit) (hp : p.ok = true)
    (hv : valid = true) (hd : (h (.ifNametoindex devname)).1 ≠ 0)
    (hfill : (fill (h (.ifNametoindex devname)).1 vndname).Gives [] () bs) :
    ∃ req, Holds req bs ∧
      ((newlinkCall p (some devname) (some vndname) valid flags fill).trace h).filterMap Op.sent? = [req.message] := by
  obtain ⟨req, hreq, hholds⟩ := hfill _ (initReq_holds (h .uninit) rtmNewlink flags (h .transactionId))
  refine ⟨req, hholds, ?_⟩
  simp only [newlinkCall, hp, hv, Bool.and_self, if_true, startReq, withIndex, perform, Prog.trace_bind, Prog.trace_call,
    Prog.run_bind, Prog.run_call, Prog.pure_eq, Prog.trace_ret, Prog.run_ret, hd, if_false, fillAndSend, hreq]
  exact sendReq_sent h req

end RoundTripAux

/-! ## The round trip -/

open RoundTripAux in
/-- Whatever the handle, the stack and the socket hold: for a device with an index, a call that creates or changes a link sends
one message, and memory that begins with this message decodes to what the call was given. -/
theorem link_message_round_trip (p : Ptrs) (hp : p.ok = true) (devname vndname : DevName) (index : UInt8) (flagconfig : UInt32)
    (q : RtmCall) (hq : q ∈ sendsLink devname vndname index flagconfig) (h : (o : Op) → o.Res)
    (hd : (h (.ifNametoindex devname.name)).1 ≠ 0) :
    ∃ msg, ((q.body p).trace h).filterMap Op.sent? = [msg] ∧ ∀ m : Image, m.Has 0 msg →
      RoundTrip m msg.length (h (.ifNametoindex devname.name)).1 vndname index flagconfig := by
  have hname : ∀ v : DevName, nameOk (some v.name) = true := by
    intro v
    have := v.short
    simp [nameOk, rmnetctlCheckDevName, not_le.mpr this]
  have hvalid : (nameOk (some vndname.name) && nameOk (some devname.name)) = true := by rw [hname, hname]; rfl
  have hqueues := gives_putU32 (t := rmnetIflaNumTxQueues) (by decide) rmnetctlNumTxQueues (by decide : Fits [].length 4)
  rcases List.mem_cons.mp hq with rfl | hq
  · -- A new link also gets a number of queues, in front of the other attributes.
    obtain ⟨req, hreq, hsent⟩ := newlinkCall_sent vndname.name nlmFRequestCreate
      (fun devindex vndname => do
        Fill.put (rtaPutU32 (.ofNat rmnetIflaNumTxQueues) rmnetctlNumTxQueues)
        rmnetFillNewlinkMsg devindex vndname index flagconfig)
      hp hvalid hd (.bind hqueues (rmnetFillNewlinkMsg_gives (by decide)))
    refine ⟨_, hsent, fun m hm => roundTrip_of_holds [_] (by simpa using hreq) ?_ hm⟩
    intro x hx
    rw [List.mem_singleton.mp hx]
    decide
  · obtain rfl := List.mem_singleton.mp hq
    obtain ⟨req, hreq, hsent⟩ := newlinkCall_sent vndname.name nlmFRequestAck
      (fun devindex vndname => rmnetFillNewlinkMsg devindex vndname index flagconfig)
      hp hvalid hd (rmnetFillNewlinkMsg_gives (by decide))
    exact ⟨_, hsent, fun m hm => roundTrip_of_holds [] hreq (by simp) hm⟩

/-- The rule at a call: link `rmnet_data0` of `rmnet_ipa0`, with MUX ID 1 and flags. -/
theorem link_message_round_trip_data0 :
    ∃ msg, ((rtrmnetCtlNewvnd ⟨true, true⟩ (some rmnetIpa0.name) (some rmnetData0.name) 1 0x5).trace
        (surroundings []).answer).filterMap Op.sent? = [msg] ∧ ∀ m : Image, m.Has 0 msg →
      RoundTrip m msg.length 7 rmnetData0 1 0x5 :=
  link_message_round_trip ⟨true, true⟩ rfl rmnetIpa0 rmnetData0 1 0x5
    (.newvnd (some rmnetIpa0.name) (some rmnetData0.name) 1 0x5) (by simp [sendsLink]) (surroundings []).answer (by decide)

end Pixel845.Rmnet
