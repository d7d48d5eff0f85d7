import Pixel845.Lemmas.RmnetCli
import Pixel845.Lemmas.RmnetLegacy
import Pixel845.Theorems.RmnetCommands
import Pixel845.Theorems.RmnetRoundTrip

/-!
# Numbers as they are typed

A number on the command line is read as a `long`, cast by one of four macros and converted to the type of a parameter. Nothing
compares it with what was typed: a message says the residues of the numbers (`said_residue`).
-/

namespace Pixel845.Rmnet

/-! ## What a message says -/

/-- The arguments of a command that are numbers, in order, with the narrowest type that each goes through. -/
def CliCommand.numeric : CliCommand → List (Use × IntType)
  | .newlink => [(.l 3, .u8), (.optL 4, .u32)]
  | .changelink => [(.l 3, .u8), (.l 4, .u32)]
  | .uplinkparam => [(.ul 3, .u8), (.ul 4, .u16), (.ul 5, .u32)]
  | .flowactivate => [(.ul 3, .u8), (.l 4, .u32), (.ul 5, .i32), (.ul 6, .u32)]
  | .flowdel => [(.ul 3, .u8), (.ul 4, .u32), (.l 5, .i32)]
  | .flowcontrol => [(.ul 3, .u8), (.ul 4, .u16), (.ul 5, .u16), (.ul 6, .u8)]
  | .systemup => [(.ul 3, .u32), (.ul 4, .u32), (.ul 5, .u32), (.ul 6, .i32)]
  | .systemdown | .qmiscale | .wdafreq => [(.ul 3, .u32)]
  | .newvndPrefix | .newvndname | .newvnd | .getvndname | .freevnd => [(.ul 1, .u32)]
  | .setlidf => [(.ul 1, .u32), (.ul 2, .u8)]
  | .delvnctcflow | .addvnctcflow => [(.ul 1, .u32), (.ul 2, .u32), (.ul 3, .u32)]
  | .getlepc | .unsetlepc => [(.l 1, .i32)]
  | .setledf => [(.ul 1, .u32), (.ul 2, .u16), (.ul 3, .u16)]
  | .setlepc => [(.l 1, .i32), (.ul 2, .u8)]
  | .getlink | .dellink | .bridge | .assocnetdev | .unassocnetdev | .getnetdevassoc | .getledf | .getlidf => []

/-- Where the numbers of a legacy command stand in `struct rmnet_nl_msg_s`, which follows a netlink header of 16 bytes. -/
def CliCommand.offsets : CliCommand → List Nat
  | .newvndPrefix | .newvndname | .newvnd | .getvndname | .freevnd => [8]
  | .setlidf => [24, 32]
  | .delvnctcflow | .addvnctcflow => [8, 12, 16]
  | .getlepc | .unsetlepc => [24]
  | .setledf => [24, 28, 30]
  | .setlepc => [24, 28]
  | _ => []

/-- The numbers of a flow or uplink command. -/
def Command.numbers : Command → List Int
  | .activateFlow bearerId flowId ipType tcmHandle => [bearerId.toNat, flowId.toNat, ipType.toInt32.toInt, tcmHandle.toNat]
  | .deleteFlow bearerId flowId ipType => [bearerId.toNat, flowId.toNat, ipType.toInt32.toInt]
  | .controlFlow bearerId sequence grantsize ack => [bearerId.toNat, sequence.toNat, grantsize.toNat, ack.toNat]
  | .flowStateUp inst epType ifaceid flags => [inst.toNat, epType.toNat, ifaceid.toNat, flags.toInt32.toInt]
  | .flowStateDown inst => [inst.toNat]
  | .setQmiScale scale => [scale.toNat]
  | .setWdaFreq freq => [freq.toNat]
  | .setUplinkAggregationParams packetCount byteCount timeLimit _ => [packetCount.toNat, byteCount.toNat, timeLimit.toNat]

/-- The MUX ID and the flags of a link, which are not in the message if they are zero. -/
def linkNumbers (m : Image) (tb : Table) : List Int :=
  [((tb.entries rmnetctlIflaMuxId).map fun attr => (m.nat (attr + 4) 2 : Int)).getD 0,
    ((tb.entries rmnetctlIflaFlags).map fun attr => (m.nat (attr + 4) 4 : Int)).getD 0]

/-- The numbers that a message of a command says. -/
def said (c : CliCommand) (msg : List UInt8) : List Int :=
  match c with
  | .newlink | .changelink => ((readLinkTable.run (Image.ofBytes msg).load).map (linkNumbers (Image.ofBytes msg))).getD []
  | .uplinkparam | .flowactivate | .flowdel | .flowcontrol | .systemup | .systemdown | .qmiscale | .wdafreq =>
    ((decode (Image.ofBytes msg)).map fun s => s.command.numbers).getD []
  | c => c.offsets.zipWith (fun off p => p.2.wrap ((Image.ofBytes msg).nat (16 + off) p.2.width)) c.numeric

/-- The value of a number that is used. -/
def Use.value (a : Values) : Use → Int
  | .str _ => 0
  | .ul k => a.ul k
  | .l k | .optL k => a.l k

/-- `strtoul` or `strtol` gives the integer of an argument without an overflow of 64 bits. -/
def Use.Accepts : Use → Int → Prop
  | .str _, _ => True
  | .ul _, n => n.natAbs < 2 ^ 64
  | .l _, n | .optL _, n => -2 ^ 63 ≤ n ∧ n < 2 ^ 63

/-- The numbers among the arguments of a command are accepted. -/
def Accepted (args : List CString) (base : Nat) (c : CliCommand) : Prop :=
  ∀ p ∈ c.numeric, ∀ s, args[base + p.1.index]? = some s → ∃ n, numeral s.bytes = some n ∧ p.1.Accepts n

/-- The number at a place among those of a command, and its type, if its macro does not cut off what its parameter has room for:
for the grant size of `flowcontrol` the macro has 16 bits and the parameter 32, and for the sequence number in front of it the
other way round. -/
def CliCommand.number (c : CliCommand) (i : Nat) : Option (Use × IntType) :=
  if c = .flowcontrol ∧ i = 2 then none else c.numeric[i]?

/-- A message says the numbers that were typed. -/
def AsTyped (args : List CString) (base : Nat) (c : CliCommand) (msg : List UInt8) : Prop :=
  ∀ (i : Nat) (p : Use × IntType), c.numeric[i]? = some p → ∀ s : CString, args[base + p.1.index]? = some s →
    (said c msg)[i]? = numeral s.bytes

namespace CliNumbersAux

variable {args : List CString} {base : Nat} {c : CliCommand} {a : Values} {t : Events} {x : Outcome} {msg : List UInt8}

/-- The numbers of a call: the residues of the values. -/
def residues (c : CliCommand) (a : Values) : List Int := c.numeric.map fun p => p.2.wrap (p.1.value a)

/-! ### Conversions -/

theorem toNat_strtoui8 (v : Nat) : ((strtoui8 v).toNat : Int) = IntType.u8.wrap v := by
  simp [strtoui8, IntType.wrap]

theorem toNat_strtoui16 (v : Nat) : ((strtoui16 v).toNat : Int) = IntType.u16.wrap v := by
  simp [strtoui16, IntType.wrap]

theorem toNat_strtoui32 (v : Nat) : ((strtoui32 v).toNat : Int) = IntType.u32.wrap v := by
  simp [strtoui32, IntType.wrap]

theorem toNat_strtoui32_u16 (v : Nat) : ((strtoui32 v).toUInt16.toNat : Int) = IntType.u16.wrap v := by
  simp [strtoui32, IntType.wrap]

theorem toNat_strtoui16_u32 (v : Nat) : ((strtoui16 v).toUInt32.toNat : Int) = IntType.u16.wrap v := by
  simp [strtoui16, IntType.wrap]

theorem toInt_strtoui32 (v : Nat) : (strtoui32 v).toInt32.toInt = IntType.i32.wrap v := by
  simp [strtoui32, IntType.wrap]

/-- The macro wraps into 32 bits with a sign. -/
theorem toInt_strtoi32 (v : Int) : (strtoi32 v).toInt = IntType.i32.wrap v := by
  simp [strtoi32, IntType.wrap]

theorem toNat_strtoi32 (v : Int) : ((strtoi32 v).toUInt32.toNat : Int) = IntType.u32.wrap v := by
  change ((BitVec.ofInt 32 v).toNat : Int) = _
  rw [BitVec.toNat_ofInt]
  simp only [IntType.wrap]
  omega

theorem toNat_strtoi32_u8 (v : Int) : ((strtoi32 v).toUInt32.toUInt8.toNat : Int) = IntType.u8.wrap v := by
  have h := toNat_strtoi32 v
  rw [UInt32.toNat_toUInt8]
  simp only [IntType.wrap] at h ⊢
  omega

/-! ### Legacy messages -/

section Legacy

variable {q : LegacyCall} {r : LegacyRequest} {stack request : Image} {nums : List Piece}

/-- What a legacy call sends is the message for its request. -/
theorem legacy_message (hx : (legacyCall (q.call given)).Exec t x) (hmsg : msg ∈ sent t) :
    ∃ r stack request seq pid, q.call given = some r ∧ r.request stack = .ok request ∧ msg = transactMessage seq pid request := by
  have hends := legacy_ends hx
  generalize sent t = ms at hends hmsg
  generalize received t = ms' at hends
  cases hends with
  | invalid | refused => cases hmsg
  | failed hc hr hu hh ht =>
    cases ht with
    | unsent => cases hmsg
    | unanswered | mistyped => exact ⟨_, _, _, _, _, hc, hr, List.mem_singleton.mp hmsg⟩
  | answered hc hr hu hh htype hb => exact ⟨_, _, _, _, _, hc, hr, List.mem_singleton.mp hmsg⟩

/-- A number that is written behind the names stands in the message. -/
theorem field_wrap (front : List Piece) (seq pid : UInt32) (hc : q.call given = some r) (hr : r.request stack = .ok request)
    (hf : q.fields = front ++ nums) (hp : nums.Pairwise Piece.Apart) (ty : IntType) {off v : Nat} {z : Int}
    (hx : .bytes off (leBytes ty.width v) ∈ nums)
    (hv : ty.wrap v = ty.wrap z) :
    ty.wrap ((Image.ofBytes (transactMessage seq pid request)).nat (16 + off) ty.width) = ty.wrap z := by
  have hbetween := fields_between q (.bytes off (leBytes ty.width v)) (hf ▸ List.mem_append_right _ hx)
  obtain ⟨pre, post, hsplit⟩ := List.append_of_mem hx
  rw [hsplit, List.pairwise_append, List.pairwise_cons] at hp
  rw [request_eq hc, LegacyCall.pieces, hf, hsplit, ← List.append_assoc, ← List.append_assoc] at hr
  have hhas := stored_has hr hp.2.1.1
  rw [content_bytes] at hbetween hhas
  have hmsg : (Image.ofBytes (transactMessage seq pid request)).Has (16 + off) _ := transactMessage_has hhas (by omega) (by omega)
  rw [hmsg.nat_eq, IntType.wrap_width, hv]

theorem wrap_strtoui8 (v : Nat) : IntType.u8.wrap ((strtoui8 v).toNat : Nat) = IntType.u8.wrap v := by
  rw [toNat_strtoui8, IntType.wrap_wrap]

theorem wrap_strtoui16 (v : Nat) : IntType.u16.wrap ((strtoui16 v).toNat : Nat) = IntType.u16.wrap v := by
  rw [toNat_strtoui16, IntType.wrap_wrap]

theorem wrap_strtoui32 (v : Nat) : IntType.u32.wrap ((strtoui32 v).toNat : Nat) = IntType.u32.wrap v := by
  rw [toNat_strtoui32, IntType.wrap_wrap]

theorem wrap_strtoi32 (v : Int) : IntType.i32.wrap ((strtoi32 v).toUInt32.toNat : Nat) = IntType.i32.wrap v := by
  rw [toNat_strtoi32, IntType.wrap_i32_u32]

/-- A byte is its own text. -/
theorem leBytes_one (b : UInt8) : leBytes IntType.u8.width b.toNat = [b] := by
  simp [IntType.width, leBytes]

/-- A message of a legacy command says the residues. -/
theorem legacy_said {q : LegacyCall} (hq : c.call a = .legacy given q) (hx : (c.call a).body.Exec t x) (hmsg : msg ∈ sent t) :
    said c msg = residues c a := by
  rw [hq] at hx
  obtain ⟨r, stack, request, seq, pid, hc, hr, rfl⟩ := legacy_message hx hmsg
  cases c with
  | assocnetdev | unassocnetdev | getnetdevassoc | getledf | getlidf => rfl
  | newvndPrefix | newvndname | newvnd | freevnd =>
    cases hq
    have h := field_wrap (.bytes 12 _ :: nameField 12 _) seq pid hc hr rfl (List.pairwise_singleton _ _) .u32
      (List.mem_singleton.mpr rfl) (wrap_strtoui32 (a.ul 1))
    exact congrArg (fun n => [n]) h
  | getvndname =>
    cases hq
    have h := field_wrap [] seq pid hc hr rfl (List.pairwise_singleton _ _) .u32 (List.mem_singleton.mpr rfl)
      (wrap_strtoui32 (a.ul 1))
    exact congrArg (fun n => [n]) h
  | getlepc | unsetlepc =>
    cases hq
    have h := field_wrap (nameField 8 _) seq pid hc hr rfl (List.pairwise_singleton _ _) .i32 (List.mem_singleton.mpr rfl)
      (wrap_strtoi32 (a.l 1))
    exact congrArg (fun n => [n]) h
  | delvnctcflow | addvnctcflow =>
    cases hq
    have hp : ([.bytes 8 (leBytes 4 (strtoui32 (a.ul 1)).toNat), .bytes 12 (leBytes 4 (strtoui32 (a.ul 2)).toNat),
        .bytes 16 (leBytes 4 (strtoui32 (a.ul 3)).toNat)] : List Piece).Pairwise Piece.Apart := by
      simp [Piece.Apart]
    have h1 := field_wrap [] seq pid hc hr rfl hp .u32 (.head _) (wrap_strtoui32 (a.ul 1))
    have h2 := field_wrap [] seq pid hc hr rfl hp .u32 (.tail _ (.head _)) (wrap_strtoui32 (a.ul 2))
    have h3 := field_wrap [] seq pid hc hr rfl hp .u32 (.tail _ (.tail _ (.head _))) (wrap_strtoui32 (a.ul 3))
    exact congrArg₂ List.cons h1 (congrArg₂ List.cons h2 (congrArg₂ List.cons h3 rfl))
  | setlidf =>
    cases hq
    have hp : ([.bytes 24 (leBytes 4 (strtoui32 (a.ul 1)).toNat), .bytes 32 [strtoui8 (a.ul 2)]] : List Piece).Pairwise
        Piece.Apart := by
      simp [Piece.Apart]
    have h1 := field_wrap (nameField 8 _) seq pid hc hr rfl hp .u32 (.head _) (wrap_strtoui32 (a.ul 1))
    have h2 := field_wrap (nameField 8 _) seq pid hc hr rfl hp .u8 (by rw [leBytes_one]; exact .tail _ (.head _))
      (wrap_strtoui8 (a.ul 2))
    exact congrArg₂ List.cons h1 (congrArg₂ List.cons h2 rfl)
  | setledf =>
    cases hq
    have hp : ([.bytes 24 (leBytes 4 (strtoui32 (a.ul 1)).toNat), .bytes 28 (leBytes 2 (strtoui16 (a.ul 2)).toNat),
        .bytes 30 (leBytes 2 (strtoui16 (a.ul 3)).toNat)] : List Piece).Pairwise Piece.Apart := by
      simp [Piece.Apart]
    have h1 := field_wrap (nameField 8 _) seq pid hc hr rfl hp .u32 (.head _) (wrap_strtoui32 (a.ul 1))
    have h2 := field_wrap (nameField 8 _) seq pid hc hr rfl hp .u16 (.tail _ (.head _)) (wrap_strtoui16 (a.ul 2))
    have h3 := field_wrap (nameField 8 _) seq pid hc hr rfl hp .u16 (.tail _ (.tail _ (.head _))) (wrap_strtoui16 (a.ul 3))
    exact congrArg₂ List.cons h1 (congrArg₂ List.cons h2 (congrArg₂ List.cons h3 rfl))
  | setlepc =>
    cases hq
    have hp : ([epPiece (strtoi32 (a.l 1)), .bytes 28 [strtoui8 (a.ul 2)]] : List Piece).Pairwise Piece.Apart := by
      simp [Piece.Apart, epPiece]
    have hf : (LegacyCall.setLogicalEpConfig (strtoi32 (a.l 1)) (strtoui8 (a.ul 2)) (a.str 3) (a.str 4)).fields =
        (nameField 8 (a.str 3) ++ nameField 29 (a.str 4)) ++ [epPiece (strtoi32 (a.l 1)), .bytes 28 [strtoui8 (a.ul 2)]] := by
      rw [List.append_assoc]
      rfl
    have h1 := field_wrap _ seq pid hc hr hf hp .i32 (.head _) (wrap_strtoi32 (a.l 1))
    have h2 := field_wrap _ seq pid hc hr hf hp .u8 (by rw [leBytes_one]; exact .tail _ (.head _)) (wrap_strtoui8 (a.ul 2))
    exact congrArg₂ List.cons h1 (congrArg₂ List.cons h2 rfl)
  | _ => cases hq

end Legacy

/-! ### Link, flow and uplink messages -/

section Link

variable {q : RtmCall} {d v : Option CString} {valid : Bool} {flags : Nat} {fill : UInt32 → CString → Fill Unit}

/-- What a call for a link sends is filled for a link whose name is short. -/
theorem newlink_message (bs : UInt32 → DevName → List UInt8) (hx : (Call.rtm given q).body.Exec t x) (hmsg : msg ∈ sent t)
    (hq : q.request given = newlinkRequest given d v valid flags fill) (hvalid : valid = true → nameOk v = true)
    (hfill : ∀ index (w : DevName), (fill index w.name).Gives [] () (bs index w)) :
    ∃ index w req, Holds req (bs index w) ∧ msg = req.message := by
  rw [Call.body, body_eq, hq] at hx
  unfold newlinkRequest at hx
  split at hx
  · rename_i devname vndname
    split at hx
    · rename_i hok
      have hname := hvalid (Bool.and_eq_true_iff.mp hok).2
      have hrefused : rmnetMaxStrLen ≤ vndname.strlen → rmnetctlInvalidArg = rmnetctlSuccess := by
        simpa [nameOk, rmnetctlCheckDevName] using hname
      have hshort : vndname.strlen < rmnetMaxStrLen := not_le.mp fun hl => absurd (hrefused hl) (by decide)
      obtain ⟨stack, seq, index, errno, -, hsent⟩ := rtmCall_sent rfl silent_rmnetGetAck hx
      rw [hsent] at hmsg
      split at hmsg
      · cases hmsg
      · obtain ⟨req, hreq, hholds⟩ := hfill index ⟨vndname, hshort⟩ _ (initReq_holds stack rtmNewlink flags seq)
        refine ⟨index, ⟨vndname, hshort⟩, req, hholds, ?_⟩
        rw [List.mem_singleton.mp hmsg]
        change (fill index vndname _).2.message = _
        exact congrArg (fun y => (Prod.snd y).message) hreq
    · cases hx
      cases hmsg
  · cases hx
    cases hmsg

/-- Memory made of some bytes has them. -/
theorem has_ofBytes (msg : List UInt8) : (Image.ofBytes msg).Has 0 msg := Image.has_write _ _ _

/-- A message for a command decodes to it. -/
theorem flow_decoded (k : Command) (hx : (Call.rtm given q).body.Exec t x) (hmsg : msg ∈ sent t)
    (hq : q.request given = newlinkRequest given d v valid nlmFRequestAck fun devindex vndname =>
      fillLinkParams devindex vndname (CommandsAux.param k).1 (CommandsAux.param k).2)
    (hvalid : valid = true → nameOk v = true) :
    ((decode (Image.ofBytes msg)).map fun s => s.command.numbers).getD [] = k.numbers := by
  have ht : (CommandsAux.param k).1 < 2 ^ 16 := by rcases CommandsAux.param_type k with h | h <;> rw [h] <;> decide
  obtain ⟨index, w, req, hholds, rfl⟩ :=
    newlink_message (fun index w => [] ++ Rta.encode (CommandsAux.attrs index w k)) hx hmsg hq hvalid
    fun index w => fillLinkParams_gives (by decide) ht (CommandsAux.param_length k)
  rw [CommandsAux.decode_of_frames (frames_of_holds hholds (has_ofBytes _))]
  rfl

/-- A message for a link says its MUX ID and its flags. -/
theorem link_decoded {index : UInt8} {flagconfig : UInt32} (hx : (Call.rtm given q).body.Exec t x) (hmsg : msg ∈ sent t)
    (hq : q = .newvnd d v index flagconfig ∨ q = .changevnd d v index flagconfig) :
    ((readLinkTable.run (Image.ofBytes msg).load).map (linkNumbers (Image.ofBytes msg))).getD [] =
      [(index.toNat : Int), (flagconfig.toNat : Int)] := by
  have hnumbers {m : Image} {len : Nat} {d : UInt32} {w : DevName} (h : RoundTrip m len d w index flagconfig) :
      ((readLinkTable.run m.load).map (linkNumbers m)).getD [] = [(index.toNat : Int), (flagconfig.toNat : Int)] := by
    obtain ⟨linkinfo, datainfo, tb, -, -, -, -, htb, ⟨o, ho, hmux⟩, hsome, hflags⟩ := h.nested
    rw [htb, Option.map_some, Option.getD_some, linkNumbers, ho, Option.map_some, Option.getD_some, hmux]
    cases hf : tb.entries rmnetctlIflaFlags with
    | none =>
      have h0 : flagconfig = 0 := by
        rw [hf] at hsome
        simpa using hsome
      rw [h0]
      rfl
    | some o' => rw [Option.map_some, Option.getD_some, (hflags o' hf).1]
  have hqueues := gives_putU32 (t := rmnetIflaNumTxQueues) (by decide) rmnetctlNumTxQueues (by decide : Fits [].length 4)
  have hlink (bs : List UInt8) (hb : bs.length ≤ 100) (i : UInt32) (w : DevName) :
      (rmnetFillNewlinkMsg i w.name index flagconfig).Gives bs ()
      (bs ++ Rta.encode (linkAttrs i w (vndParams index flagconfig))) :=
    rmnetFillNewlinkMsg_gives hb
  rcases hq with rfl | rfl
  · let queues := numAttr rmnetIflaNumTxQueues 4 rmnetctlNumTxQueues.toNat (by decide)
    have hq : (RtmCall.newvnd d v index flagconfig).request given = newlinkRequest given d v (nameOk v && nameOk d)
      nlmFRequestCreate
        fun devindex vndname =>
          Fill.put (rtaPutU32 (.ofNat rmnetIflaNumTxQueues) rmnetctlNumTxQueues) >>= fun _ =>
            rmnetFillNewlinkMsg devindex vndname index flagconfig := rfl
    obtain ⟨i, w, req, hholds, rfl⟩ := newlink_message
      (fun i w => ([] ++ queues.bytes) ++ Rta.encode (linkAttrs i w (vndParams index flagconfig))) hx hmsg hq
      (fun h => (Bool.and_eq_true_iff.mp h).1) fun i w => .bind hqueues (hlink ([] ++ queues.bytes) (by decide) i w)
    refine hnumbers (RoundTripAux.roundTrip_of_holds [queues] (by simpa using hholds) ?_ (has_ofBytes _))
    intro x hx
    rw [List.mem_singleton.mp hx]
    decide
  · have hq : (RtmCall.changevnd d v index flagconfig).request given = newlinkRequest given d v (nameOk v && nameOk d)
      nlmFRequestAck
        fun devindex vndname => rmnetFillNewlinkMsg devindex vndname index flagconfig := rfl
    obtain ⟨i, w, req, hholds, rfl⟩ := newlink_message
      (fun i w => [] ++ Rta.encode (linkAttrs i w (vndParams index flagconfig))) hx hmsg hq
      (fun h => (Bool.and_eq_true_iff.mp h).1)
      (hlink [] (by decide))
    exact hnumbers (RoundTripAux.roundTrip_of_holds [] hholds (by simp) (has_ofBytes _))

end Link

/-- A message of a command says the residues of what was used. -/
theorem said_eq (hx : (c.call a).body.Exec t x) (hmsg : msg ∈ sent t) : said c msg = residues c a := by
  have hvalid {d v : Option CString} {b : Bool} : (nameOk d && nameOk v && b) = true → nameOk v = true := by
    intro h
    exact (Bool.and_eq_true_iff.mp (Bool.and_eq_true_iff.mp h).1).2
  cases c with
  | newlink =>
    refine (link_decoded hx hmsg (.inl rfl)).trans ?_
    rw [toNat_strtoi32_u8, toNat_strtoi32]
    rfl
  | changelink =>
    refine (link_decoded hx hmsg (.inr rfl)).trans ?_
    rw [toNat_strtoi32_u8, toNat_strtoi32]
    rfl
  | uplinkparam =>
    refine (flow_decoded (.setUplinkAggregationParams _ _ _ _) hx hmsg rfl fun h => (Bool.and_eq_true_iff.mp h).2).trans ?_
    rw [Command.numbers, toNat_strtoui8, toNat_strtoui16, toNat_strtoui32]
    rfl
  | flowactivate =>
    refine (flow_decoded (.activateFlow _ _ _ _) hx hmsg rfl hvalid).trans ?_
    rw [Command.numbers, toNat_strtoui8, toNat_strtoi32, toInt_strtoui32, toNat_strtoui32]
    rfl
  | flowdel =>
    refine (flow_decoded (.deleteFlow _ _ _) hx hmsg rfl hvalid).trans ?_
    have hint : (strtoi32 (a.l 5)).toUInt32.toInt32.toInt = IntType.i32.wrap (a.l 5) := toInt_strtoi32 _
    rw [Command.numbers, toNat_strtoui8, toNat_strtoui32, hint]
    rfl
  | flowcontrol =>
    refine (flow_decoded (.controlFlow _ _ _ _) hx hmsg rfl hvalid).trans ?_
    rw [Command.numbers, toNat_strtoui8, toNat_strtoui32_u16, toNat_strtoui16_u32, toNat_strtoui8]
    rfl
  | systemup =>
    refine (flow_decoded (.flowStateUp _ _ _ _) hx hmsg rfl hvalid).trans ?_
    rw [Command.numbers, toNat_strtoui32, toNat_strtoui32, toNat_strtoui32, toInt_strtoui32]
    rfl
  | systemdown =>
    refine (flow_decoded (.flowStateDown _) hx hmsg rfl hvalid).trans ?_
    rw [Command.numbers, toNat_strtoui32]
    rfl
  | qmiscale =>
    refine (flow_decoded (.setQmiScale _) hx hmsg rfl hvalid).trans ?_
    rw [Command.numbers, toNat_strtoui32]
    rfl
  | wdafreq =>
    refine (flow_decoded (.setWdaFreq _) hx hmsg rfl hvalid).trans ?_
    rw [Command.numbers, toNat_strtoui32]
    rfl
  | getlink | dellink | bridge => rfl
  | _ => exact legacy_said rfl hx hmsg

/-! ### Values -/

/-- A number of a command is one that it reads. -/
theorem numeric_used (c : CliCommand) : ∀ p ∈ c.numeric, p.1 ∈ c.uses := by
  cases c <;> decide

/-- What a number that is used leaves in a type is what the integer leaves. -/
theorem value_wrap {us : List Use} {u : Use} {ty : IntType} {s : CString} {n : Int} (ha : ValuesOf args base us a) (hu : u ∈ us)
    (hs : args[base + u.index]? = some s) (hn : numeral s.bytes = some n) (hacc : u.Accepts n) (hstr : ∀ k, u ≠ .str k) :
    ty.wrap (u.value a) = ty.wrap n := by
  cases u with
  | str k => exact absurd rfl (hstr k)
  | ul k => rw [Use.value, ha.ul k s hu hs, strtoul_of_numeral hn hacc, IntType.wrap_emod]
  | l k => rw [Use.value, ha.l k s (.inl hu) hs, strtol_of_numeral hn hacc.1 hacc.2]
  | optL k => rw [Use.value, ha.l k s (.inr hu) hs, strtol_of_numeral hn hacc.1 hacc.2]

/-- A number of a command is no string. -/
theorem numeric_not_str (c : CliCommand) : ∀ p ∈ c.numeric, ∀ k, p.1 ≠ .str k := by
  cases c <;> simp [CliCommand.numeric]

/-- A call is made for the command of the words, with the values of its arguments. -/
theorem called {tc : CliEvents} {rc : Int} {q : Call} {y : Outcome × List (List UInt8)}
    (hx : (rmnetApiCall args.length).Exec tc rc) (hc : Conforms args tc) (hp : parse args = some (base, c))
    (hcall : ⟨.call q, y⟩ ∈ tc) :
    ∃ a, q = c.call a ∧ ValuesOf args base c.uses.reverse a := by
  have hends := cli_ends hx hc
  clear hx hc
  have hidle {t : CliEvents} (h : ∀ e ∈ t, Idle args e) : (⟨.call q, y⟩ : Prog.Event CliOp.Res) ∉ t := fun hm => nomatch h _ hm
  cases hends with
  | closed idle quiet => exact absurd hcall (hidle idle)
  | forgotten idle opened hn => rw [hn] at hp; cases hp
  | @branch t₁ t₂ _ base' c' idle opened hb hp' hx hc =>
    rw [hp'] at hp
    obtain ⟨c'', rfl, heq⟩ := Option.map_eq_some_iff.mp hp
    cases heq
    have hcall := (List.mem_append.mp hcall).resolve_left (hidle idle)
    have hends := command_ends hx hc hb
    clear hx
    cases hends with
    | missing few idle quiet =>
      rcases List.mem_append.mp hcall with h | h
      · exact absurd h (hidle idle)
      · simp at h
    | noMemory enough hl idle quiet e =>
      rcases List.mem_append.mp hcall with h | h
      · exact absurd h (hidle idle)
      · simp at h
    | called enough idle quiet uses x ms e =>
      obtain ⟨-, hc2⟩ := conforms_append hc
      obtain ⟨hc3, -⟩ := conforms_append hc2
      have hvalues := evaluated uses hc3 (valuesOf_nil {})
      rw [List.append_nil] at hvalues
      refine ⟨_, ?_, hvalues⟩
      rcases List.mem_append.mp hcall with h | h
      · rcases idle _ h with hi | hi
        · cases hi
        · cases hi
      · rcases List.mem_append.mp h with h | h
        · exact absurd h ((evalUses_events uses).calls _ _)
        · rcases List.mem_cons.mp h with h | h
          · cases h
            rfl
          · simp at h

end CliNumbersAux

open CliNumbersAux

variable {args : List CString} {t : CliEvents} {rc : Int} {base : Nat} {c : CliCommand} {q : Call} {x : Outcome}
  {ms : List (List UInt8)} {msg : List UInt8}

/-- Whatever the operations answer: if the numbers among the arguments of a command are accepted, each message that is sent for
the command says the residues of the integers that were typed in the narrowest types they go through, and so it says an integer
itself exactly when it is one of this type. -/
theorem said_residue (hx : (rmnetApiCall args.length).Exec t rc) (hc : Conforms args t) (hp : parse args = some (base, c))
    (hacc : Accepted args base c) (hcall : ⟨.call q, (x, ms)⟩ ∈ t) (hmsg : msg ∈ ms) {i : Nat} {p : Use × IntType}
    {s : CString} {n : Int}
    (hi : c.number i = some p) (hs : args[base + p.1.index]? = some s)
    (hn : numeral s.bytes = some n) :
    (said c msg)[i]? = some (p.2.wrap n) ∧ ((said c msg)[i]? = some n ↔ p.2.Has n) := by
  obtain ⟨a, rfl, ha⟩ := called hx hc hp hcall
  obtain ⟨t', hbody, hsent⟩ := hc.call _ _ hcall
  change sent t' = ms at hsent
  have hsaid := said_eq hbody (hsent ▸ hmsg)
  unfold CliCommand.number at hi
  split at hi
  · cases hi
  have hmem := List.mem_of_getElem? hi
  obtain ⟨n', hn', hacc⟩ := hacc p hmem s hs
  obtain rfl := Option.some.inj (hn.symm.trans hn')
  have hwrap : p.2.wrap (p.1.value a) = p.2.wrap n :=
    value_wrap ha (List.mem_reverse.mpr (numeric_used c p hmem)) hs hn hacc (numeric_not_str c p hmem)
  have hresidue : (said c msg)[i]? = some (p.2.wrap n) := by
    rw [hsaid, residues, List.getElem?_map, hi, Option.map_some, hwrap]
  refine ⟨hresidue, ?_⟩
  rw [hresidue, Option.some_inj]
  exact IntType.wrap_eq_iff _ _

/-- `-n newlink rmnet_ipa0 rmnet_data0` with a MUX ID. -/
def newlink (muxId : CString) : List CString :=
  [dashN, ⟨ascii "newlink", by decide⟩, rmnetIpa0.name, rmnetData0.name, muxId]

/-- The call of such a command line. -/
def newlinkOf (muxId : CString) : Call :=
  .rtm given (.newvnd (some rmnetIpa0.name) (some rmnetData0.name) (strtoi32 (Pixel845.strtol muxId.bytes)).toUInt32.toUInt8
    (strtoi32 0).toUInt32)

/-- The messages of such a command line. -/
def newlinkMessages (muxId : CString) : List (List UInt8) := sent ((surroundings []).events (newlinkOf muxId).body)

/-- A new link sends its message. -/
theorem newlink_called (muxId : CString) :
    ⟨.call (newlinkOf muxId), ((newlinkOf muxId).body.run (surroundings []).answer, newlinkMessages muxId)⟩ ∈
      (typed (newlink muxId)).events :=
  List.mem_of_getElem? (i := 11) rfl

/-- A new link is accepted whatever the number is. -/
theorem accepted_newlink {muxId : CString} {n : Int} (hn : numeral muxId.bytes = some n) (hlo : -2 ^ 63 ≤ n) (hhi : n < 2 ^ 63) :
    Accepted (newlink muxId) 1 .newlink := by
  intro p hp s hs
  obtain rfl | rfl : p = (.l 3, .u8) ∨ p = (.optL 4, .u32) := by simpa [CliCommand.numeric] using hp
  · cases hs
    exact ⟨n, hn, hlo, hhi⟩
  · cases hs

/-- The MUX ID 257 -/
def mux257 : CString := ⟨ascii "257", by decide⟩

/-- The rule at a link with MUX ID 257, whose message says 1. -/
theorem said_residue_257 : ∃ msg ∈ newlinkMessages mux257,
    (said .newlink msg)[0]? = some (IntType.u8.wrap 257) ∧ ((said .newlink msg)[0]? = some 257 ↔ IntType.u8.Has 257) := by
  have hsome : newlinkMessages mux257 ≠ [] := by decide +kernel
  obtain ⟨msg, hmsg⟩ := List.exists_mem_of_ne_nil _ hsome
  have h257 : numeral mux257.bytes = some 257 := by decide
  have hnumber : CliCommand.newlink.number 0 = some (.l 3, .u8) := rfl
  exact ⟨msg, hmsg, said_residue (typed (newlink mux257)).exec (typed _).conforms (by decide)
    (accepted_newlink h257 (by decide) (by decide)) (newlink_called mux257) hmsg hnumber rfl h257⟩

/-- The message of a link with MUX ID 257 does not say 257. -/
theorem not_typed :
    ¬∀ (args : List CString) (t : CliEvents) (rc : Int) (base : Nat) (c : CliCommand) (q : Call) (x : Outcome)
      (ms : List (List UInt8)) (msg : List UInt8), (rmnetApiCall args.length).Exec t rc → Conforms args t →
        parse args = some (base, c) → Accepted args base c → ⟨.call q, (x, ms)⟩ ∈ t → msg ∈ ms → AsTyped args base c msg := by
  intro h
  have hsome : newlinkMessages mux257 ≠ [] := by decide +kernel
  have hone : ∀ msg ∈ newlinkMessages mux257, (said .newlink msg)[0]? = some 1 := by decide +kernel
  obtain ⟨msg, hmsg⟩ := List.exists_mem_of_ne_nil _ hsome
  have h257 : numeral mux257.bytes = some 257 := by decide
  have htyped := h _ _ _ 1 .newlink _ _ _ msg (typed (newlink mux257)).exec (typed _).conforms (by decide)
    (accepted_newlink h257 (by decide) (by decide)) (newlink_called mux257) hmsg
  have heq := (hone msg hmsg).symm.trans (htyped 0 (.l 3, .u8) rfl mux257 rfl)
  rw [h257] at heq
  cases heq

end Pixel845.Rmnet
