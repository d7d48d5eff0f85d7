import Pixel845.Lemmas.RmnetCall
import Pixel845.Lemmas.RmnetLink
import Pixel845.Lemmas.RmnetReply

/-!
# Replies are read as far as they were received

No function compares the lengths in a reply with the number of bytes received. What is read lies in them exactly for the replies
that are long enough for what they say (`reply_read_inside_iff`): an acknowledgement for its type and, if it is one, for its error
number; the reply about a link for every header on the way to the fields that are assigned, and for these. A reply whose length
field is true and whose parameters are as wide as they are read is one of them (`linkFits_of_lengths`).
-/

namespace Pixel845.Rmnet

/-- The acknowledgement has a type, and an error number if its type says so. -/
def AckFits (m : Image) (n : Nat) : Prop := 6 ≤ n ∧ (m.nat 4 2 = nlmsgError → 20 ≤ n)

/-- The reply to a call is long enough for what it says. -/
def RtmCall.ReplyFits (q : RtmCall) (reply : List UInt8) : Prop :=
  match q with
  | .getvnd _ o => LinkFits o (Image.ofBytes reply) reply.length
  | _ => AckFits (Image.ofBytes reply) reply.length

/-- The call gets as far as to receive its reply. -/
def Receives (e : Surroundings) (p : Ptrs) (q : RtmCall) : Prop := ∃ cap, Op.recv cap ∈ (q.body p).trace e.answer

/-- The same surroundings with other memory behind the reply. -/
def Surroundings.withBehind (e : Surroundings) (behind : Image) : Surroundings := { e with behind := behind }

namespace RepliesAux

variable {e : Surroundings} {r : Reader Outcome}

/-- The buffer with the reply. -/
def buffer (e : Surroundings) : Image := e.behind.write 0 e.reply

/-- The buffer holds the reply. -/
theorem buffer_eq (e : Surroundings) {i : Nat} (h : i < e.reply.length) : buffer e i = Image.ofBytes e.reply i := by
  simp [buffer, Image.ofBytes, Image.write, h]

/-! ### What a call reads -/

/-- A program receives nothing and reads nothing, or it reads the buffer as the reader does. -/
def ReadsAs (e : Surroundings) (prog : RmM Outcome) (r : Reader Outcome) : Prop :=
  (∀ o ∈ prog.trace e.answer, (∀ cap, o ≠ .recv cap) ∧ ∀ l, o ≠ .load l) ∨
    ∀ l, .load l ∈ prog.trace e.answer ↔ l ∈ r.trace (buffer e).load

/-- An outcome without a read. -/
theorem readsAs_ret (x : Outcome) : ReadsAs e (.ret x) r := .inl (by simp)

/-- The rule for an operation other than a receive or a read. -/
theorem ReadsAs.op {o : Op} {k : o.Res → RmM Outcome} (hr : ∀ cap, o ≠ .recv cap) (hl : ∀ l, o ≠ .load l)
    (h : ReadsAs e (k (e.answer o)) r) : ReadsAs e (.op o k) r := by
  rcases h with h | h
  · refine .inl ?_
    intro o' ho'
    rw [Prog.trace_op] at ho'
    rcases List.mem_cons.mp ho' with rfl | ho'
    · exact ⟨hr, hl⟩
    · exact h o' ho'
  · refine .inr ?_
    intro l
    rw [Prog.trace_op, List.mem_cons, ← h l]
    simp [(hl l).symm]

/-- The rule for the receive: what follows reads the buffer. -/
theorem readsAs_recv {cap : Nat} {k : Except Errno Nat → RmM Outcome}
    (hk : k (e.answer (.recv cap)) = fromBuffer r) : ReadsAs e (.op (.recv cap) k) r := by
  refine .inr ?_
  intro l
  rw [Prog.trace_op, hk, fromBuffer, Prog.trace_lift]
  simp only [List.mem_cons, reduceCtorEq, List.mem_map, Op.load.injEq, exists_eq_right, false_or]
  rfl

/-- An acknowledgement is read as `readAck` does. -/
theorem rmnetGetAck_readsAs : ReadsAs e rmnetGetAck readAck := readsAs_recv rfl

/-- A link is read as `readLink` does. -/
theorem receiveLink_readsAs (o : GetvndOuts) : ReadsAs e (receiveLink o) (readLink o) :=
  .op (by simp) (by simp) (.op (by simp) (by simp) (readsAs_recv rfl))

/-- Every receive reads as its reader does. -/
theorem receive_readsAs (q : RtmCall) : ReadsAs e q.receive q.read := by
  cases q with
  | getvnd vndname o => exact receiveLink_readsAs o
  | _ => exact rmnetGetAck_readsAs

/-- Sending a request leaves what is read. -/
theorem sendReq_readsAs (req : Req) {receive : RmM Outcome} (h : ReadsAs e receive r) : ReadsAs e (sendReq req receive) r :=
  .op (by simp) (by simp) h

/-- Looking up names leaves what is read. -/
theorem withIndices_readsAs (names : List CString) {k : List UInt32 → RmM Outcome} (h : ∀ is, ReadsAs e (k is) r) :
    ReadsAs e (withIndices names k) r := by
  induction names generalizing k with
  | nil => exact h []
  | cons name names ih =>
    refine .op (by simp) (by simp) ?_
    change ReadsAs e (if (e.answer (.ifNametoindex name)).1 = 0 then _ else _) r
    split
    · exact readsAs_ret _
    · exact ih fun is => h _

/-- Every call reads its reply with its own reader. -/
theorem body_readsAs (p : Ptrs) (q : RtmCall) : ReadsAs e (q.body p) q.read := by
  rw [body_eq]
  cases hr : q.request p with
  | none => exact readsAs_ret _
  | some request =>
    have hreceive : ReadsAs e request.receive q.read := receive_request hr ▸ receive_readsAs q
    refine .op (by simp) (by simp) (.op (by simp) (by simp) ?_)
    exact withIndices_readsAs _ fun is => sendReq_readsAs _ hreceive

/-- The reader of a call stays in the reply exactly when the reply is long enough. -/
theorem read_inBounds (q : RtmCall) : q.read.InBounds (buffer e) e.reply.length ↔ q.ReplyFits e.reply := by
  have hagree : q.read.InBounds (buffer e) e.reply.length ↔ q.read.InBounds (Image.ofBytes e.reply) e.reply.length :=
    ⟨fun h => h.congr (fun i hi => (buffer_eq e hi).symm), fun h => h.congr (fun i hi => buffer_eq e hi)⟩
  rw [hagree]
  cases q with
  | getvnd vndname o => exact readLink_inBounds
  | _ => exact readAck_inBounds

end RepliesAux

open RepliesAux in
/-- Whatever the reply to a call that receives one: every byte that is read lies in it exactly when the reply is long enough for
what it says, and then the outcome is the same whatever memory follows the reply. -/
theorem reply_read_inside_iff (e : Surroundings) (p : Ptrs) (q : RtmCall) (hrecv : Receives e p q) :
    ((∀ l, .load l ∈ (q.body p).trace e.answer → l.off + l.width ≤ e.reply.length) ↔ q.ReplyFits e.reply) ∧
      (q.ReplyFits e.reply → ∀ behind, (q.body p).run (e.withBehind behind).answer = (q.body p).run e.answer) := by
  have hreads : ∀ l, .load l ∈ (q.body p).trace e.answer ↔ l ∈ q.read.trace (buffer e).load := by
    rcases body_readsAs p q with h | h
    · obtain ⟨cap, hcap⟩ := hrecv
      exact absurd rfl ((h _ hcap).1 cap)
    · exact h
  have hiff : (∀ l, .load l ∈ (q.body p).trace e.answer → l.off + l.width ≤ e.reply.length) ↔ q.ReplyFits e.reply := by
    rw [← read_inBounds]
    exact forall_congr' fun l => imp_congr_left (hreads l)
  refine ⟨hiff, fun hfits behind => Prog.run_congr _ fun o ho => ?_⟩
  cases o with
  | load l =>
    have hl := hiff.mpr hfits l ho
    exact Image.nat_congr fun i _ hi => by
      rw [← buffer, ← buffer]
      rw [buffer_eq e (by omega)]
      exact buffer_eq (e.withBehind behind) (by simp only [Surroundings.withBehind]; omega)
  | _ => rfl

/-- An acknowledgement of success: its length, `NLMSG_ERROR`, and zeros. -/
def ackOfSuccess : List UInt8 := [36, 0, 0, 0, 2, 0] ++ List.replicate 30 0

/-- The rule at a reply: the acknowledgement of a link that was deleted. -/
theorem reply_read_inside_ack :
    Receives (surroundings ackOfSuccess) ⟨true, true⟩ (.delvnd (some rmnetData0.name)) ∧
      ∀ l, .load l ∈ (rtrmnetCtlDelvnd ⟨true, true⟩ (some rmnetData0.name)).trace (surroundings ackOfSuccess).answer →
        l.off + l.width ≤ 36 := by
  have hrecv : Receives (surroundings ackOfSuccess) ⟨true, true⟩ (.delvnd (some rmnetData0.name)) := ⟨292, by decide⟩
  have hfits : AckFits (Image.ofBytes ackOfSuccess) ackOfSuccess.length := by
    refine ⟨by decide, fun _ => by decide⟩
  exact ⟨hrecv,
    (reply_read_inside_iff (surroundings ackOfSuccess) ⟨true, true⟩ (.delvnd (some rmnetData0.name)) hrecv).1.mpr hfits⟩

/-- A call with an empty reply. -/
def emptyReply : RmM Outcome := rtrmnetCtlDelvnd ⟨true, true⟩ (some rmnetData0.name)

/-- From an empty reply the type is read all the same: with zeros on the stack the call reports an error, and with what an earlier
acknowledgement of success has left there it reports success. -/
theorem empty_reply_read :
    .load ⟨4, 2⟩ ∈ emptyReply.trace (surroundings []).answer ∧
      ¬(∀ l, .load l ∈ emptyReply.trace (surroundings []).answer → l.off + l.width ≤ ([] : List UInt8).length) ∧
      (emptyReply.run (surroundings []).answer).rc = 1 ∧
      (emptyReply.run ((surroundings []).withBehind (Image.ofBytes ackOfSuccess)).answer).rc = rmnetctlSuccess := by
  have hmem : Op.load ⟨4, 2⟩ ∈ emptyReply.trace (surroundings []).answer := by decide
  exact ⟨hmem, fun h => absurd (h _ hmem) (by decide), by decide, by decide⟩

end Pixel845.Rmnet
