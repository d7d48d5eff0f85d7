import Pixel845.Lemmas.RmnetCall
import Pixel845.Rmnet.Handle
import Pixel845.Rmnet.Spec

/-!
# Which request a verdict answers

No call compares `nlmsg_seq`: it takes the reply at the front of the queue. A call that sends its request and then fails to
receive leaves its reply there, and from then on every call takes a reply too early by one. `rmnet_pairing` counts the calls that
have done so: the reply that is taken is that of the request sent as many requests before.
-/

namespace Pixel845.Rmnet

/-- The call sent its request and took no reply. -/
def LeavesReply (v : Machine.Served Hndl Call Outcome) : Bool :=
  v.before.socket.requests.length < v.after.socket.requests.length && v.after.socket.received == v.before.socket.received

namespace PairingAux

open Exchange Machine

/-! ### The ends of a call -/

/-- A call that started when the socket was `x₀` is anywhere between its start and its end. -/
inductive InTurn (x₀ : Socket) (h : Hndl) : Prop where
  | kept (hk : Kept x₀ h.socket)
  | asked {msg : List UInt8} (ha : Asked x₀ h.socket msg)
  | got {msg reply : List UInt8} (hg : Got x₀ h.socket msg reply)

/-- How a call ends: without a request it reports no success; without a reply it reports no verdict; and with a reply a verdict is
what it makes of the reply. -/
inductive TurnEnds (x₀ : Socket) (M : List UInt8 → Outcome → Prop) (x : Outcome) (h : Hndl) : Prop where
  | kept (hk : Kept x₀ h.socket) (hx : x.rc ≠ rmnetctlSuccess)
  | asked {msg : List UInt8} (ha : Asked x₀ h.socket msg) (hx : ¬Verdict x)
  | got {msg reply : List UInt8} (hg : Got x₀ h.socket msg reply) (hx : Verdict x → M reply x)

variable {x₀ : Socket} {M : List UInt8 → Outcome → Prop} {h h' : Hndl} {x : Outcome} {reply : List UInt8}

/-- Without a verdict nothing is asked of the moment at which a call ends. -/
theorem InTurn.ends (ht : InTurn x₀ h) (hx : ¬Verdict x) : TurnEnds x₀ M x h := by
  cases ht with
  | kept hk => exact .kept hk (fun hrc => hx (.inl hrc))
  | asked ha => exact .asked ha hx
  | got hg => exact .got hg (fun hv => absurd hv hx)

/-- The kernel answers a request on the socket. -/
theorem env_eq (he : hndlMachine.env reply h = some h') :
    ∃ ha : h.socket.Awaits reply, h' = { h with socket := h.socket.answer reply ha } := by
  simp only [hndlMachine] at he
  split at he
  · rename_i ha
    exact ⟨ha, (Option.some.inj he).symm⟩
  · cases he

theorem kept_stable : hndlMachine.Stable (fun h => Kept x₀ h.socket) := by
  intro reply h h' hk he
  obtain ⟨ha, rfl⟩ := env_eq he
  exact hk.answer ha

theorem asked_stable : hndlMachine.Stable (fun h => ∃ msg, Asked x₀ h.socket msg) := by
  rintro reply h h' ⟨msg, hm⟩ he
  obtain ⟨ha, rfl⟩ := env_eq he
  exact ⟨msg, hm.answer ha⟩

theorem got_stable {msg reply : List UInt8} : hndlMachine.Stable (fun h => Got x₀ h.socket msg reply) := by
  intro reply' h h' hg he
  obtain ⟨ha, rfl⟩ := env_eq he
  exact hg.answer ha

theorem buf_stable {b : Image} : hndlMachine.Stable (fun h => h.buf = b) := by
  intro reply h h' hb he
  obtain ⟨ha, rfl⟩ := env_eq he
  exact hb

theorem inTurn_stable : hndlMachine.Stable (InTurn x₀) := by
  intro reply h h' ht he
  cases ht with
  | kept hk => exact .kept (kept_stable reply h h' hk he)
  | asked ha => exact .asked (asked_stable reply h h' ⟨_, ha⟩ he).choose_spec
  | got hg => exact .got (got_stable reply h h' hg he)

theorem turnEnds_stable : hndlMachine.Stable (TurnEnds x₀ M x) := by
  intro reply h h' ht he
  cases ht with
  | kept hk hx => exact .kept (kept_stable reply h h' hk he) hx
  | asked ha hx => exact .asked (asked_stable reply h h' ⟨_, ha⟩ he).choose_spec hx
  | got hg hx => exact .got (got_stable reply h h' hg he) hx

/-! ### Operations -/

/-- A program meets a specification, whenever it may issue its operations. -/
abbrev Spec {α : Type} (P : Hndl → Prop) (prog : RmM α) (Q : α → Hndl → Prop) : Prop :=
  hndlMachine.Meets (fun _ _ => True) P prog Q

/-- The operations that leave the socket alone. -/
def quiet : Op → Bool
  | .send _ | .recv _ | .recvfrom _ => false
  | _ => true

/-- An operation fails or succeeds. -/
theorem orElse_cases {α : Type} {c : Choice} {succeed : Option (α × Hndl)} {r : Except Errno α}
    (hc : c.orElse h succeed = some (r, h')) : (∃ errno, r = .error errno ∧ h' = h) ∨ ∃ a, r = .ok a ∧
      succeed = some (a, h') := by
  rw [Choice.orElse.eq_def] at hc
  split at hc
  · cases hc
    exact .inl ⟨_, rfl, rfl⟩
  · obtain ⟨⟨a, h₁⟩, hs, heq⟩ := Option.map_eq_some_iff.mp hc
    cases heq
    exact .inr ⟨a, rfl, hs⟩

/-- A quiet operation leaves the socket. -/
theorem quiet_exec {o : Op} {c : Choice} {r : o.Res} (ho : quiet o = true) (hx : hndlExec o c h = some (r, h')) :
    h'.socket = h.socket := by
  cases o with
  | send msg => cases ho
  | recv cap => cases ho
  | recvfrom cap => cases ho
  | malloc size =>
    rcases orElse_cases hx with ⟨errno, -, rfl⟩ | ⟨a, -, hs⟩
    · rfl
    · cases hs
      rfl
  | peek =>
    rcases orElse_cases hx with ⟨errno, -, rfl⟩ | ⟨a, -, hs⟩
    · rfl
    · obtain ⟨r, -, heq⟩ := Option.map_eq_some_iff.mp hs
      cases heq
      rfl
  | _ =>
    cases hx
    rfl

/-- The rule for an operation that leaves the socket alone. -/
theorem quiet_spec {α : Type} {o : Op} (ho : quiet o = true) {P : Socket → Prop} (hst : hndlMachine.Stable (fun h => P h.socket))
    {k : o.Res → RmM α} {Q : α → Hndl → Prop} (hk : ∀ r, Spec (fun h => P h.socket) (k r) Q) :
    Spec (fun h => P h.socket) (.op o k) Q := by
  refine Meets.op hst (fun _ _ => trivial) (fun c h r h' hP hx => ?_) hk
  rw [quiet_exec ho hx]
  exact hP

/-- The rule for the end of a call that reports no verdict. -/
theorem ret_spec {rc : Int} {errorCode : Option Errno} {outs : List Output} {P : Hndl → Prop} (hP : ∀ h, P h → InTurn x₀ h)
    (hrc : rc ≠ rmnetctlSuccess ∧ rc ≠ rmnetctlKernelErr) : Spec P (.ret ⟨rc, errorCode, outs⟩) (TurnEnds x₀ M) := by
  intro h hh
  have hx : ¬Verdict ⟨rc, errorCode, outs⟩ := fun hv => hv.elim hrc.1 hrc.2
  exact wp_ret turnEnds_stable ((hP h hh).ends hx)

/-- The rule for the end of a call before its request. -/
theorem ret_kept_spec {rc : Int} {errorCode : Option Errno} {outs : List Output} (hrc : rc ≠ rmnetctlSuccess) :
    Spec (fun h => Kept x₀ h.socket) (.ret ⟨rc, errorCode, outs⟩) (TurnEnds x₀ M) :=
  fun _ hk => wp_ret turnEnds_stable (.kept hk hrc)

/-- The rule for the request. -/
theorem send_spec {α : Type} {msg : List UInt8} {k : Except Errno Unit → RmM α} {Q : α → Hndl → Prop}
    (herr : ∀ errno, Spec (fun h => Kept x₀ h.socket) (k (.error errno)) Q)
    (hok : Spec (fun h => ∃ msg, Asked x₀ h.socket msg) (k (.ok ())) Q) :
    Spec (fun h => Kept x₀ h.socket) (.op (.send msg) k) Q := by
  intro h hk
  refine wp_op kept_stable hk (fun _ _ => trivial) (fun c h r h' hk hx => ?_)
  rcases orElse_cases hx with ⟨errno, rfl, rfl⟩ | ⟨a, rfl, hs⟩
  · exact herr errno _ hk
  · cases hs
    exact hok _ ⟨msg, hk.asked msg⟩

/-! ### Replies -/

/-- Reading the buffer changes nothing. -/
theorem fromBuffer_spec (r : Reader Outcome) {b : Image} {P : Hndl → Prop} (hst : hndlMachine.Stable P) :
    Spec (fun h => P h ∧ h.buf = b) (fromBuffer r) (fun x h => P h ∧ x = r.run b.load) := by
  have hst' : hndlMachine.Stable (fun h => P h ∧ h.buf = b) := hst.and buf_stable
  induction r with
  | ret x => exact fun h hh => wp_ret (hst.and (Stable.const _)) ⟨hh.1, rfl⟩
  | op l k ih =>
    intro h hh
    refine wp_op hst' hh (fun _ _ => trivial) (fun c h v h' hh hx => ?_)
    cases hx
    rw [hh.2]
    exact ih (b.load l) _ hh

/-- The rule for a receive into the buffer and what is made of it, in a stage that knows which reply is next. -/
theorem recv_spec {P : Socket → Prop} {cap : Nat} {k : Except Errno Nat → RmM Outcome} {r : Reader Outcome}
    (hst : hndlMachine.Stable (fun h => P h.socket)) (hP : ∀ y, P y → ∃ msg, Asked x₀ y msg)
    (hM : ∀ y (reply : List UInt8) (memory : Image), P y → y.replies[y.received]? = some reply →
      M reply (r.run (memory.write 0 (reply.take cap)).load))
    (herr : ∀ errno, Spec (InTurn x₀) (k (.error errno)) (TurnEnds x₀ M)) (hok : ∀ n, k (.ok n) = fromBuffer r) :
    Spec (fun h => P h.socket) (.op (.recv cap) k) (TurnEnds x₀ M) := by
  intro h hh
  refine wp_op hst hh (fun _ _ => trivial) (fun c h v h' hh hx => ?_)
  obtain ⟨msg, hm⟩ := hP _ hh
  rcases orElse_cases hx with ⟨errno, rfl, rfl⟩ | ⟨n, rfl, hs⟩
  · exact herr errno h' (.asked hm)
  · obtain ⟨⟨reply, y⟩, hr, heq⟩ := Option.map_eq_some_iff.mp hs
    cases heq
    rw [hok]
    refine wp_mono (fromBuffer_spec r (b := c.memory.write 0 (reply.take cap)) got_stable _ ⟨hm.got hr, rfl⟩) ?_
    rintro x h'' ⟨hg, rfl⟩
    exact .got hg (fun _ => hM _ reply c.memory hh (receive_eq hr).1)

/-- What a transaction returns: a response, if a reply was taken. -/
def Transacted (x₀ : Socket) : Except Errno Image → Hndl → Prop
  | .error _, h => InTurn x₀ h
  | .ok response, h => ∃ msg reply, Got x₀ h.socket msg reply ∧
      response = Image.ofBytes ((Image.ofBytes (reply.take maxBufSize)).read 16 rmnetNlMsgSize)

theorem transacted_stable {r : Except Errno Image} : hndlMachine.Stable (Transacted x₀ r) := by
  cases r with
  | error errno => exact inTurn_stable
  | ok response => exact Stable.exists fun msg => Stable.exists fun reply => got_stable.and (Stable.const _)

/-- An error may come at any moment of a turn. -/
theorem transacted_error {P : Hndl → Prop} (hP : ∀ h, P h → InTurn x₀ h) (errno : Errno) :
    Spec P (.ret (.error errno)) (Transacted x₀) :=
  fun h hh => wp_ret transacted_stable (hP h hh)

/-- A transaction takes one turn. -/
theorem rmnetctlTransact_spec (request : Image) :
    Spec (fun h => Kept x₀ h.socket) (rmnetctlTransact request) (Transacted x₀) := by
  refine quiet_spec rfl kept_stable ?_
  intro r
  cases r with
  | error errno => exact transacted_error (fun _ => .kept) _
  | ok _ =>
    refine quiet_spec rfl kept_stable ?_
    intro r
    cases r with
    | error errno => exact transacted_error (fun _ => .kept) _
    | ok _ =>
      refine quiet_spec rfl kept_stable fun pid => quiet_spec rfl kept_stable fun seq => ?_
      refine send_spec (fun errno => transacted_error (fun _ => .kept) _) ?_
      intro h hh
      refine wp_op asked_stable hh (fun _ _ => trivial) (fun c h v h' hh hx => ?_)
      obtain ⟨msg, hm⟩ := hh
      rcases orElse_cases hx with ⟨errno, rfl, rfl⟩ | ⟨bytes, rfl, hs⟩
      · exact wp_ret transacted_stable (.asked hm)
      · obtain ⟨⟨reply, y⟩, hr, heq⟩ := Option.map_eq_some_iff.mp hs
        cases heq
        have hg := hm.got hr
        change hndlMachine.wp _ (if _ then _ else _) _ _
        split
        · exact wp_ret transacted_stable (.got hg)
        · exact wp_ret transacted_stable ⟨msg, reply, hg, rfl⟩

/-! ### The calls -/

/-- A call that is in a stage `P` of its turn ends it, with verdicts that a reader makes of the reply in a buffer of some size. -/
abbrev Turns (x₀ : Socket) (r : Reader Outcome) (room : List UInt8 → Nat) (P : Socket → Prop) (prog : RmM Outcome) : Prop :=
  Spec (fun h => P h.socket) prog
    (TurnEnds x₀ fun reply x => ∃ memory : Image, x = r.run (memory.write 0 (reply.take (room reply))).load)

variable {r : Reader Outcome} {room : List UInt8 → Nat}

/-- An acknowledgement is the reply to the request. -/
theorem rmnetGetAck_turns : Turns x₀ readAck (fun _ => 292) (fun y => ∃ msg, Asked x₀ y msg) rmnetGetAck :=
  recv_spec asked_stable (fun _ => id) (fun _ reply memory _ _ => ⟨memory, rfl⟩) (fun _ => ret_spec (fun _ => id) (by decide))
    (fun _ => rfl)

/-- Sending a request takes the turn of its reply. -/
theorem sendReq_turns (req : Req) {receive : RmM Outcome} (hr : Turns x₀ r room (fun y => ∃ msg, Asked x₀ y msg) receive) :
    Turns x₀ r room (Kept x₀) (sendReq req receive) :=
  send_spec (fun _ => ret_spec (fun _ => .kept) (by decide)) hr

/-- Looking up names takes no turn. -/
theorem withIndices_turns (names : List CString) {k : List UInt32 → RmM Outcome} (hk : ∀ is, Turns x₀ r room (Kept x₀) (k is)) :
    Turns x₀ r room (Kept x₀) (withIndices names k) := by
  induction names generalizing k with
  | nil => exact hk []
  | cons name names ih =>
    refine quiet_spec rfl kept_stable ?_
    intro i
    change Turns x₀ r room (Kept x₀) (if i.1 = 0 then _ else _)
    split
    · exact ret_kept_spec (by decide)
    · exact ih fun is => hk _

/-- The call has asked, and the reply that is next has a length that it knows. -/
def Peeked (x₀ : Socket) (len : Nat) (y : Socket) : Prop :=
  (∃ msg, Asked x₀ y msg) ∧ ∃ reply, y.replies[y.received]? = some reply ∧ reply.length = len

theorem peeked_stable {len : Nat} : hndlMachine.Stable (fun h => Peeked x₀ len h.socket) := by
  rintro reply h h' ⟨hasked, next, hnext, hlen⟩ he
  obtain ⟨ha, rfl⟩ := env_eq he
  obtain ⟨msg, hm⟩ := hasked
  have hsame : (h.socket.answer reply ha).replies[h.socket.received]? = some next := getElem?_answer hnext
  exact ⟨⟨msg, hm.answer ha⟩, next, hsame, hlen⟩

/-- The rule for the peek at the next reply. -/
theorem peek_spec {k : Except Errno Nat → RmM Outcome} {Q : Outcome → Hndl → Prop}
    (herr : ∀ errno, Spec (fun h => ∃ msg, Asked x₀ h.socket msg) (k (.error errno)) Q)
    (hok : ∀ len, Spec (fun h => Peeked x₀ len h.socket) (k (.ok len)) Q) :
    Spec (fun h => ∃ msg, Asked x₀ h.socket msg) (.op .peek k) Q := by
  intro h hh
  refine wp_op asked_stable hh (fun _ _ => trivial) (fun c h v h' hh hx => ?_)
  rcases orElse_cases hx with ⟨errno, rfl, rfl⟩ | ⟨len, rfl, hs⟩
  · exact herr errno _ hh
  · obtain ⟨reply, hr, heq⟩ := Option.map_eq_some_iff.mp hs
    cases heq
    exact hok _ _ ⟨hh, reply, queue_head?.symm.trans hr, rfl⟩

/-- The buffer has the length of the reply that is then taken. -/
theorem receiveLink_turns (o : GetvndOuts) :
    Turns x₀ (readLink o) List.length (fun y => ∃ msg, Asked x₀ y msg) (receiveLink o) := by
  refine peek_spec (fun errno => ret_spec (fun _ ha => .asked ha.choose_spec) (by decide)) fun len => ?_
  refine quiet_spec rfl (P := Peeked x₀ len) peeked_stable fun res => ?_
  cases res with
  | error errno => exact ret_spec (fun _ ha => .asked ha.1.choose_spec) (by decide)
  | ok _ =>
    refine recv_spec peeked_stable (fun _ => And.left) (fun y reply memory hy hreply => ⟨memory, ?_⟩)
      (fun _ => ret_spec (fun _ => id) (by decide)) (fun _ => rfl)
    obtain ⟨-, next, hnext, rfl⟩ := hy
    rw [hreply] at hnext
    obtain rfl := Option.some.inj hnext
    rfl

/-- What is received is the reply to the request. -/
theorem receive_turns (q : RtmCall) : Turns x₀ q.read (fun reply => q.room reply) (fun y => ∃ msg, Asked x₀ y msg) q.receive := by
  cases q with
  | getvnd vndname o => exact receiveLink_turns o
  | _ => exact rmnetGetAck_turns

/-- An RTM call reports verdicts of a reply only after it has sent a request, and has taken the reply. -/
theorem rtm_turns (p : Ptrs) (q : RtmCall) : Turns x₀ q.read (fun reply => q.room reply) (Kept x₀) (q.body p) := by
  rw [body_eq]
  cases hr : q.request p with
  | none => exact ret_kept_spec (by decide)
  | some request =>
    have hreceive : Turns x₀ q.read (fun reply => q.room reply) (fun y => ∃ msg, Asked x₀ y msg) request.receive :=
      receive_request hr ▸ receive_turns q
    refine quiet_spec rfl kept_stable fun stack => quiet_spec rfl kept_stable fun seq => ?_
    exact withIndices_turns _ fun is => sendReq_turns _ hreceive

/-- A legacy call reports verdicts of a response only after its transaction. -/
theorem legacy_spec (call : Option LegacyRequest) : Spec (fun h => Kept x₀ h.socket) (legacyCall call)
    (TurnEnds x₀ fun reply x => ∃ r behind, call = some r ∧
      x = r.outcome (Image.ofBytes ((Image.ofBytes (reply.take maxBufSize)).read 16 rmnetNlMsgSize)) behind) := by
  cases call with
  | none => exact ret_kept_spec (by decide)
  | some r =>
    rw [legacyCall, Prog.call_bind]
    refine quiet_spec rfl kept_stable ?_
    intro stack
    cases r.request stack with
    | error errorCode => exact ret_kept_spec (by decide)
    | ok request =>
      refine Meets.bind (rmnetctlTransact_spec request) ?_
      intro res
      cases res with
      | error errorCode => exact ret_spec (fun _ => id) (by decide)
      | ok response =>
        rintro h ⟨msg, reply, hg, rfl⟩
        refine quiet_spec (P := fun y => Got x₀ y msg reply) rfl got_stable ?_ h hg
        exact fun behind h hg => wp_ret turnEnds_stable (.got hg fun _ => ⟨r, behind, rfl, rfl⟩)

/-- Every call ends its turn. -/
theorem body_spec (x₀ : Socket) (q : Call) :
    Spec (fun h => Kept x₀ h.socket) q.body (TurnEnds x₀ fun reply x => q.Makes reply x) := by
  cases q with
  | rtm p q => exact rtm_turns p q
  | legacy p q => exact legacy_spec (q.call p)

/-! ### Runs -/

variable {q : Call}

/-- A call that is served ends its turn. -/
theorem serves_ends (hq : hndlMachine.Serves Call.body h q x h') :
    TurnEnds h.socket (fun reply x => q.Makes reply x) x h' :=
  hq.post (body_spec h.socket q) (Kept.refl _)

/-- A call adds to the outstanding replies if it leaves its own. -/
theorem serves_outstanding (hq : hndlMachine.Serves Call.body h q x h') :
    h'.socket.outstanding = h.socket.outstanding + if LeavesReply ⟨q, h, x, h'⟩ then 1 else 0 := by
  cases serves_ends hq with
  | kept hk => simp [LeavesReply, hk.outstanding, hk.requests]
  | asked ha => simp [LeavesReply, ha.outstanding, ha.requests, ha.received]
  | got hg => simp [LeavesReply, hg.outstanding, hg.received]

/-- The outstanding replies are those that calls have left. -/
theorem session_outstanding {h₀ : Hndl} {served : List (Machine.Served Hndl Call Outcome)} (h0 : h₀.socket = .empty)
    (hs : hndlMachine.Session Call.body h₀ served h) : h.socket.outstanding = served.countP LeavesReply := by
  induction hs with
  | start => rw [h0]; rfl
  | env hs he ih =>
    obtain ⟨ha, rfl⟩ := env_eq he
    rw [← ih]
    exact ((Kept.refl _).answer ha).outstanding
  | serve hs hq ih => rw [serves_outstanding hq, ih, List.countP_append, List.countP_singleton]

end PairingAux

open PairingAux in
/-- Whatever calls were made on a handle and whichever of their receives failed: a call that reports a verdict has found no
interface and sent nothing, or has taken one reply and reports what it makes of it. The reply is that of the request sent as many
requests before as calls have left their reply in the socket, so that of its own request if none has. -/
theorem rmnet_pairing (transactionId pid : UInt32) (buf : Image) (served : List (Machine.Served Hndl Call Outcome)) (h h' : Hndl)
    (q : Call) (x : Outcome) (hs : hndlMachine.Session Call.body (.opened transactionId pid buf) served h)
    (hq : hndlMachine.Serves Call.body h q x h') (hv : Verdict x) :
    (h.socket.Kept h'.socket ∧ x.rc = rmnetctlKernelErr) ∨
      ∃ msg reply, h.socket.Got h'.socket msg reply ∧ q.Makes reply x ∧
        (∃ msg', (h.socket.requests ++ [msg])[h.socket.requests.length - served.countP LeavesReply]? = some msg' ∧
          seqOf reply = seqOf msg') ∧
        (served.countP LeavesReply = 0 → seqOf reply = seqOf msg) := by
  have hcount := session_outstanding rfl hs
  cases serves_ends hq with
  | kept hk hrc => exact .inl ⟨hk, hv.resolve_left hrc⟩
  | asked ha hx => exact absurd hv hx
  | @got msg reply hg hx =>
    obtain ⟨msg', hmsg, hecho⟩ := hg.answers
    rw [hcount] at hmsg
    refine .inr ⟨msg, reply, hg, hx hv, ⟨msg', hmsg, hecho.2⟩, fun h0 => ?_⟩
    rw [h0, Nat.sub_zero, List.getElem?_concat_length] at hmsg
    cases hmsg
    exact hecho.2

/-- The deletion of a link. -/
def delvndCall : Call := .rtm ⟨true, true⟩ (.delvnd (some rmnetData0.name))

/-- An acknowledgement with a sequence number and an error. -/
def ackOf (seq error : Nat) : List UInt8 :=
  leBytes 4 36 ++ leBytes 2 nlmsgError ++ leBytes 2 0 ++ leBytes 4 seq ++ leBytes 4 0 ++ leBytes 4 error ++ leBytes 16 0

/-- The outcome of a deletion along a run, and the handle after it. -/
def delvndAlong (h : Hndl) (acts : List (Machine.Action Choice (List UInt8) Call)) : Option (Outcome × Hndl) :=
  hndlMachine.serveIn Call.body h delvndCall acts

/-- The first deletion on a handle, acknowledged in time. -/
def acknowledged : Outcome × Hndl :=
  (delvndAlong (.opened 0 0 Image.zero) [.act {}, .act {}, .act {}, .act {}, .env (ackOf 0 0), .act {}, .act {}, .act {}]).get
    (by decide +kernel)

/-- The rule at a call: the first deletion on a handle reports its own acknowledgement. -/
theorem rmnet_pairing_first :
    hndlMachine.Serves Call.body (.opened 0 0 Image.zero) delvndCall acknowledged.1 acknowledged.2 ∧
      acknowledged.1.rc = rmnetctlSuccess ∧ ∃ msg reply, (Hndl.opened 0 0 Image.zero).socket.Got acknowledged.2.socket msg reply ∧
        delvndCall.Makes reply acknowledged.1 ∧ seqOf reply = seqOf msg := by
  have hq : hndlMachine.Serves Call.body (.opened 0 0 Image.zero) delvndCall acknowledged.1 acknowledged.2 :=
    Machine.serves_get (by decide +kernel) (by simp)
  have hrc : acknowledged.1.rc = rmnetctlSuccess := by decide +kernel
  refine ⟨hq, hrc, ?_⟩
  rcases rmnet_pairing 0 0 Image.zero [] _ _ delvndCall _ .start hq (.inl hrc) with ⟨-, hk⟩ | ⟨msg, reply, hg, hm, -, hown⟩
  · rw [hrc] at hk
    exact absurd hk (by decide)
  · exact ⟨msg, reply, hg, hm, hown rfl⟩

/-- The first deletion on a handle, with its receive interrupted. -/
def interrupted : Outcome × Hndl :=
  (delvndAlong (.opened 0 0 Image.zero) [.act {}, .act {}, .act {}, .act {}, .act { fails := some 4 }]).get (by decide +kernel)

/-- A second deletion after it. The kernel acknowledges the first one, and refuses the second one with `ENODEV`. -/
def late : Outcome × Hndl :=
  (delvndAlong interrupted.2
    [.env (ackOf 0 0), .act {}, .act {}, .act {}, .act {}, .env (ackOf 1 (2 ^ 32 - 19)), .act {}, .act {}, .act {}]).get
    (by decide +kernel)

/-- The second deletion reports success: it has taken the acknowledgement of the first one. -/
theorem verdict_of_earlier_request :
    hndlMachine.Session Call.body (.opened 0 0 Image.zero) [⟨delvndCall, .opened 0 0 Image.zero, interrupted.1, interrupted.2⟩]
      interrupted.2 ∧
      hndlMachine.Serves Call.body interrupted.2 delvndCall late.1 late.2 ∧ late.1.rc = rmnetctlSuccess ∧
      late.2.socket.queue = [ackOf 1 (2 ^ 32 - 19)] ∧
      ¬∃ msg reply, interrupted.2.socket.Got late.2.socket msg reply ∧ delvndCall.Makes reply late.1 ∧
      seqOf reply = seqOf msg := by
  have h1 : hndlMachine.Serves Call.body (.opened 0 0 Image.zero) delvndCall interrupted.1 interrupted.2 :=
    Machine.serves_get (by decide +kernel) (by simp)
  have h2 : hndlMachine.Serves Call.body interrupted.2 delvndCall late.1 late.2 :=
    Machine.serves_get (by decide +kernel) (by simp)
  refine ⟨.serve .start h1, h2, by decide +kernel, by decide +kernel, ?_⟩
  rintro ⟨msg, reply, hg, -, hseq⟩
  have hreq : late.2.socket.requests.map seqOf = interrupted.2.socket.requests.map seqOf ++ [1] := by decide +kernel
  have hrep : late.2.socket.replies[interrupted.2.socket.received]?.map seqOf = some 0 := by decide +kernel
  have hmsg : seqOf msg = 1 := by simpa [hg.requests] using hreq
  have hreply : seqOf reply = 0 := by simpa [hg.reply] using hrep
  omega

end Pixel845.Rmnet
