import Mathlib.Logic.Basic

/-!
# Exchanges

An ordered channel between a client and a server that answers every request exactly once and in order: the `i`-th reply answers
the `i`-th request. The client takes the replies from the front of a queue, and nothing obliges it to take a reply before it sends
the next request. `Exchange` carries what always holds of such a channel in its fields, so that a reply without a request, or a
reply taken before it was given, cannot be built.
-/

namespace Pixel845

/-- What has passed through the channel: the requests sent, the replies given, and how many of these the client has taken. -/
structure Exchange (Rq Rp : Type) (Answers : Rq → Rp → Prop) where
  requests : List Rq
  replies : List Rp
  received : Nat
  received_le : received ≤ replies.length
  replies_le : replies.length ≤ requests.length
  answers : ∀ (i : Nat) (q : Rq) (r : Rp), requests[i]? = some q → replies[i]? = some r → Answers q r

namespace Exchange

variable {Rq Rp : Type} {Answers : Rq → Rp → Prop}

/-- A channel that was just opened. -/
def empty : Exchange Rq Rp Answers where
  requests := []
  replies := []
  received := 0
  received_le := Nat.le_refl _
  replies_le := Nat.le_refl _
  answers := by simp

variable (x : Exchange Rq Rp Answers)

/-- The replies that the client has not taken. -/
def queue : List Rp := x.replies.drop x.received

/-- Send a request. -/
def send (q : Rq) : Exchange Rq Rp Answers :=
  { x with
    requests := x.requests ++ [q]
    replies_le := by
      have := x.replies_le
      simp only [List.length_append]
      omega
    answers := by
      intro i q' r hq hr
      have hi := (List.getElem?_eq_some_iff.mp hr).1
      rw [List.getElem?_append_left (Nat.lt_of_lt_of_le hi x.replies_le)] at hq
      exact x.answers i q' r hq hr }

/-- The reply answers the oldest request without one. -/
def Awaits (r : Rp) : Prop := ∃ q ∈ x.requests[x.replies.length]?, Answers q r

instance [∀ q r, Decidable (Answers q r)] (r : Rp) : Decidable (x.Awaits r) :=
  inferInstanceAs (Decidable (∃ q ∈ x.requests[x.replies.length]?, Answers q r))

/-- Answer the oldest request without a reply. -/
def answer (r : Rp) (h : x.Awaits r) : Exchange Rq Rp Answers :=
  { x with
    replies := x.replies ++ [r]
    received_le := by
      have := x.received_le
      simp only [List.length_append]
      omega
    replies_le := by
      obtain ⟨q, hq, -⟩ := h
      have hlt := (List.getElem?_eq_some_iff.mp hq).1
      simp only [List.length_append, List.length_singleton]
      omega
    answers := by
      intro i q r' hq hr
      rcases Nat.lt_or_ge i x.replies.length with hi | hi
      · rw [List.getElem?_append_left hi] at hr
        exact x.answers i q r' hq hr
      · obtain ⟨q', hq', ha⟩ := h
        have hlt := (List.getElem?_eq_some_iff.mp hr).1
        have hi' : i = x.replies.length := by
          simp only [List.length_append, List.length_singleton] at hlt
          omega
        subst hi'
        rw [Option.mem_def] at hq'
        rw [List.getElem?_concat_length] at hr
        rw [hq'] at hq
        cases hq
        cases hr
        exact ha }

/-- Take the reply at the front of the queue. -/
def receive : Option (Rp × Exchange Rq Rp Answers) :=
  match h : x.queue with
  | [] => none
  | r :: _ => some (r, { x with
      received := x.received + 1
      received_le := by
        have := congrArg List.length h
        simp only [queue, List.length_drop, List.length_cons] at this
        omega })

variable {x} {y : Exchange Rq Rp Answers} {q : Rq} {r : Rp}

/-- A request is put behind those that were sent. -/
@[simp] theorem send_requests : (x.send q).requests = x.requests ++ [q] := rfl
@[simp] theorem send_replies : (x.send q).replies = x.replies := rfl
@[simp] theorem send_received : (x.send q).received = x.received := rfl
@[simp] theorem answer_requests {h : x.Awaits r} : (x.answer r h).requests = x.requests := rfl
@[simp] theorem answer_replies {h : x.Awaits r} : (x.answer r h).replies = x.replies ++ [r] := rfl
@[simp] theorem answer_received {h : x.Awaits r} : (x.answer r h).received = x.received := rfl

/-- The first reply of the queue is the one that has not been received. -/
theorem queue_head? : x.queue.head? = x.replies[x.received]? := by
  rw [queue, List.head?_drop]

/-- What is taken is the reply whose turn it is. -/
theorem receive_eq (h : x.receive = some (r, y)) :
    x.replies[x.received]? = some r ∧ y.requests = x.requests ∧ y.replies = x.replies ∧ y.received = x.received + 1 := by
  unfold receive at h
  split at h
  · cases h
  · rename_i r' rest hq
    cases h
    refine ⟨?_, rfl, rfl, rfl⟩
    rw [← queue_head?, hq, List.head?_cons]

/-- The client has taken no more replies than it has sent requests. -/
theorem received_le_requests : x.received ≤ x.requests.length :=
  Nat.le_trans x.received_le x.replies_le

/-- Every reply has its request. -/
theorem exists_request {i : Nat} (h : x.replies[i]? = some r) : ∃ q, x.requests[i]? = some q ∧ Answers q r := by
  have hi := (List.getElem?_eq_some_iff.mp h).1
  have hq : x.requests[i]? = some (x.requests.get ⟨i, Nat.lt_of_lt_of_le hi x.replies_le⟩) := List.getElem?_eq_getElem _
  exact ⟨_, hq, x.answers i _ r hq h⟩

/-! ## Turns

A turn of the client sends nothing, or sends one request, or sends one request and takes one reply. The server may give replies
meanwhile: a turn says nothing about their number.
-/

variable (x y q r)

/-- The number of requests whose reply the client has not taken. -/
def outstanding : Nat := x.requests.length - x.received

/-- Nothing was sent and nothing was taken. -/
structure Kept : Prop where
  requests : y.requests = x.requests
  received : y.received = x.received

/-- A request was sent, and nothing was taken. -/
structure Asked : Prop where
  requests : y.requests = x.requests ++ [q]
  received : y.received = x.received

/-- A request was sent, and a reply was taken. -/
structure Got : Prop where
  requests : y.requests = x.requests ++ [q]
  received : y.received = x.received + 1
  reply : y.replies[x.received]? = some r

variable {x y q r} {z : Exchange Rq Rp Answers}

theorem Kept.refl (x : Exchange Rq Rp Answers) : Kept x x := ⟨rfl, rfl⟩

/-- A request has been asked once it is sent. -/
theorem Kept.asked (h : Kept x y) (q : Rq) : Asked x (y.send q) q := ⟨by rw [send_requests, h.requests], h.received⟩

/-- What is received after a request is the reply to it. -/
theorem Asked.got (h : Asked x y q) (hr : y.receive = some (r, z)) : Got x z q r := by
  obtain ⟨hrep, hreq, hreps, hrec⟩ := receive_eq hr
  exact ⟨hreq.trans h.requests, by rw [hrec, h.received], by rw [hreps, ← h.received, hrep]⟩

/-- Answers of the other side keep an exchange. -/
theorem Kept.answer (h : Kept x y) (hr : y.Awaits r) : Kept x (y.answer r hr) := ⟨h.requests, h.received⟩

/-- Answers of the other side leave a request asked. -/
theorem Asked.answer (h : Asked x y q) (hr : y.Awaits r) : Asked x (y.answer r hr) q := ⟨h.requests, h.received⟩

/-- A reply that was given stays where it is. -/
theorem getElem?_answer {r' : Rp} {hr : x.Awaits r'} {i : Nat} (h : x.replies[i]? = some r) :
    (x.answer r' hr).replies[i]? = some r := by
  rw [answer_replies, List.getElem?_append_left (List.getElem?_eq_some_iff.mp h).1, h]

/-- Answers of the other side leave a reply received. -/
theorem Got.answer {r' : Rp} (h : Got x y q r) (hr : y.Awaits r') : Got x (y.answer r' hr) q r :=
  ⟨h.requests, h.received, getElem?_answer h.reply⟩

/-- An exchange that is kept has the replies outstanding that it had. -/
theorem Kept.outstanding (h : Kept x y) : y.outstanding = x.outstanding := by
  rw [Exchange.outstanding, Exchange.outstanding, h.requests, h.received]

/-- A request makes one more reply outstanding. -/
theorem Asked.outstanding (h : Asked x y q) : y.outstanding = x.outstanding + 1 := by
  have := x.received_le_requests
  simp only [Exchange.outstanding, h.requests, h.received, List.length_append, List.length_singleton]
  omega

/-- With its reply received, a request leaves as many outstanding as before. -/
theorem Got.outstanding (h : Got x y q r) : y.outstanding = x.outstanding := by
  simp only [Exchange.outstanding, h.requests, h.received, List.length_append, List.length_singleton]
  omega

/-- The reply that is taken answers the request sent as many requests before as there were outstanding. -/
theorem Got.answers (h : Got x y q r) :
    ∃ q', (x.requests ++ [q])[x.requests.length - x.outstanding]? = some q' ∧ Answers q' r := by
  obtain ⟨q', hq, ha⟩ := exists_request h.reply
  have hi : x.requests.length - x.outstanding = x.received := by
    have := x.received_le_requests
    rw [Exchange.outstanding]
    omega
  exact ⟨q', by rw [hi, ← h.requests, hq], ha⟩

end Exchange

end Pixel845
