import Pixel845.Lib.Prog

/-!
# Machines: programs that share a state with their environment

A machine says what an operation does to a shared state and what the environment (other threads, the kernel, other processes)
may do to it by itself. The answer to an operation and the environment's moves are not determined: a choice, taken by the
world, picks one. A served machine runs one program at a time, one for each request, and the environment moves between any two
of its operations.

`Machine.wp` is the weakest precondition of a program under that interference: it asks for the precondition of every operation
where it is issued and for the postcondition at the end. `Machine.reaches_ok` packs the induction over runs: a condition that
the environment keeps between requests, and that every program starts from and comes back to, gives at every moment of every run
the weakest precondition of what is left of the running program.
-/

namespace Pixel845

/-- What operations and the environment do to a shared state. `none` says that the choice is not possible in this state. -/
structure Machine (Op : Type) (Res : Op → Type) (S Choice Env : Type) where
  exec : (o : Op) → Choice → S → Option (Res o × S)
  env : Env → S → Option S

namespace Machine

variable {Op : Type} {Res : Op → Type} {S Choice Env Req α β : Type} (M : Machine Op Res S Choice Env)

/-- The state after any number of moves of the environment. -/
def EnvSteps : S → S → Prop := Relation.ReflTransGen (fun s s' => ∃ e, M.env e s = some s')

/-- A condition on the state that no move of the environment breaks. -/
def Stable (P : S → Prop) : Prop := ∀ e s s', P s → M.env e s = some s' → P s'

variable {M}

/-- What is stable outlasts any moves of the environment. -/
theorem Stable.envSteps {P : S → Prop} (hP : M.Stable P) {s s' : S} (h : M.EnvSteps s s') (hs : P s) : P s' := by
  induction h with
  | refl => exact hs
  | tail _ he ih =>
    obtain ⟨e, he⟩ := he
    exact hP e _ _ ih he

/-- Two stable conditions are stable together. -/
theorem Stable.and {P Q : S → Prop} (hP : M.Stable P) (hQ : M.Stable Q) : M.Stable (fun s => P s ∧ Q s) :=
  fun e s s' h he => ⟨hP e s s' h.1 he, hQ e s s' h.2 he⟩

/-- A condition that is not about the state is stable. -/
theorem Stable.const (p : Prop) : M.Stable (fun _ => p) := fun _ _ _ h _ => h

/-- A stable condition with something that exists is stable. -/
theorem Stable.exists {ι : Type} {P : ι → S → Prop} (hP : ∀ i, M.Stable (P i)) : M.Stable (fun s => ∃ i, P i s) := by
  rintro e s s' ⟨i, h⟩ he
  exact ⟨i, hP i e s s' h he⟩

variable (M)

/-! ## Weakest preconditions -/

/-- The weakest precondition of a program under interference: every operation is issued in a state that satisfies its
precondition `pre`, and the postcondition holds of the value and of the state, also after further moves of the environment. -/
def wp (pre : Op → S → Prop) : Prog Op Res α → (α → S → Prop) → S → Prop
  | .ret a, Q, s => ∀ s', M.EnvSteps s s' → Q a s'
  | .op o k, Q, s => ∀ s', M.EnvSteps s s' →
      pre o s' ∧ ∀ c r s'', M.exec o c s' = some (r, s'') → wp pre (k r) Q s''

variable {M} {pre : Op → S → Prop}

/-- The weakest precondition survives a move of the environment. -/
theorem wp_env {p : Prog Op Res α} {Q : α → S → Prop} {s s' : S} (h : M.wp pre p Q s) (he : M.EnvSteps s s') :
    M.wp pre p Q s' := by
  cases p with
  | ret a => exact fun t ht => h t (he.trans ht)
  | op o k => exact fun t ht => h t (he.trans ht)

theorem wp_ret {Q : α → S → Prop} {a : α} {s : S} (hst : M.Stable (Q a)) (h : Q a s) :
    M.wp pre (.ret a) Q s :=
  fun _ he => hst.envSteps he h

/-- The rule for one operation: a stable condition that holds before it, gives its precondition, and from which every answer
leads to the weakest precondition of the rest. -/
theorem wp_op {P : S → Prop} {o : Op} {k : Res o → Prog Op Res α} {Q : α → S → Prop} {s : S} (hst : M.Stable P) (hs : P s)
    (hpre : ∀ s, P s → pre o s) (h : ∀ c s r s', P s → M.exec o c s = some (r, s') → M.wp pre (k r) Q s') :
    M.wp pre (.op o k) Q s := by
  intro s' he
  have hs' := hst.envSteps he hs
  exact ⟨hpre s' hs', fun c r s'' hx => h c s' r s'' hs' hx⟩

/-- A program that makes sure of something makes sure of what follows from it. -/
theorem wp_mono {p : Prog Op Res α} {Q Q' : α → S → Prop} {s : S} (h : M.wp pre p Q s) (hQ : ∀ a s, Q a s → Q' a s) :
    M.wp pre p Q' s := by
  induction p generalizing s with
  | ret a => exact fun t ht => hQ a t (h t ht)
  | op o k ih => exact fun t ht => ⟨(h t ht).1, fun c r u hx => ih r ((h t ht).2 c r u hx)⟩

theorem wp_true (p : Prog Op Res α) (s : S) : M.wp (fun _ _ => True) p (fun _ _ => True) s := by
  induction p generalizing s with
  | ret a => exact fun _ _ => trivial
  | op o k ih => exact fun _ _ => ⟨trivial, fun _ r t _ => ih r t⟩

/-- A program in front of another makes sure of what the other one needs. -/
theorem wp_bind {p : Prog Op Res α} {f : α → Prog Op Res β} {Q : β → S → Prop} {s : S}
    (h : M.wp pre p (fun a t => M.wp pre (f a) Q t) s) : M.wp pre (p >>= f) Q s := by
  induction p generalizing s with
  | ret a => exact h s .refl
  | op o k ih => exact fun t ht => ⟨(h t ht).1, fun c r u hx => ih r ((h t ht).2 c r u hx)⟩

/-! ## Specifications -/

/-- A program meets a specification: started where the precondition holds, it issues its operations where they may be issued and
ends where the postcondition holds. -/
def Meets (M : Machine Op Res S Choice Env) (pre : Op → S → Prop) (P : S → Prop) (p : Prog Op Res α) (Q : α → S → Prop) :
    Prop :=
  ∀ s, P s → M.wp pre p Q s

/-- A program that returns at once needs what it promises to hold before. -/
theorem Meets.ret {P : S → Prop} {Q : α → S → Prop} {a : α} (hst : M.Stable P) (h : ∀ s, P s → Q a s) :
    M.Meets pre P (.ret a) Q :=
  fun _ hs s' he => h s' (hst.envSteps he hs)

/-- The rule for one operation: a stable condition that gives the operation's precondition, and a stable condition that every
answer leads to. -/
theorem Meets.call {P : S → Prop} {o : Op} {Q : Res o → S → Prop} (hst : M.Stable P) (hpre : ∀ s, P s → pre o s)
    (hQ : ∀ r, M.Stable (Q r)) (hx : ∀ c s r s', P s → M.exec o c s = some (r, s') → Q r s') :
    M.Meets pre P (Prog.call o) Q :=
  fun _ hs => wp_op hst hs hpre (fun c s r s' hs hc => wp_ret (hQ r) (hx c s r s' hs hc))

/-- The rule for an operation and what follows it. -/
theorem Meets.op {P : S → Prop} {o : Op} {R : Res o → S → Prop} {k : Res o → Prog Op Res α} {Q : α → S → Prop}
    (hst : M.Stable P) (hpre : ∀ s, P s → pre o s) (hx : ∀ c s r s', P s → M.exec o c s = some (r, s') → R r s')
    (hk : ∀ r, M.Meets pre (R r) (k r) Q) : M.Meets pre P (.op o k) Q :=
  fun _ hs => wp_op hst hs hpre (fun c s r s' hs hc => hk r s' (hx c s r s' hs hc))

/-- What a program leaves is what the one behind it starts from. -/
theorem Meets.bind {P : S → Prop} {p : Prog Op Res α} {R : α → S → Prop} {f : α → Prog Op Res β} {Q : β → S → Prop}
    (h : M.Meets pre P p R) (hf : ∀ a, M.Meets pre (R a) (f a) Q) : M.Meets pre P (p >>= f) Q :=
  fun s hs => wp_bind (wp_mono (h s hs) (fun a t ht => hf a t ht))

/-- A specification may ask for more and promise less. -/
theorem Meets.mono {P P' : S → Prop} {p : Prog Op Res α} {Q Q' : α → S → Prop} (h : M.Meets pre P p Q)
    (hP : ∀ s, P' s → P s) (hQ : ∀ a s, Q a s → Q' a s) : M.Meets pre P' p Q' :=
  fun s hs => wp_mono (h s (hP s hs)) hQ

/-- A specification for each of some conditions is one for some of them. -/
theorem Meets.exists {ι : Type} {P : ι → S → Prop} {p : Prog Op Res α} {Q : α → S → Prop}
    (h : ∀ i, M.Meets pre (P i) p Q) : M.Meets pre (fun s => ∃ i, P i s) p Q := by
  rintro s ⟨i, hi⟩
  exact h i s hi

/-- A part of the precondition that is no condition on the state. -/
theorem Meets.lift {P : S → Prop} {q : Prop} {p : Prog Op Res α} {Q : α → S → Prop} (h : q → M.Meets pre P p Q) :
    M.Meets pre (fun s => q ∧ P s) p Q :=
  fun s hs => h hs.1 s hs.2

/-! ## Served machines -/

/-- A served machine at one moment: the shared state and, while a request is served, the request and what is left of its
program. -/
structure Config (Op : Type) (Res : Op → Type) (S Req α : Type) where
  state : S
  thread : Option (Req × Prog Op Res α)

/-- What can happen next: the environment moves, the running program performs its next operation, it ends, or a request comes
in while none is served. -/
inductive Action (Choice Env Req : Type) where
  | env (e : Env)
  | act (c : Choice)
  | finish
  | request (q : Req)

variable (M) (body : Req → Prog Op Res α)

/-- One step of the served machine. -/
def step (c : Config Op Res S Req α) : Action Choice Env Req → Option (Config Op Res S Req α)
  | .env e => (M.env e c.state).map (fun s => { c with state := s })
  | .act ch =>
    match c.thread with
    | some (q, .op o k) => (M.exec o ch c.state).map (fun x => { state := x.2, thread := some (q, k x.1) })
    | _ => none
  | .finish =>
    match c.thread with
    | some (_, .ret _) => some { c with thread := none }
    | _ => none
  | .request q =>
    match c.thread with
    | none => some { c with thread := some (q, body q) }
    | _ => none

/-- A run: the steps of a list of actions. -/
def steps (c : Config Op Res S Req α) (acts : List (Action Choice Env Req)) : Option (Config Op Res S Req α) :=
  acts.foldlM (M.step body) c

/-- Some run leads from one configuration to the other. -/
def Reaches (c c' : Config Op Res S Req α) : Prop := ∃ acts, M.steps body c acts = some c'

variable {M body} {c c' c'' : Config Op Res S Req α}

/-- Actions can be taken in two parts. -/
theorem steps_append (acts acts' : List (Action Choice Env Req)) :
    M.steps body c (acts ++ acts') = (M.steps body c acts).bind (fun d => M.steps body d acts') := by
  simp only [steps, List.foldlM_append]
  rfl

theorem Reaches.refl (c : Config Op Res S Req α) : M.Reaches body c c := ⟨[], rfl⟩

/-- Runs can be taken one after the other. -/
theorem Reaches.trans (h : M.Reaches body c c') (h' : M.Reaches body c' c'') : M.Reaches body c c'' := by
  obtain ⟨as, ha⟩ := h
  obtain ⟨bs, hb⟩ := h'
  exact ⟨as ++ bs, by rw [steps_append, ha]; exact hb⟩

/-- One action is a run. -/
theorem Reaches.step {a : Action Choice Env Req} (h : M.step body c a = some c') : M.Reaches body c c' :=
  ⟨[a], by simp [steps, h]⟩

/-- The rule for runs: what holds at the start and is kept by every step holds of every configuration reached. -/
theorem Reaches.invariant {I : Config Op Res S Req α → Prop} (h : M.Reaches body c c') (h0 : I c)
    (hstep : ∀ a d d', I d → M.step body d a = some d' → I d') : I c' := by
  obtain ⟨acts, ha⟩ := h
  induction acts generalizing c with
  | nil =>
    simp only [steps, List.foldlM_nil, Option.pure_def, Option.some.injEq] at ha
    exact ha ▸ h0
  | cons a acts ih =>
    simp only [steps, List.foldlM_cons, Option.bind_eq_bind, Option.bind_eq_some_iff] at ha
    obtain ⟨d, hd, hrest⟩ := ha
    exact ih (hstep a c d h0 hd) hrest

/-- The four ways a step can be taken. -/
theorem step_cases {a : Action Choice Env Req} (h : M.step body c a = some c') :
    (∃ e, a = .env e ∧ M.env e c.state = some c'.state ∧ c'.thread = c.thread) ∨
    (∃ ch q o k r, a = .act ch ∧ c.thread = some (q, .op o k) ∧ M.exec o ch c.state = some (r, c'.state) ∧
      c'.thread = some (q, k r)) ∨
    (∃ q x, a = .finish ∧ c.thread = some (q, .ret x) ∧ c' = { c with thread := none }) ∨
    (∃ q, a = .request q ∧ c.thread = none ∧ c' = { c with thread := some (q, body q) }) := by
  obtain ⟨s, t⟩ := c
  cases a with
  | env e =>
    simp only [step, Option.map_eq_some_iff] at h
    obtain ⟨s', hs, rfl⟩ := h
    exact .inl ⟨e, rfl, hs, rfl⟩
  | act ch =>
    rcases t with _ | ⟨q, _ | ⟨o, k⟩⟩
    · cases h
    · cases h
    · simp only [step, Option.map_eq_some_iff] at h
      obtain ⟨⟨r, s'⟩, hs, rfl⟩ := h
      exact .inr (.inl ⟨ch, q, o, k, r, rfl, rfl, hs, rfl⟩)
  | finish =>
    rcases t with _ | ⟨q, x | ⟨o, k⟩⟩
    · cases h
    · exact .inr (.inr (.inl ⟨q, x, rfl, rfl, (Option.some.inj h).symm⟩))
    · cases h
  | request q =>
    rcases t with _ | ⟨q', p⟩
    · exact .inr (.inr (.inr ⟨q, rfl, rfl, (Option.some.inj h).symm⟩))
    · cases h

/-! ## The rule for served machines -/

section Served

variable {pre : Req → Op → S → Prop} {post : Req → α → S → Prop} {Idle : S → Prop}

/-- Between requests the idle condition holds; while a request is served, the weakest precondition of what is left of it. -/
def Config.Ok (M : Machine Op Res S Choice Env) (pre : Req → Op → S → Prop) (post : Req → α → S → Prop) (Idle : S → Prop)
    (c : Config Op Res S Req α) : Prop :=
  match c.thread with
  | none => Idle c.state
  | some (q, p) => M.wp (pre q) p (post q) c.state

/-- When every program, started in an idle state, meets its preconditions and comes back to an idle state, every run from an
idle configuration does so at every moment. -/
theorem reaches_ok (hidle : M.Stable Idle) (hbody : ∀ q, M.Meets (pre q) Idle (body q) (post q))
    (hpost : ∀ q a s, post q a s → Idle s) (h0 : Config.Ok M pre post Idle c) (h : M.Reaches body c c') :
    Config.Ok M pre post Idle c' := by
  refine h.invariant h0 ?_
  intro a d d' hd hs
  rcases step_cases hs with ⟨e, -, he, ht⟩ | ⟨ch, q, o, k, r, -, ht, hx, ht'⟩ | ⟨q, x, -, ht, rfl⟩ | ⟨q, -, ht, rfl⟩
  · cases hdt : d.thread with
    | none =>
      simp only [Config.Ok, hdt, ht] at hd ⊢
      exact hidle e _ _ hd he
    | some t =>
      simp only [Config.Ok, hdt, ht] at hd ⊢
      exact wp_env hd (Relation.ReflTransGen.single ⟨e, he⟩)
  · simp only [Config.Ok, ht, ht'] at hd ⊢
    exact (hd _ .refl).2 ch r _ hx
  · simp only [Config.Ok, ht] at hd ⊢
    exact hpost q x _ (hd _ .refl)
  · simp only [Config.Ok, ht] at hd ⊢
    exact hbody q _ hd

/-- A program of an `Ok` configuration issues its next operation in a state that meets the operation's precondition. -/
theorem Config.Ok.pre_of_op {q : Req} {o : Op} {k : Res o → Prog Op Res α} (h : Config.Ok M pre post Idle c)
    (ht : c.thread = some (q, .op o k)) : pre q o c.state := by
  simp only [Config.Ok, ht] at h
  exact (h _ .refl).1

/-- A program of an `Ok` configuration that is about to end meets its postcondition. -/
theorem Config.Ok.post_of_ret {q : Req} {x : α} (h : Config.Ok M pre post Idle c) (ht : c.thread = some (q, .ret x)) :
    post q x c.state := by
  simp only [Config.Ok, ht] at h
  exact h _ .refl

/-- Without a thread that runs, the machine is idle. -/
theorem Config.Ok.idle_of_none (h : Config.Ok M pre post Idle c) (ht : c.thread = none) : Idle c.state := by
  simpa only [Config.Ok, ht] using h

end Served

/-! ## Requests served one after the other -/

section Sessions

variable (M body)

/-- A request that comes in when the state is `s` can end with `x` and leave the state `s'`. -/
def Serves (s : S) (q : Req) (x : α) (s' : S) : Prop :=
  ∃ acts, .finish ∉ acts ∧ M.steps body ⟨s, some (q, body q)⟩ acts = some ⟨s', some (q, .ret x)⟩

/-- A request that was served, with the states before and after it. -/
structure Served (S Req α : Type) where
  req : Req
  before : S
  outcome : α
  after : S

/-- What can happen from a state on: the requests served, in order, with moves of the environment before, between and after
them. -/
inductive Session (s : S) : List (Served S Req α) → S → Prop
  | start : Session s [] s
  | env {served s' e s''} (h : Session s served s') (he : M.env e s' = some s'') : Session s served s''
  | serve {served s' q x s''} (h : Session s served s') (hq : M.Serves body s' q x s'') :
    Session s (served ++ [⟨q, s', x, s''⟩]) s''

/-- The outcome of a request and the state at its end, computed along a run. -/
def serveIn (s : S) (q : Req) (acts : List (Action Choice Env Req)) : Option (α × S) :=
  match M.steps body ⟨s, some (q, body q)⟩ acts with
  | some ⟨s', some (_, .ret x)⟩ => some (x, s')
  | _ => none

variable {M body}

/-- The weakest precondition gives the postcondition at the end of the program that is running. -/
theorem wp_steps {pre : Op → S → Prop} {Q : α → S → Prop} {q q' : Req} {acts : List (Action Choice Env Req)}
    {p p' : Prog Op Res α} {s s' : S} (h : M.wp pre p Q s) (hf : .finish ∉ acts)
    (hs : M.steps body ⟨s, some (q, p)⟩ acts = some ⟨s', some (q', p')⟩) : q' = q ∧ M.wp pre p' Q s' := by
  induction acts generalizing p s with
  | nil =>
    cases hs
    exact ⟨rfl, h⟩
  | cons a acts ih =>
    simp only [steps, List.foldlM_cons, Option.bind_eq_bind, Option.bind_eq_some_iff] at hs
    obtain ⟨⟨t, th⟩, hd, hrest⟩ := hs
    have hf' : .finish ∉ acts := fun hm => hf (List.mem_cons_of_mem a hm)
    rcases step_cases hd with ⟨e, -, he, ht⟩ | ⟨ch, q₁, o, k, r, -, ht, hx, ht'⟩ | ⟨-, -, rfl, -, -⟩ | ⟨-, -, ht, -⟩
    · cases ht
      exact ih (wp_env h (Relation.ReflTransGen.single ⟨e, he⟩)) hf' hrest
    · cases ht
      cases ht'
      exact ih ((h s .refl).2 ch r t hx) hf' hrest
    · exact absurd List.mem_cons_self hf
    · cases ht

/-- The rule for one request: its program's postcondition holds at its end. -/
theorem Serves.post {pre : Op → S → Prop} {P : S → Prop} {Q : α → S → Prop} {s s' : S} {q : Req} {x : α}
    (h : M.Serves body s q x s') (hq : M.Meets pre P (body q) Q) (hs : P s) : Q x s' := by
  obtain ⟨acts, hf, hsteps⟩ := h
  exact (wp_steps (hq s hs) hf hsteps).2 s' .refl

/-- A computed run is a run. -/
theorem serves_of_serveIn {s s' : S} {q : Req} {x : α} {acts : List (Action Choice Env Req)}
    (h : M.serveIn body s q acts = some (x, s')) (hf : .finish ∉ acts) : M.Serves body s q x s' := by
  unfold serveIn at h
  split at h
  · rename_i s₁ q' x₁ hs
    obtain ⟨rfl, -⟩ := wp_steps (wp_true (body q) s) hf hs
    cases h
    exact ⟨acts, hf, hs⟩
  · cases h

/-- A computed run is a run of its outcome and of its state. -/
theorem serves_get {s : S} {q : Req} {acts : List (Action Choice Env Req)} (h : (M.serveIn body s q acts).isSome)
    (hf : .finish ∉ acts) : M.Serves body s q ((M.serveIn body s q acts).get h).1 ((M.serveIn body s q acts).get h).2 :=
  serves_of_serveIn (Option.some_get h).symm hf

end Sessions

/-- Moves of the environment are steps of the served machine. -/
theorem reaches_of_envSteps {s s' : S} (t : Option (Req × Prog Op Res α)) (h : M.EnvSteps s s') :
    M.Reaches body ⟨s, t⟩ ⟨s', t⟩ := by
  induction h with
  | refl => exact Reaches.refl _
  | tail _ he ih =>
    obtain ⟨e, he⟩ := he
    exact ih.trans (Reaches.step (a := .env e) (by simp [step, he]))

/-- The rule for completion: if from every configuration that satisfies `I` and `G` the environment can bring the machine to
where the running program takes its next step into a `G` state, and `I` is kept by every step, the program can be brought to
its end. -/
theorem reaches_idle {I : Config Op Res S Req α → Prop} {G : S → Prop}
    (hI : ∀ a d d', I d → M.step body d a = some d' → I d')
    (hgo : ∀ s q o k, I ⟨s, some (q, .op o k)⟩ → G s →
      ∃ s', M.EnvSteps s s' ∧ ∃ ch r s'', M.exec o ch s' = some (r, s'') ∧ G s'')
    (h : I c) (hg : G c.state) : ∃ s, M.Reaches body c ⟨s, none⟩ ∧ G s ∧ I ⟨s, none⟩ := by
  obtain ⟨s, t⟩ := c
  rcases t with _ | ⟨q, p⟩
  · exact ⟨s, Reaches.refl _, hg, h⟩
  · induction p generalizing s with
    | ret a =>
      have hs : M.step body ⟨s, some (q, .ret a)⟩ (.finish : Action Choice Env Req) = some ⟨s, none⟩ := rfl
      exact ⟨s, Reaches.step hs, hg, hI _ _ _ h hs⟩
    | op o k ih =>
      obtain ⟨s', he, ch, r, s'', hx, hg''⟩ := hgo s q o k h hg
      have hr : M.Reaches body ⟨s, some (q, .op o k)⟩ ⟨s', some (q, .op o k)⟩ := reaches_of_envSteps _ he
      have hs : M.step body ⟨s', some (q, .op o k)⟩ (.act ch) = some ⟨s'', some (q, k r)⟩ := by
        simp [step, hx]
      have h' : I ⟨s', some (q, .op o k)⟩ := hr.invariant h hI
      obtain ⟨u, hu, hgu, hiu⟩ := ih r s'' (hI _ _ _ h' hs) hg''
      exact ⟨u, (hr.trans (Reaches.step hs)).trans hu, hgu, hiu⟩

/-! ## Restricting the runs -/

/-- The machine restricted to the moves and answers that meet a condition on the state before them: its runs are the runs of the
machine whose steps all meet the condition. -/
def guard (M : Machine Op Res S Choice Env) (envOk : Env → S → Bool) (actOk : Op → Choice → S → Bool) :
    Machine Op Res S Choice Env where
  exec := fun o c s => if actOk o c s then M.exec o c s else none
  env := fun e s => if envOk e s then M.env e s else none

variable {envOk : Env → S → Bool} {actOk : Op → Choice → S → Bool}

/-- A guarded machine does an operation as the machine does, if the guard lets it. -/
theorem guard_exec {o : Op} {ch : Choice} {s : S} {x : Res o × S} (h : (M.guard envOk actOk).exec o ch s = some x) :
    actOk o ch s = true ∧ M.exec o ch s = some x := by
  simp only [guard, Option.ite_none_right_eq_some] at h
  exact h

/-- A guarded machine takes a move of the environment as the machine does, if the guard lets it. -/
theorem guard_env {e : Env} {s s' : S} (h : (M.guard envOk actOk).env e s = some s') :
    envOk e s = true ∧ M.env e s = some s' := by
  simp only [guard, Option.ite_none_right_eq_some] at h
  exact h

/-- A step of the restricted machine is a step of the machine. -/
theorem step_of_guard {a : Action Choice Env Req} (h : (M.guard envOk actOk).step body c a = some c') :
    M.step body c a = some c' := by
  rcases step_cases h with ⟨e, rfl, he, ht⟩ | ⟨ch, q, o, k, r, rfl, ht, hx, ht'⟩ | ⟨q, x, rfl, ht, rfl⟩ | ⟨q, rfl, ht, rfl⟩
  · obtain ⟨s', t'⟩ := c'
    simp only at ht
    simp [step, (guard_env he).2, ht]
  · obtain ⟨s', t'⟩ := c'
    simp only at ht'
    simp [step, ht, (guard_exec hx).2, ht']
  · simp [step, ht]
  · simp [step, ht]

/-- A run of the restricted machine is a run of the machine. -/
theorem Reaches.of_guard (h : (M.guard envOk actOk).Reaches body c c') : M.Reaches body c c' :=
  h.invariant (I := fun d => M.Reaches body c d) (Reaches.refl c)
    (fun _ _ _ hd hs => hd.trans (Reaches.step (step_of_guard hs)))

/-! ## Runs whose steps meet a condition -/

variable (M body)

/-- Some run leads from one configuration to the other in which every step meets a condition on the moment before it. -/
inductive ReachesIf (ok : Config Op Res S Req α → Action Choice Env Req → Prop) (c : Config Op Res S Req α) :
    Config Op Res S Req α → Prop
  | refl : ReachesIf ok c c
  | step {a d d'} (h : ReachesIf ok c d) (hok : ok d a) (hs : M.step body d a = some d') : ReachesIf ok c d'

/-- A step that passes a test on the moment before it. -/
def stepIf (test : Config Op Res S Req α → Action Choice Env Req → Bool) (c : Config Op Res S Req α)
    (a : Action Choice Env Req) : Option (Config Op Res S Req α) :=
  if test c a then M.step body c a else none

variable {M body} {ok : Config Op Res S Req α → Action Choice Env Req → Prop}

/-- A run with a condition on its steps is a run. -/
theorem ReachesIf.reaches (h : M.ReachesIf body ok c c') : M.Reaches body c c' := by
  induction h with
  | refl => exact Reaches.refl c
  | step _ _ hs ih => exact ih.trans (Reaches.step hs)

/-- The rule for such runs: a step may use that it meets the condition, and that the run was one of the machine up to it. -/
theorem ReachesIf.invariant {I : Config Op Res S Req α → Prop} (h : M.ReachesIf body ok c c') (h0 : I c)
    (hstep : ∀ a d d', M.Reaches body c d → I d → ok d a → M.step body d a = some d' → I d') : I c' := by
  induction h with
  | refl => exact h0
  | step hd hok hs ih => exact hstep _ _ _ hd.reaches ih hok hs

/-- A run that is computed with a test for the condition. -/
theorem ReachesIf.of_steps {test : Config Op Res S Req α → Action Choice Env Req → Bool} (ht : ∀ d a, test d a = true → ok d a)
    {acts : List (Action Choice Env Req)} {d : Config Op Res S Req α} (hd : M.ReachesIf body ok c d)
    (h : acts.foldlM (M.stepIf body test) d = some c') : M.ReachesIf body ok c c' := by
  induction acts generalizing d with
  | nil =>
    simp only [List.foldlM_nil, Option.pure_def, Option.some.injEq] at h
    exact h ▸ hd
  | cons a acts ih =>
    simp only [List.foldlM_cons, Option.bind_eq_bind, Option.bind_eq_some_iff] at h
    obtain ⟨e, he, hrest⟩ := h
    simp only [stepIf, Option.ite_none_right_eq_some] at he
    exact ih (hd.step (ht d a he.1) he.2) hrest

end Machine

end Pixel845
