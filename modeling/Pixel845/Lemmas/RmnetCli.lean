import Mathlib.Data.List.Basic
import Pixel845.Rmnet.Cli
import Pixel845.Rmnet.Spec

/-!
# What the command line does

An execution of `rmnet_api_call` on an argument vector ends in one of a few ways (`cli_ends`): without a handle, without a
command, or with the branch of a command, which misses an argument, has no memory, or makes its call (`command_ends`). `Args` says
what the library and the vector answer, and `evaluated` what a command uses for its call.
-/

namespace Pixel845.Rmnet

/-! ## Argument vectors -/

/-- What the operations of an execution answer on an argument vector, `NULL` behind it included: `strtoul` and `strtol` convert
their string, and a call of the library is one. What lies behind the `NULL` is anything. -/
structure Conforms (args : List CString) (t : CliEvents) : Prop where
  argv : ∀ k s, (⟨.argv k, s⟩ : Prog.Event CliOp.Res) ∈ t → k ≤ args.length → s = args[k]?
  strtoul : ∀ s v, (⟨.strtoul (some s), v⟩ : Prog.Event CliOp.Res) ∈ t → v = Pixel845.strtoul s.bytes
  strtol : ∀ s v, (⟨.strtol (some s), v⟩ : Prog.Event CliOp.Res) ∈ t → v = Pixel845.strtol s.bytes
  call : ∀ q x, (⟨.call q, x⟩ : Prog.Event CliOp.Res) ∈ t → ∃ t', q.body.Exec t' x.1 ∧ sent t' = x.2

/-- The command of an argument vector, with the index of its word. -/
def parse : List CString → Option (Nat × CliCommand)
  | [] => none
  | word :: rest =>
    if word.bytes = ascii "help" then none
    else if word.bytes = ascii "-n" then (rest.head?.bind fun word => rtmWords.lookup word.bytes).map fun c => (1, c)
    else (legacyWords.lookup word.bytes).map fun c => (0, c)

/-- A command line is known by its first word, or behind `-n` by its second. -/
theorem parse_cons (word : CString) (rest : List CString) : parse (word :: rest) =
    if word.bytes = ascii "help" then none
    else if word.bytes = ascii "-n" then (rest.head?.bind fun word => rtmWords.lookup word.bytes).map fun c => (1, c)
    else (legacyWords.lookup word.bytes).map fun c => (0, c) := rfl

/-- The number of arguments that a command at an index is given. -/
def count (args : List CString) (base : Nat) : Nat := args.length - base - 1

/-- A handle was initialised. -/
def Opened (t : CliEvents) : Prop :=
  ∃ e, (⟨.rmnetctlInit, (rmnetctlSuccess, e)⟩ : Prog.Event CliOp.Res) ∈ t ∨
    (⟨.rtrmnetCtlInit, (rmnetctlSuccess, e)⟩ : Prog.Event CliOp.Res) ∈ t

/-- What is done with the handle. -/
inductive HandleUse where
  | init
  | call
  | release
deriving DecidableEq

/-- What an operation does with the handle. -/
def handleUse? : Prog.Event CliOp.Res → Option HandleUse
  | ⟨.rmnetctlInit, x⟩ | ⟨.rtrmnetCtlInit, x⟩ => if x.1 = rmnetctlSuccess then some .init else none
  | ⟨.call _, _⟩ => some .call
  | ⟨.rmnetctlCleanup, _⟩ | ⟨.rtrmnetCtlDeinit, _⟩ => some .release
  | _ => none

/-- What an execution does with its handle. -/
def handleUses (t : CliEvents) : List HandleUse := t.filterMap handleUse?

/-- The index of an argument that is used. -/
def Use.index : Use → Nat
  | .str k | .ul k | .l k | .optL k => k

section Evaluation

variable {args : List CString} {t t₁ t₂ : CliEvents} {base : Nat} {a a' : Values} {us : List Use} {rc : Int} {c : CliCommand}

@[simp] theorem handleUses_nil : handleUses [] = [] := rfl

@[simp] theorem handleUses_cons (e : Prog.Event CliOp.Res) (t : CliEvents) :
    handleUses (e :: t) = (handleUse? e).toList ++ handleUses t := by
  unfold handleUses
  rw [List.filterMap_cons]
  cases handleUse? e <;> rfl

/-- The handles used in two stretches one after the other. -/
@[simp] theorem handleUses_append (t t' : CliEvents) : handleUses (t ++ t') = handleUses t ++ handleUses t' :=
  List.filterMap_append

/-- Fewer events conform as well. -/
theorem Conforms.mono (h : Conforms args t) (hs : ∀ e ∈ t₁, e ∈ t) : Conforms args t₁ :=
  ⟨fun k s he => h.argv k s (hs _ he), fun s v he => h.strtoul s v (hs _ he), fun s v he => h.strtol s v (hs _ he),
    fun q x he => h.call q x (hs _ he)⟩

theorem conforms_append (h : Conforms args (t₁ ++ t₂)) : Conforms args t₁ ∧ Conforms args t₂ :=
  ⟨h.mono fun _ he => List.mem_append_left _ he, h.mono fun _ he => List.mem_append_right _ he⟩

theorem conforms_cons {e : Prog.Event CliOp.Res} (h : Conforms args (e :: t)) : Conforms args t :=
  h.mono fun _ he => .tail _ he

/-! ## Arguments -/

/-- What the use of an argument reads and converts. -/
inductive UseEvents (base : Nat) : Use → CliEvents → Prop
  | str (k : Nat) (s : Option CString) : UseEvents base (.str k) [⟨.argv (base + k), s⟩]
  | ul (k : Nat) (s : Option CString) (v : Nat) : UseEvents base (.ul k) [⟨.argv (base + k), s⟩, ⟨.strtoul s, v⟩]
  | l (k : Nat) (s : Option CString) (v : Int) : UseEvents base (.l k) [⟨.argv (base + k), s⟩, ⟨.strtol s, v⟩]
  | noL (k : Nat) : UseEvents base (.optL k) [⟨.argv (base + k), none⟩]
  | someL (k : Nat) (s : CString) (v : Int) : UseEvents base (.optL k) [⟨.argv (base + k), some s⟩, ⟨.strtol (some s), v⟩]

/-- Reading one argument makes its event. -/
theorem use_events {u : Use} (hx : (u.eval base a).Exec t a') : UseEvents base u t := by
  cases u with
  | str k =>
    cases hx with | op _ s hx =>
    cases hx
    exact .str k s
  | ul k =>
    cases hx with | op _ s hx =>
    cases hx with | op _ v hx =>
    cases hx
    exact .ul k s v
  | l k =>
    cases hx with | op _ s hx =>
    cases hx with | op _ v hx =>
    cases hx
    exact .l k s v
  | optL k =>
    cases hx with | op _ s hx =>
    cases s with
    | none =>
      cases hx
      exact .noL k
    | some s =>
      cases hx with | op _ v hx =>
      cases hx
      exact .someL k s v

/-- The uses of arguments do nothing with the handle, read their arguments, and convert those that are numbers. -/
structure UsesEvents (base : Nat) (us : List Use) (t : CliEvents) : Prop where
  quiet : handleUses t = []
  calls : ∀ q x, (⟨.call q, x⟩ : Prog.Event CliOp.Res) ∉ t
  mallocs : ∀ n x, (⟨.malloc n, x⟩ : Prog.Event CliOp.Res) ∉ t
  reads : ∀ k, (∃ s, (⟨.argv k, s⟩ : Prog.Event CliOp.Res) ∈ t) ↔ ∃ u ∈ us, k = base + u.index
  ul : ∀ k, .ul k ∈ us → ∃ s v, (⟨.argv (base + k), s⟩ : Prog.Event CliOp.Res) ∈ t ∧ (⟨.strtoul s, v⟩ : Prog.Event CliOp.Res) ∈ t
  l : ∀ k, .l k ∈ us → ∃ s v, (⟨.argv (base + k), s⟩ : Prog.Event CliOp.Res) ∈ t ∧ (⟨.strtol s, v⟩ : Prog.Event CliOp.Res) ∈ t
  ulNull : ∀ v, (⟨.strtoul none, v⟩ : Prog.Event CliOp.Res) ∈ t →
    ∃ k, .ul k ∈ us ∧ (⟨.argv (base + k), none⟩ : Prog.Event CliOp.Res) ∈ t
  lNull : ∀ v, (⟨.strtol none, v⟩ : Prog.Event CliOp.Res) ∈ t →
    ∃ k, .l k ∈ us ∧ (⟨.argv (base + k), none⟩ : Prog.Event CliOp.Res) ∈ t

theorem usesEvents_nil : UsesEvents base [] [] where
  quiet := rfl
  calls := by simp
  mallocs := by simp
  reads := by simp
  ul := by simp
  l := by simp
  ulNull := by simp
  lNull := by simp

/-- The events of one argument. -/
theorem usesEvents_one {u : Use} (h : UseEvents base u t) : UsesEvents base [u] t := by
  cases h <;> constructor <;> simp [handleUse?, Use.index]

/-- The events of arguments one behind the other. -/
theorem usesEvents_append {us' : List Use} (h : UsesEvents base us t) (h' : UsesEvents base us' t₁) :
    UsesEvents base (us ++ us') (t ++ t₁) where
  quiet := by rw [handleUses_append, h.quiet, h'.quiet]; rfl
  calls := fun q x he => (List.mem_append.mp he).elim (h.calls q x) (h'.calls q x)
  mallocs := fun n x he => (List.mem_append.mp he).elim (h.mallocs n x) (h'.mallocs n x)
  reads := by
    intro k
    have h1 := h.reads k
    have h2 := h'.reads k
    simp only [List.mem_append, exists_or, or_and_right] at h1 h2 ⊢
    rw [h1, h2]
  ul := by
    intro k hk
    rcases List.mem_append.mp hk with hk | hk
    · obtain ⟨s, v, h1, h2⟩ := h.ul k hk
      exact ⟨s, v, List.mem_append_left _ h1, List.mem_append_left _ h2⟩
    · obtain ⟨s, v, h1, h2⟩ := h'.ul k hk
      exact ⟨s, v, List.mem_append_right _ h1, List.mem_append_right _ h2⟩
  l := by
    intro k hk
    rcases List.mem_append.mp hk with hk | hk
    · obtain ⟨s, v, h1, h2⟩ := h.l k hk
      exact ⟨s, v, List.mem_append_left _ h1, List.mem_append_left _ h2⟩
    · obtain ⟨s, v, h1, h2⟩ := h'.l k hk
      exact ⟨s, v, List.mem_append_right _ h1, List.mem_append_right _ h2⟩
  ulNull := by
    intro v hv
    rcases List.mem_append.mp hv with hv | hv
    · obtain ⟨k, h1, h2⟩ := h.ulNull v hv
      exact ⟨k, List.mem_append_left _ h1, List.mem_append_left _ h2⟩
    · obtain ⟨k, h1, h2⟩ := h'.ulNull v hv
      exact ⟨k, List.mem_append_right _ h1, List.mem_append_right _ h2⟩
  lNull := by
    intro v hv
    rcases List.mem_append.mp hv with hv | hv
    · obtain ⟨k, h1, h2⟩ := h.lNull v hv
      exact ⟨k, List.mem_append_left _ h1, List.mem_append_left _ h2⟩
    · obtain ⟨k, h1, h2⟩ := h'.lNull v hv
      exact ⟨k, List.mem_append_right _ h1, List.mem_append_right _ h2⟩

/-- What the uses of arguments do. -/
theorem evalUses_events (hx : (evalUses base us a).Exec t a') : UsesEvents base us t := by
  induction us generalizing a t with
  | nil =>
    cases hx
    exact usesEvents_nil
  | cons u us ih =>
    obtain ⟨t₁, t₂, b, rfl, h1, h2⟩ := Prog.exec_bind hx
    exact usesEvents_append (usesEvents_one (use_events h1)) (ih h2)

/-- The values are those of the arguments that are there. -/
structure ValuesOf (args : List CString) (base : Nat) (us : List Use) (a : Values) : Prop where
  str : ∀ k, .str k ∈ us → base + k ≤ args.length → a.str k = args[base + k]?
  ul : ∀ k s, .ul k ∈ us → args[base + k]? = some s → a.ul k = Pixel845.strtoul s.bytes
  l : ∀ k s, .l k ∈ us ∨ .optL k ∈ us → args[base + k]? = some s → a.l k = Pixel845.strtol s.bytes

/-- Before any argument is read, there is nothing to say about the values. -/
theorem valuesOf_nil (a : Values) : ValuesOf args base [] a := ⟨by simp, by simp, by simp⟩

/-- A string is the argument that is read. -/
theorem ValuesOf.setStr {k : Nat} {s : Option CString} (ha : ValuesOf args base us a)
    (hs : base + k ≤ args.length → s = args[base + k]?) :
    ValuesOf args base (.str k :: us) { a with str := Function.update a.str k s } := by
  refine ⟨?_, fun j s' hj => ha.ul j s' (by simpa using hj), fun j s' hj => ha.l j s' (by simpa using hj)⟩
  intro j hj hle
  change Function.update a.str k s j = _
  by_cases hjk : j = k
  · rw [hjk, Function.update_self]
    exact hs (hjk ▸ hle)
  · rw [Function.update_of_ne hjk]
    exact ha.str j (by simpa [hjk] using hj) hle

/-- A number without sign is that of the argument that is read. -/
theorem ValuesOf.setUl {k v : Nat} (ha : ValuesOf args base us a)
    (hv : ∀ s : CString, args[base + k]? = some s → v = Pixel845.strtoul s.bytes) :
    ValuesOf args base (.ul k :: us) { a with ul := Function.update a.ul k v } := by
  refine ⟨fun j hj => ha.str j (by simpa using hj), ?_, fun j s hj => ha.l j s (by simpa using hj)⟩
  intro j s hj hs
  change Function.update a.ul k v j = _
  by_cases hjk : j = k
  · rw [hjk, Function.update_self]
    exact hv s (hjk ▸ hs)
  · rw [Function.update_of_ne hjk]
    exact ha.ul j s (by simpa [hjk] using hj) hs

/-- A number with sign is that of the argument that is read. -/
theorem ValuesOf.setL {u : Use} {k : Nat} {v : Int} (ha : ValuesOf args base us a) (hu : u = .l k ∨ u = .optL k)
    (hv : ∀ s : CString, args[base + k]? = some s → v = Pixel845.strtol s.bytes) :
    ValuesOf args base (u :: us) { a with l := Function.update a.l k v } := by
  refine ⟨fun j hj => ha.str j ?_, fun j s hj => ha.ul j s ?_, fun j s hj hs => ?_⟩
  · rcases hu with rfl | rfl <;> simpa using hj
  · rcases hu with rfl | rfl <;> simpa using hj
  · change Function.update a.l k v j = _
    by_cases hjk : j = k
    · rw [hjk, Function.update_self]
      exact hv s (hjk ▸ hs)
    · rw [Function.update_of_ne hjk]
      refine ha.l j s ?_ hs
      rcases hu with rfl | rfl <;> simpa [hjk] using hj

/-- One use gives its value and keeps the others. -/
theorem use_valuesOf {u : Use} (hx : (u.eval base a).Exec t a') (hc : Conforms args t) (ha : ValuesOf args base us a) :
    ValuesOf args base (u :: us) a' := by
  -- An argument that is there is what was read.
  have hread {k : Nat} {s : Option CString} {s' : CString} (hm : ⟨.argv k, s⟩ ∈ t) (hs : args[k]? = some s') : s = some s' := by
    obtain ⟨hlt, -⟩ := List.getElem?_eq_some_iff.mp hs
    rw [hc.argv k s hm hlt.le, hs]
  cases u with
  | str k =>
    cases hx with | op _ s hx =>
    cases hx
    exact ha.setStr (hc.argv _ s List.mem_cons_self)
  | ul k =>
    cases hx with | op _ s hx =>
    cases hx with | op _ v hx =>
    cases hx
    refine ha.setUl ?_
    intro s' hs
    cases hread List.mem_cons_self hs
    exact hc.strtoul s' v (by simp)
  | l k =>
    cases hx with | op _ s hx =>
    cases hx with | op _ v hx =>
    cases hx
    refine ha.setL (.inl rfl) ?_
    intro s' hs
    cases hread List.mem_cons_self hs
    exact hc.strtol s' v (by simp)
  | optL k =>
    cases hx with | op _ s hx =>
    cases s with
    | none =>
      cases hx
      refine ⟨fun j hj => ha.str j (by simpa using hj), fun j s' hj => ha.ul j s' (by simpa using hj), ?_⟩
      intro j s' hj hs
      by_cases hjk : j = k
      · cases hread List.mem_cons_self (hjk ▸ hs)
      · exact ha.l j s' (by simpa [hjk] using hj) hs
    | some s =>
      cases hx with | op _ v hx =>
      cases hx
      refine ha.setL (.inr rfl) ?_
      intro s' hs
      cases hread List.mem_cons_self hs
      exact hc.strtol s v (by simp)

/-- What a command uses for its call. -/
theorem evaluated {us' : List Use} (hx : (evalUses base us a).Exec t a') (hc : Conforms args t) (ha : ValuesOf args base us' a) :
    ValuesOf args base (us.reverse ++ us') a' := by
  induction us generalizing a t us' with
  | nil =>
    cases hx
    exact ha
  | cons u us ih =>
    obtain ⟨t₁, t₂, b, rfl, h1, h2⟩ := Prog.exec_bind hx
    obtain ⟨hc1, hc2⟩ := conforms_append hc
    have h := ih h2 hc2 (use_valuesOf h1 hc1 ha)
    rwa [List.reverse_cons, List.append_assoc, List.singleton_append]

/-! ## Ways to end -/

/-- An operation that neither converts, allocates, calls nor releases anything, and reads nothing behind the end. -/
inductive Idle (args : List CString) : Prog.Event CliOp.Res → Prop
  | argv (k : Nat) (s : Option CString) (h : k ≤ args.length) : Idle args ⟨.argv k, s⟩
  | rmnetctlInit (x : Int × Errno) : Idle args ⟨.rmnetctlInit, x⟩
  | rtrmnetCtlInit (x : Int × Errno) : Idle args ⟨.rtrmnetCtlInit, x⟩
  | printStatus (rc : Int) (e : Errno) : Idle args ⟨.printStatus rc e, ()⟩

/-- While nothing is done, nothing is allocated. -/
theorem malloc_not_idle {n : Nat} {b : Bool} (h : ∀ e ∈ t, Idle args e) : (⟨.malloc n, b⟩ : Prog.Event CliOp.Res) ∉ t :=
  fun hm => nomatch h _ hm

/-- Where a command makes its call, no `malloc` has failed. -/
theorem malloc_not_called (idle : ∀ e ∈ t, Idle args e ∨ e = ⟨.malloc rmnetMaxStrLen, true⟩)
    (uses : (evalUses base us a).Exec t₁ a') (hend : (⟨.malloc rmnetMaxStrLen, false⟩ : Prog.Event CliOp.Res) ∉ t₂) :
    ⟨.malloc rmnetMaxStrLen, false⟩ ∉ t ++ (t₁ ++ t₂) := by
  intro hm
  rcases List.mem_append.mp hm with hm | hm
  · rcases idle _ hm with hi | hi
    · cases hi
    · cases hi
  · rcases List.mem_append.mp hm with hm | hm
    · exact (evalUses_events uses).mallocs _ _ hm
    · exact hend hm

/-- The branch of a command misses an argument, has no memory, or makes its call with the values of its arguments. -/
inductive CommandEnds (args : List CString) (base : Nat) (c : CliCommand) : CliEvents → Int → Prop
  | missing {t : CliEvents} (few : count args base < c.checks) (idle : ∀ e ∈ t, Idle args e) (quiet : handleUses t = []) :
    CommandEnds args base c (t ++ [⟨.rmnetctlCleanup, ()⟩]) rmnetctlInvalidArg
  | noMemory {t : CliEvents} (enough : c.checks ≤ count args base) (hc : c = .getlepc) (idle : ∀ e ∈ t, Idle args e)
    (quiet : handleUses t = []) (e : Errno) :
    CommandEnds args base c (t ++ [⟨.malloc rmnetMaxStrLen, false⟩, ⟨.printStatus rmnetctlLibErr e, ()⟩, ⟨.rmnetctlCleanup, ()⟩])
      rmnetctlLibErr
  | called {t t' : CliEvents} {a : Values} (enough : c.checks ≤ count args base)
    (idle : ∀ e ∈ t, Idle args e ∨ e = ⟨.malloc rmnetMaxStrLen, true⟩) (quiet : handleUses t = [])
    (uses : (evalUses base c.uses {}).Exec t' a) (x : Outcome) (ms : List (List UInt8)) (e : Errno) :
    CommandEnds args base c
      (t ++ (t' ++ [⟨.call (c.call a), (x, ms)⟩, ⟨.printStatus x.rc e, ()⟩, ⟨.rmnetctlCleanup, ()⟩,
        ⟨.rtrmnetCtlDeinit, ()⟩])) x.rc

/-- The checks of arguments find that one is missing, or go on behind the last. -/
theorem checkNull_ends {k n : Nat} {rest : CliM Int} (hx : (checkNull base k n rest).Exec t rc) (hc : Conforms args t)
    (hk : base + k ≤ args.length) :
    (args.length < base + k + n ∧ rc = rmnetctlInvalidArg ∧
      ∃ t', t = t' ++ [⟨.rmnetctlCleanup, ()⟩] ∧ (∀ e ∈ t', Idle args e) ∧ handleUses t' = []) ∨
    (base + k + n ≤ args.length ∧ ∃ t₁ t₂, t = t₁ ++ t₂ ∧ (∀ e ∈ t₁, Idle args e) ∧ handleUses t₁ = [] ∧ rest.Exec t₂ rc) := by
  induction n generalizing k t with
  | zero => exact .inr ⟨hk, [], t, rfl, by simp, rfl, hx⟩
  | succ n ih =>
    cases hx with | op _ s hx =>
    have hs := hc.argv _ s List.mem_cons_self hk
    have hread := Idle.argv (base + k) s hk
    cases s with
    | none =>
      -- The argument that is missing is the one behind the last.
      have hlen := List.getElem?_eq_none_iff.mp hs.symm
      cases hx with | op _ u hx =>
      cases hx with | op _ u' hx =>
      cases hx
      refine .inl
        ⟨by omega, rfl, [⟨.argv (base + k), none⟩, ⟨.printStatus rmnetctlInvalidArg rmnetctlCfgFailureNoCommand, ()⟩],
          rfl, ?_, rfl⟩
      rintro e he
      rcases List.mem_cons.mp he with rfl | he
      · exact hread
      · rw [List.mem_singleton] at he
        exact he ▸ .printStatus _ _
    | some s =>
      obtain ⟨hlen, -⟩ := List.getElem?_eq_some_iff.mp hs.symm
      rcases ih hx (conforms_cons hc) (by omega) with ⟨hn, hrc, t', rfl, hidle, hu⟩ | ⟨hn, t₁, t₂, rfl, hidle, hu, hrest⟩
      · refine .inl ⟨by omega, hrc, ⟨.argv (base + k), some s⟩ :: t', rfl, ?_, hu⟩
        exact fun e he => (List.mem_cons.mp he).elim (fun h => h ▸ hread) (hidle e)
      · refine .inr ⟨by omega, ⟨.argv (base + k), some s⟩ :: t₁, t₂, rfl, ?_, hu, hrest⟩
        exact fun e he => (List.mem_cons.mp he).elim (fun h => h ▸ hread) (hidle e)

/-- The call of a command, and what is done behind it. -/
theorem makeCall_ends (hx : (makeCall base c).Exec t rc) :
    ∃ t' a x ms e, (evalUses base c.uses {}).Exec t' a ∧ rc = x.rc ∧
      t = t' ++ [⟨.call (c.call a), (x, ms)⟩, ⟨.printStatus x.rc e, ()⟩, ⟨.rmnetctlCleanup, ()⟩, ⟨.rtrmnetCtlDeinit, ()⟩] := by
  obtain ⟨t', t₂, a, rfl, hu, hx⟩ := Prog.exec_bind hx
  cases hx with | op _ x hx =>
  obtain ⟨x, ms⟩ := x
  cases hx with | op _ _ hx =>
  cases hx with | op _ _ hx =>
  cases hx with | op _ _ hx =>
  cases hx
  exact ⟨t', a, x, ms, _, hu, rfl, rfl⟩

/-- A command that is run ends as described. -/
theorem command_ends (hx : (runCommand base c).Exec t rc) (hc : Conforms args t) (hb : base < args.length) :
    CommandEnds args base c t rc := by
  rcases checkNull_ends hx hc hb with ⟨hn, rfl, t', rfl, hidle, hu⟩ | ⟨hn, t₁, t₂, rfl, hidle, hu, hrest⟩
  · exact .missing (by unfold count; omega) hidle hu
  have henough : c.checks ≤ count args base := by
    unfold count
    omega
  by_cases hl : c = .getlepc
  · rw [if_pos hl] at hrest
    cases hrest with | op _ ok hrest =>
    cases ok with
    | false =>
      cases hrest with | op _ _ hrest =>
      cases hrest with | op _ _ hrest =>
      cases hrest
      exact .noMemory henough hl hidle hu _
    | true =>
      obtain ⟨t', a, x, ms, e, huses, rfl, rfl⟩ := makeCall_ends hrest
      have h :=
        CommandEnds.called (t := t₁ ++ [⟨.malloc rmnetMaxStrLen, true⟩]) henough ?_ (by simp [hu, handleUse?]) huses x ms e
      · rwa [List.append_assoc] at h
      · intro e he
        rcases List.mem_append.mp he with he | he
        · exact .inl (hidle e he)
        · exact .inr (List.mem_singleton.mp he)
  · rw [if_neg hl] at hrest
    obtain ⟨t', a, x, ms, e, huses, rfl, rfl⟩ := makeCall_ends hrest
    exact .called henough (fun e he => .inl (hidle e he)) hu huses x ms e

/-- `rmnet_api_call` returns without a handle, forgets its handle where the command is missing, or goes on with the branch of
a command. -/
inductive CliEnds (args : List CString) : CliEvents → Int → Prop
  | closed {t : CliEvents} (idle : ∀ e ∈ t, Idle args e) (quiet : handleUses t = []) : CliEnds args t rmnetctlLibErr
  | forgotten {t : CliEvents} {rc : Int} (idle : ∀ e ∈ t, Idle args e) (opened : handleUses t = [.init])
    (hp : parse args = none) : CliEnds args t rc
  | branch {t t' : CliEvents} {rc : Int} {base : Nat} {c : Option CliCommand} (idle : ∀ e ∈ t, Idle args e)
    (opened : handleUses t = [.init]) (hb : base < args.length) (hp : parse args = c.map fun c => (base, c))
    (hx : (branch base c).Exec t' rc) (hc : Conforms args t') : CliEnds args (t ++ t') rc

/-- Doing nothing, and then nothing more. -/
theorem idle_cons {e : Prog.Event CliOp.Res} (he : Idle args e) (ht : ∀ e ∈ t, Idle args e) : ∀ e' ∈ e :: t, Idle args e' :=
  fun _ h => (List.mem_cons.mp h).elim (fun h => h ▸ he) (ht _)

/-- A status is printed and returned. -/
theorem print_ends {r : Int} {status : Int} {e : Errno} (hx : (printAndReturn status e r).Exec t rc) :
    t = [⟨.printStatus status e, ()⟩] ∧ rc = r := by
  cases hx with | op _ _ hx =>
  cases hx
  exact ⟨rfl, rfl⟩

/-- A run of the program ends as described. -/
theorem cli_ends (hx : (rmnetApiCall args.length).Exec t rc) (hc : Conforms args t) : CliEnds args t rc := by
  have hprint (status : Int) (e : Errno) : ∀ e' ∈ ([⟨.printStatus status e, ()⟩] : CliEvents), Idle args e' := by
    rintro e' he
    exact List.mem_singleton.mp he ▸ .printStatus status e
  unfold rmnetApiCall at hx
  split at hx
  · obtain ⟨rfl, rfl⟩ := print_ends hx
    exact .closed (hprint _ _) rfl
  rename_i hlen
  cases hx with | op _ s hx =>
  have hs := hc.argv 0 s List.mem_cons_self (Nat.zero_le _)
  have hread := Idle.argv 0 s (Nat.zero_le args.length)
  obtain _ | ⟨word, rest⟩ := args
  · cases hlen rfl
  rw [List.getElem?_cons_zero] at hs
  cases hs
  replace hx : (if word.bytes = ascii "help" then _ else (_ : CliM Int)).Exec _ _ := hx
  split at hx
  next hhelp =>
    obtain ⟨rfl, rfl⟩ := print_ends hx
    exact .closed (idle_cons hread (hprint _ _)) rfl
  next hhelp =>
    split at hx
    next hn =>
      cases hx with | op _ r hx =>
      obtain ⟨r, e⟩ := r
      replace hx : (if r ≠ rmnetctlSuccess then _ else (_ : CliM Int)).Exec _ _ := hx
      split at hx
      next hr =>
        obtain ⟨rfl, rfl⟩ := print_ends hx
        exact .closed (idle_cons hread (idle_cons (.rtrmnetCtlInit _) (hprint _ _))) (by simp [handleUse?, hr])
      next hr =>
        rw [not_ne_iff] at hr
        subst hr
        split at hx
        next hrest =>
          -- `-n` is the last word: the handle is forgotten.
          obtain rfl : rest = [] := by simpa using hrest
          obtain ⟨rfl, rfl⟩ := print_ends hx
          exact .forgotten (idle_cons hread (idle_cons (.rtrmnetCtlInit _) (hprint _ _))) rfl
            (by rw [parse_cons, if_neg hhelp, if_pos hn]; rfl)
        next hrest =>
          obtain _ | ⟨word', rest⟩ := rest
          · cases hrest rfl
          cases hx with | op _ s hx =>
          have hs := hc.argv 1 s (by simp) (by simp)
          rw [List.getElem?_cons_succ, List.getElem?_cons_zero] at hs
          cases hs
          have hread' := Idle.argv 1 (some word') (show 1 ≤ (word :: word' :: rest).length by simp)
          have h := CliEnds.branch (t := [⟨.argv 0, some word⟩, ⟨.rtrmnetCtlInit, (rmnetctlSuccess, e)⟩, ⟨.argv 1, some word'⟩])
            (idle_cons hread (idle_cons (.rtrmnetCtlInit _) (idle_cons hread' (by simp)))) rfl (by simp)
            (by rw [parse_cons, if_neg hhelp, if_pos hn]; rfl) hx (conforms_cons (conforms_cons (conforms_cons hc)))
          exact h
    next hn =>
      cases hx with | op _ r hx =>
      obtain ⟨r, e⟩ := r
      replace hx : (if r ≠ rmnetctlSuccess then _ else (_ : CliM Int)).Exec _ _ := hx
      split at hx
      next hr =>
        obtain ⟨rfl, rfl⟩ := print_ends hx
        exact .closed (idle_cons hread (idle_cons (.rmnetctlInit _) (hprint _ _))) (by simp [handleUse?, hr])
      next hr =>
        rw [not_ne_iff] at hr
        subst hr
        exact CliEnds.branch (t := [⟨.argv 0, some word⟩, ⟨.rmnetctlInit, (rmnetctlSuccess, e)⟩])
          (idle_cons hread (idle_cons (.rmnetctlInit _) (by simp))) rfl (by simp) (by rw [parse_cons, if_neg hhelp, if_neg hn]) hx
          (conforms_cons (conforms_cons hc))

/-- A handle is opened where one is initialised. -/
theorem opened_iff : Opened t ↔ .init ∈ handleUses t := by
  unfold Opened handleUses
  simp only [List.mem_filterMap]
  constructor
  · rintro ⟨e, h | h⟩
    · exact ⟨_, h, rfl⟩
    · exact ⟨_, h, rfl⟩
  · rintro ⟨⟨o, x⟩, h, hu⟩
    cases o with
    | rmnetctlInit =>
      have hr : x.1 = rmnetctlSuccess := by simpa [handleUse?] using hu
      exact ⟨x.2, .inl (hr ▸ h)⟩
    | rtrmnetCtlInit =>
      have hr : x.1 = rmnetctlSuccess := by simpa [handleUse?] using hu
      exact ⟨x.2, .inr (hr ▸ h)⟩
    | _ => simp [handleUse?] at hu

end Evaluation

/-! ## Surroundings -/

/-- Surroundings of the command line: the arguments, how an init function ends, whether there is memory, and the surroundings
of a call. -/
structure CliSurroundings where
  args : List CString
  init : Int := rmnetctlSuccess
  memory : Bool := true
  library : Surroundings

namespace CliSurroundings

variable (e : CliSurroundings)

/-- The answers of the surroundings. -/
def answer : (o : CliOp) → o.Res
  | .argv k => e.args[k]?
  | .strtoul s => (s.map fun s => Pixel845.strtoul s.bytes).getD 0
  | .strtol s => (s.map fun s => Pixel845.strtol s.bytes).getD 0
  | .malloc _ => e.memory
  | .rmnetctlInit | .rtrmnetCtlInit => (e.init, 0)
  | .call q => (q.body.run e.library.answer, sent (e.library.events q.body))
  | .rmnetctlCleanup | .rtrmnetCtlDeinit | .printStatus _ _ => ()

/-- What the command line does in the surroundings. -/
def events : CliEvents := ((rmnetApiCall e.args.length).trace e.answer).map fun o => ⟨o, e.answer o⟩

theorem exec : (rmnetApiCall e.args.length).Exec e.events ((rmnetApiCall e.args.length).run e.answer) := Prog.exec_run _ _

theorem conforms : Conforms e.args e.events := by
  have h (o : CliOp) (x : o.Res) (hm : ⟨o, x⟩ ∈ e.events) : x = e.answer o := by
    obtain ⟨o', -, ho⟩ := List.mem_map.mp hm
    cases ho
    rfl
  constructor
  · intro k s hm _
    exact h _ _ hm
  · intro s v hm
    exact h _ _ hm
  · intro s v hm
    exact h _ _ hm
  · intro q x hm
    rw [h _ _ hm]
    exact ⟨_, e.library.exec q.body, rfl⟩

end CliSurroundings

/-- `-n` -/
def dashN : CString := ⟨ascii "-n", by decide⟩

/-- `1` -/
def one : CString := ⟨ascii "1", by decide⟩

/-- `-n getlink` -/
def getlinkOnly : List CString := [dashN, ⟨ascii "getlink", by decide⟩]

/-- The surroundings of a command line whose words are given, with a device of index 7 for every name and no reply. -/
def typed (words : List CString) : CliSurroundings := { args := words, library := surroundings [] }

end Pixel845.Rmnet
