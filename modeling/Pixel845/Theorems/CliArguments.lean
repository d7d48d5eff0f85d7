import Pixel845.Lemmas.RmnetCli

/-!
# Reading the arguments

The commands check their own lists of arguments before they use them. Two lists are too short: `setlepc` uses an argument two
behind the last that it checks, and `flowactivate` converts one that it does not check. A command that misses an argument which it
does not check either has it refused by its call. `arguments_iff` says when all goes well.
-/

namespace Pixel845.Rmnet

/-- An operation reads no argument behind the `NULL`, and converts a string. -/
def InBounds (args : List CString) : Prog.Event CliOp.Res → Prop
  | ⟨.argv k, _⟩ => k ≤ args.length
  | ⟨.strtoul s, _⟩ | ⟨.strtol s, _⟩ => s ≠ none
  | _ => True

/-- The last argument that a use needs. -/
def Use.needs : Use → Nat
  | .str k | .ul k | .l k => k
  | .optL _ => 0

/-- The number of arguments that a command needs. -/
def CliCommand.arity (c : CliCommand) : Nat := (c.uses.map Use.needs).foldr max 0

/-- A command with too few arguments is reported. -/
def ReportsFew (args : List CString) (rc : Int) : Prop :=
  ∀ base c, parse args = some (base, c) → count args base < c.arity → rc = rmnetctlInvalidArg

namespace CliArgumentsAux

variable {args : List CString} {t t' : CliEvents} {us : List Use} {rc : Int} {base : Nat} {c : CliCommand} {a : Values}

/-- The number of arguments with which a use is in bounds: a number has to be there, and of a string the `NULL` may be read. -/
def room : Use → Nat
  | .str k | .optL k => k - 1
  | .ul k | .l k => k

/-- While nothing is done, no argument is read. -/
theorem inBounds_idle (h : ∀ e ∈ t, Idle args e) : ∀ e ∈ t, InBounds args e := by
  intro e he
  cases h e he with
  | argv k s hk => exact hk
  | _ => trivial

/-- The uses of arguments are in bounds exactly when there are enough arguments for each. -/
theorem inBounds_uses (hu : UsesEvents base us t) (hc : Conforms args t) (hb : base < args.length) :
    (∀ e ∈ t, InBounds args e) ↔ ∀ u ∈ us, room u ≤ count args base := by
  unfold count
  have hthere {k : Nat} {s : Option CString} (hm : ⟨.argv (base + k), s⟩ ∈ t) (hk : base + k ≤ args.length) :
      s ≠ none ↔ base + k < args.length := by
    rw [hc.argv _ s hm hk, ne_eq, List.getElem?_eq_none_iff, not_le]
  constructor
  · intro h u hmem
    cases u with
    | ul k =>
      obtain ⟨s, v, hm, hconv⟩ := hu.ul k hmem
      have hlt := (hthere hm (h _ hm)).mp (h _ hconv)
      change _ ≤ args.length - base - 1
      simp only [room]
      omega
    | l k =>
      obtain ⟨s, v, hm, hconv⟩ := hu.l k hmem
      have hlt := (hthere hm (h _ hm)).mp (h _ hconv)
      change _ ≤ args.length - base - 1
      simp only [room]
      omega
    | str k | optL k =>
      obtain ⟨s, hm⟩ := (hu.reads (base + k)).mpr ⟨_, hmem, rfl⟩
      have hle : base + k ≤ args.length := h _ hm
      change _ ≤ args.length - base - 1
      simp only [room]
      omega
  · rintro h ⟨o, x⟩ hm
    have hnull {k : Nat} (hk : k ≤ args.length - base - 1) (hm : ⟨.argv (base + k), none⟩ ∈ t) : False :=
      (hthere hm (by omega)).mpr (by omega) rfl
    cases o with
    | argv k =>
      obtain ⟨u, hmem, rfl⟩ := (hu.reads k).mp ⟨x, hm⟩
      have hle := h u hmem
      change base + u.index ≤ args.length
      cases u <;> simp only [room, Use.index] at hle ⊢ <;> omega
    | strtoul s =>
      rintro rfl
      obtain ⟨k, hk, hm⟩ := hu.ulNull x hm
      exact hnull (h _ hk) hm
    | strtol s =>
      rintro rfl
      obtain ⟨k, hk, hm⟩ := hu.lNull x hm
      exact hnull (h _ hk) hm
    | _ => trivial

/-- The checks of a command cover its uses, but for two commands. -/
theorem uses_covered {n : Nat} (h : c.checks ≤ n) :
    (∀ u ∈ c.uses, room u ≤ n) ↔ ¬(c = .setlepc ∧ n = 2) ∧ ¬(c = .flowactivate ∧ n = 5) := by
  cases c <;> simp [CliCommand.checks, CliCommand.uses, room] at h ⊢ <;> omega

/-- A command that is called with too few arguments misses one argument, the last one, or is `setlepc` and misses two. -/
theorem arity_le (c : CliCommand) : c.arity ≤ c.checks + 1 ∨ c = .setlepc ∧ c.arity = 4 := by
  cases c <;> decide

/-- The last argument of a command that does not check it is refused by the call if it is not there, but for `flowactivate`. -/
theorem call_few (hfew : c.checks < c.arity) (hc : c ≠ .flowactivate) (ha : Use.str c.arity ∈ c.uses → a.str c.arity = none)
    {t : Events} {x : Outcome} (hx : (c.call a).body.Exec t x) : x.rc = rmnetctlInvalidArg := by
  have hnone (p : Ptrs) (valid : Bool) : checked p valid none = none := by
    unfold checked
    split <;> rfl
  have hrefused : (c.call a).body = invalidArg := by
    cases c with
    | flowactivate => exact absurd rfl hc
    | assocnetdev | unassocnetdev | getnetdevassoc | getledf | getlidf =>
      have hname : a.str 1 = none := ha (by decide)
      change legacyCall (Option.map _ (checked given _ (a.str 1))) = _
      rw [hname, hnone]
      rfl
    | getlepc | unsetlepc =>
      have hname : a.str 2 = none := ha (by decide)
      change legacyCall (Option.map _ (checked given _ (a.str 2))) = _
      rw [hname, hnone]
      rfl
    | setledf =>
      have hname : a.str 4 = none := ha (by decide)
      change legacyCall (Option.map _ (checked given _ (a.str 4))) = _
      rw [hname, hnone]
      rfl
    | setlepc =>
      have hname : a.str 4 = none := ha (by decide)
      change legacyCall (Option.bind (checked given _ (a.str 3)) fun _ => Option.bind (checked given _ (a.str 4)) _) = _
      rw [hname, hnone]
      cases checked given _ (a.str 3) <;> rfl
    | _ => exact absurd hfew (by decide)
  rw [hrefused] at hx
  cases hx
  rfl

/-- A call with too few arguments misses a name, the last argument, and refuses it, but for the two commands. -/
theorem called_few (henough : c.checks ≤ count args base)
    (hc : ¬(c = .setlepc ∧ count args base = 2) ∧ ¬(c = .flowactivate ∧ count args base = 5)) (hlt : count args base < c.arity)
    (hb : base < args.length) (ha : ValuesOf args base c.uses.reverse a) {t : Events} {x : Outcome}
    (hx : (c.call a).body.Exec t x) : x.rc = rmnetctlInvalidArg := by
  have hlast : count args base + 1 = c.arity := by
    rcases arity_le c with hle | ⟨rfl, h4⟩
    · omega
    · have htwo : count args base ≠ 2 := fun h2 => hc.1 ⟨rfl, h2⟩
      have hchecks : CliCommand.setlepc.checks = 2 := rfl
      omega
  have hact : c ≠ .flowactivate := by
    rintro rfl
    have h6 : CliCommand.flowactivate.arity = 6 := by decide
    have hfive : count args base = 5 := by omega
    exact hc.2 ⟨rfl, hfive⟩
  have hfew : c.checks < c.arity := by omega
  unfold count at hlast
  refine call_few hfew hact (fun hmem => ?_) hx
  rw [ha.str _ (by simpa using hmem) (by omega), List.getElem?_eq_none_iff]
  omega

/-- The branch of a command that is not one of the two reads its arguments in bounds, and reports too few of them if it
has memory. -/
theorem command_arguments (h : CommandEnds args base c t rc) (hc : Conforms args t) (hb : base < args.length) :
    ((∀ e ∈ t, InBounds args e) ∧ (count args base < c.arity → rc = rmnetctlInvalidArg)) ↔
      (¬(c = .setlepc ∧ count args base = 2) ∧ ¬(c = .flowactivate ∧ count args base = 5)) ∧
        (count args base < c.arity → ⟨.malloc rmnetMaxStrLen, false⟩ ∉ t) := by
  have hchecks : c = .setlepc → c.checks = 2 := fun h => h ▸ rfl
  have hchecks' : c = .flowactivate → c.checks = 5 := fun h => h ▸ rfl
  cases h with
  | @missing t few idle quiet =>
    have hin : ∀ e ∈ t ++ [⟨.rmnetctlCleanup, ()⟩], InBounds args e := by
      rw [List.forall_mem_append]
      exact ⟨inBounds_idle idle, by simp [InBounds]⟩
    refine iff_of_true ⟨hin, fun _ => rfl⟩ ⟨⟨fun h => ?_, fun h => ?_⟩, fun _ hm => ?_⟩
    · have hn := hchecks h.1
      omega
    · have hn := hchecks' h.1
      omega
    · rcases List.mem_append.mp hm with hm | hm
      · exact nomatch idle _ hm
      · simp at hm
  | @noMemory t enough hl idle quiet e =>
    have hin : ∀ e' ∈ t ++ [⟨.malloc rmnetMaxStrLen, false⟩, ⟨.printStatus rmnetctlLibErr e, ()⟩, ⟨.rmnetctlCleanup, ()⟩],
        InBounds args e' := by
      rw [List.forall_mem_append]
      exact ⟨inBounds_idle idle, by simp [InBounds]⟩
    constructor
    · rintro ⟨-, hrc⟩
      exact ⟨⟨fun h => (by decide : CliCommand.getlepc ≠ .setlepc) (hl ▸ h.1), fun h =>
        (by decide : CliCommand.getlepc ≠ .flowactivate) (hl ▸ h.1)⟩,
        fun hlt => absurd (hrc hlt) (by decide)⟩
    · rintro ⟨-, hm⟩
      exact ⟨hin, fun hlt => absurd (by simp) (hm hlt)⟩
  | @called t t' a enough idle quiet uses x ms e =>
    have hbefore : ∀ e ∈ t, InBounds args e := by
      intro e he
      rcases idle e he with hi | rfl
      · exact inBounds_idle (t := [e]) (by simpa using hi) e (by simp)
      · trivial
    obtain ⟨-, hc2⟩ := conforms_append hc
    obtain ⟨hc3, hc4⟩ := conforms_append hc2
    have hin := (inBounds_uses (evalUses_events uses) hc3 hb).trans (uses_covered enough)
    rw [List.forall_mem_append, List.forall_mem_append, hin]
    constructor
    · rintro ⟨⟨-, h, -⟩, -⟩
      exact ⟨h, fun _ => malloc_not_called idle uses (by simp)⟩
    · rintro ⟨h, -⟩
      refine ⟨⟨hbefore, h, by simp [InBounds]⟩, ?_⟩
      intro hlt
      obtain ⟨tc, hcall, -⟩ := hc4.call _ _ List.mem_cons_self
      exact called_few enough h hlt hb (by simpa using evaluated uses hc3 (valuesOf_nil {})) hcall

end CliArgumentsAux

open CliArgumentsAux

variable {args : List CString} {t : CliEvents} {rc : Int}

/-- For every argument vector and every outcome of the operations, no argument behind the `NULL` is read, no `NULL` is converted,
and too few arguments are reported, exactly where the command is not `setlepc` with two arguments or `flowactivate` with five, and
where a command with too few arguments has its handle and its memory. -/
theorem arguments_iff (hx : (rmnetApiCall args.length).Exec t rc) (hc : Conforms args t) :
    ((∀ e ∈ t, InBounds args e) ∧ ReportsFew args rc) ↔
      ∀ base c, parse args = some (base, c) →
        (Opened t → ¬(c = .setlepc ∧ count args base = 2) ∧ ¬(c = .flowactivate ∧ count args base = 5)) ∧
          (count args base < c.arity → Opened t ∧ ⟨.malloc rmnetMaxStrLen, false⟩ ∉ t) := by
  have hends := cli_ends hx hc
  clear hx
  rw [opened_iff]
  unfold ReportsFew
  cases hends with
  | closed idle quiet =>
    constructor
    · rintro ⟨-, hrc⟩ base c hp
      exact ⟨fun ho => by simp [quiet] at ho, fun hlt => absurd (hrc base c hp hlt) (by decide)⟩
    · intro h
      refine ⟨inBounds_idle idle, ?_⟩
      intro base c hp hlt
      have ho := ((h base c hp).2 hlt).1
      simp [quiet] at ho
  | forgotten idle opened hp =>
    rw [hp]
    exact iff_of_true ⟨inBounds_idle idle, fun _ _ h => nomatch h⟩ fun _ _ h => nomatch h
  | @branch t₁ t₂ _ base c idle opened hb hp hx hc₂ =>
    have hinit : .init ∈ handleUses (t₁ ++ t₂) := by simp [opened]
    have hin₁ := inBounds_idle idle
    rw [List.forall_mem_append, hp]
    cases c with
    | none =>
      cases hx with | op _ _ hx =>
      cases hx with | op _ _ hx =>
      cases hx with | op _ _ hx =>
      cases hx
      exact iff_of_true ⟨⟨hin₁, by simp [InBounds]⟩, fun _ _ h => nomatch h⟩ fun _ _ h => nomatch h
    | some c =>
      have hcommand := command_arguments (command_ends hx hc₂ hb) hc₂ hb
      have hidle : (⟨.malloc rmnetMaxStrLen, false⟩ : Prog.Event CliOp.Res) ∉ t₁ := malloc_not_idle idle
      have hmem : (⟨.malloc rmnetMaxStrLen, false⟩ : Prog.Event CliOp.Res) ∉ t₁ ++ t₂ ↔ ⟨.malloc rmnetMaxStrLen, false⟩ ∉ t₂ := by
        rw [List.mem_append, or_iff_right hidle]
      rw [hmem]
      constructor
      · rintro ⟨⟨-, hin₂⟩, hrc⟩ base' c' heq
        cases heq
        obtain ⟨h1, h2⟩ := hcommand.mp ⟨hin₂, hrc base c rfl⟩
        exact ⟨fun _ => h1, fun hlt => ⟨hinit, h2 hlt⟩⟩
      · intro h
        obtain ⟨h1, h2⟩ := h base c rfl
        obtain ⟨hin₂, hrc⟩ := hcommand.mpr ⟨h1 hinit, fun hlt => (h2 hlt).2⟩
        refine ⟨⟨hin₁, hin₂⟩, ?_⟩
        intro base' c' heq
        cases heq
        exact hrc

/-- `rmnetcli -n getlink` is reported to miss its argument. -/
theorem arguments_getlink :
    (∀ e ∈ (typed getlinkOnly).events, InBounds getlinkOnly e) ∧
      ReportsFew getlinkOnly ((rmnetApiCall 2).run (typed getlinkOnly).answer) := by
  refine (arguments_iff (typed getlinkOnly).exec (typed getlinkOnly).conforms).mpr ?_
  intro base c hp
  have hp' : parse getlinkOnly = some (1, .getlink) := by decide
  have hevents : (typed getlinkOnly).events =
      [⟨.argv 0, getlinkOnly[0]?⟩, ⟨.rtrmnetCtlInit, (0, 0)⟩, ⟨.argv 1, getlinkOnly[1]?⟩, ⟨.argv 2, none⟩,
        ⟨.printStatus rmnetctlInvalidArg rmnetctlCfgFailureNoCommand, ()⟩, ⟨.rmnetctlCleanup, ()⟩] := rfl
  cases hp'.symm.trans hp
  exact ⟨fun _ => by decide, fun _ => ⟨opened_iff.mpr (by decide +kernel), by rw [hevents]; simp⟩⟩

/-- `setlepc 1 1`, which misses two arguments -/
def setlepcTwo : List CString := [⟨ascii "setlepc", by decide⟩, one, one]

/-- `rmnetcli setlepc 1 1` reads `argv[4]`, behind the `NULL` in `argv[3]`. -/
theorem not_arguments :
    ¬∀ (args : List CString) (t : CliEvents) (rc : Int), (rmnetApiCall args.length).Exec t rc → Conforms args t →
      (∀ e ∈ t, InBounds args e) ∧ ReportsFew args rc := by
  intro h
  have hin := (h _ _ _ (typed setlepcTwo).exec (typed setlepcTwo).conforms).1
  have hread : (⟨.argv 4, none⟩ : Prog.Event CliOp.Res) ∈ (typed setlepcTwo).events := List.mem_of_getElem? (i := 9) rfl
  have hle : 4 ≤ setlepcTwo.length := hin _ hread
  exact absurd hle (by decide)

end Pixel845.Rmnet
