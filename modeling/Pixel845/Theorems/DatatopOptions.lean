import Pixel845.Datatop.Opt

/-!
# Accepted options

What is accepted is well formed, but for two things (`parse_wellFormed_iff`): the length test of an output directory forgets the
slash and the terminator, and a niceness is cut to 32 bits before it is compared with its bounds.
-/

namespace Pixel845.Datatop

/-! ## Well-formed options -/

namespace Opt

/-- The argument of `-o`. -/
def oArg : Opt → Option (List UInt8)
  | .o optarg => some optarg
  | _ => none

/-- The argument of `-n`. -/
def nArg : Opt → Option (List UInt8)
  | .n optarg => some optarg
  | _ => none

end Opt

/-- The argument that counts. -/
def lastArg (arg : Opt → Option (List UInt8)) (opts : List Opt) : Option (List UInt8) := (opts.filterMap arg).getLast?

/-- The options of a command line. -/
def argvOpts (permute : Bool) (argv : List (List UInt8)) : List Opt := getopt permute none argv.tail

/-- The options that were accepted for a command line are well formed. -/
structure WellFormed (timestamp : List UInt8) (opts : List Opt) (clopts : CliOpts) : Prop where
  outDir : ∀ arg, lastArg Opt.oArg opts = some arg →
    clopts.outDir.text = arg ++ [47] ++ timestamp ∧ clopts.outDir.text.length + 1 ≤ outDirLenMax
  outDir_unset : lastArg Opt.oArg opts = none → clopts.outDir.text = []
  written : clopts.outDir.written ≤ outDirLenMax
  priority : ∀ arg, lastArg Opt.nArg opts = some arg → clopts.priority.toInt = givenInt arg
  priority_range : -20 ≤ clopts.priority.toInt ∧ clopts.priority.toInt ≤ 19
  priority_unset : lastArg Opt.nArg opts = none → clopts.priority = defaultNice
  pollPer : 200000 ≤ clopts.pollPer
  pollTime : 0 < clopts.pollTime ∨ (clopts.pollTime = pollNotSpecified ∧ clopts.printCsv = 1)
  printCsv : clopts.printCsv ≠ 0 ↔ clopts.fileName.isSome

namespace OptionsAux

variable {timestamp : List UInt8} {opts : List Opt} {opt : Opt} {clopts clopts' : CliOpts} {t : List (Prog.Event OptOp.Res)}

/-! ### One option -/

/-- The value of `out_dir` for an argument. -/
def outDirOf (timestamp arg : List UInt8) (a : CharArray) : CharArray := ((a.strcpy arg).strcat [47]).strcat timestamp

/-- How far the name of the directory is written. -/
theorem outDirOf_written (timestamp arg : List UInt8) (a : CharArray) :
    (outDirOf timestamp arg a).written = max a.written (arg.length + timestamp.length + 2) := by
  simp only [outDirOf, CharArray.strcpy, CharArray.strcat, List.length_append, List.length_singleton]
  omega

/-- What an option that is accepted does. -/
inductive Taken (timestamp : List UInt8) (clopts : CliOpts) : Opt → CliOpts → Prop
  | p : Taken timestamp clopts .p { clopts with printCl := 1 }
  | n (arg : List UInt8) (hlo : -20 ≤ (strtolDecimal arg).toInt32) (hhi : (strtolDecimal arg).toInt32 ≤ 19) :
      Taken timestamp clopts (.n arg) { clopts with priority := (strtolDecimal arg).toInt32 }
  | i (arg : List UInt8) (h : 200000 ≤ strtolDecimal arg) : Taken timestamp clopts (.i arg)
    { clopts with pollPer := strtolDecimal arg }
  | t (arg : List UInt8) (h : 0 < strtolDecimal arg) :
      Taken timestamp clopts (.t arg) { clopts with pollTime := strtolDecimal arg, pollTimeSelected := 1 }
  | w (arg : List UInt8) : Taken timestamp clopts (.w arg) { clopts with fileName := some arg, printCsv := 1 }
  | o (arg : List UInt8) (h : arg.length + timestamp.length ≤ outDirLenMax) :
      Taken timestamp clopts (.o arg) { clopts with outDir := outDirOf timestamp arg clopts.outDir }
  | s (arg : List UInt8) : Taken timestamp clopts (.s arg) { clopts with snapshotFile := some arg }
  | r : Taken timestamp clopts .r { clopts with iptablesRulesRoutes := 1 }

/-- An option that is parsed is taken. -/
theorem parseOption_taken (hx : (parseOption timestamp clopts opt).Exec t (none, clopts')) :
    Taken timestamp clopts opt clopts' := by
  cases opt with
  | p =>
    cases hx
    exact .p
  | h => cases hx
  | r =>
    cases hx
    exact .r
  | i arg =>
    simp only [parseOption] at hx
    split at hx
    · cases hx
    · next h =>
      cases hx
      exact .i arg (Int64.not_lt.mp h)
  | t arg =>
    simp only [parseOption] at hx
    split at hx
    · cases hx
    · next h =>
      cases hx
      exact .t arg (Int64.not_le.mp h)
  | w arg =>
    obtain ⟨t₁, t₂, valid, rfl, -, hx⟩ := Prog.exec_bind hx
    cases valid with
    | false => cases hx
    | true =>
      cases hx
      exact .w arg
  | o arg =>
    obtain ⟨t₁, t₂, valid, rfl, -, hx⟩ := Prog.exec_bind hx
    cases valid with
    | false => cases hx
    | true =>
      simp only [Bool.not_true, Bool.false_eq_true, if_false] at hx
      split at hx
      · cases hx
      · next h =>
        obtain ⟨t₃, t₄, valid, rfl, -, hx⟩ := Prog.exec_bind hx
        cases valid with
        | true => cases hx
        | false =>
          cases hx
          exact .o arg (Nat.not_lt.mp h)
  | s arg =>
    obtain ⟨t₁, t₂, valid, rfl, -, hx⟩ := Prog.exec_bind hx
    cases valid with
    | false => cases hx
    | true =>
      cases hx
      exact .s arg
  | n arg =>
    simp only [parseOption] at hx
    split at hx
    · cases hx
    · next h =>
      cases hx
      obtain ⟨hhi, hlo⟩ := not_or.mp h
      exact .n arg (Int32.not_lt.mp hlo) (Int32.not_lt.mp hhi)
  | unknown => cases hx

/-! ### All options -/

/-- What holds of the options after some of them were taken, from the defaults on. -/
structure Parsed (timestamp : List UInt8) (opts : List Opt) (clopts : CliOpts) : Prop where
  outDir : clopts.outDir.text = ((lastArg Opt.oArg opts).map fun arg => arg ++ [47] ++ timestamp).getD []
  written : clopts.outDir.written ≤ outDirLenMax ↔
    ∀ arg ∈ opts.filterMap Opt.oArg, arg.length + timestamp.length + 2 ≤ outDirLenMax
  priority : clopts.priority = ((lastArg Opt.nArg opts).map fun arg => (strtolDecimal arg).toInt32).getD defaultNice
  priority_range : -20 ≤ clopts.priority ∧ clopts.priority ≤ 19
  pollPer : clopts.pollPer = 0 ∨ 200000 ≤ clopts.pollPer
  pollTime : clopts.pollTime = 0 ∨ 0 < clopts.pollTime
  printCsv : (clopts.printCsv = 0 ∧ clopts.fileName = none) ∨ (clopts.printCsv = 1 ∧ clopts.fileName.isSome)

/-- Without options the defaults hold. -/
theorem parsed_default (timestamp : List UInt8) : Parsed timestamp [] dtopLoadDefaultOptions where
  outDir := rfl
  written := by simp [dtopLoadDefaultOptions]
  priority := rfl
  priority_range := by decide
  pollPer := .inl rfl
  pollTime := .inl rfl
  printCsv := .inl ⟨rfl, rfl⟩

/-- An option of another kind adds no argument. -/
theorem filterMap_concat_none {arg : Opt → Option (List UInt8)} (h : arg opt = none) :
    (opts ++ [opt]).filterMap arg = opts.filterMap arg := by
  rw [List.filterMap_append, List.filterMap_cons_none h]
  exact List.append_nil _

/-- The last option of a kind has the last argument. -/
theorem lastArg_concat {arg : Opt → Option (List UInt8)} {a : List UInt8} (h : arg opt = some a) :
    lastArg arg (opts ++ [opt]) = some a := by
  unfold lastArg
  rw [List.filterMap_append, List.filterMap_cons_some h]
  exact List.getLast?_concat

/-- An option other than `-o` and `-n` keeps what these have set. -/
theorem Parsed.frame (h : Parsed timestamp opts clopts) (ho : opt.oArg = none) (hn : opt.nArg = none)
    (houtDir : clopts'.outDir = clopts.outDir) (hpriority : clopts'.priority = clopts.priority)
    (hper : clopts'.pollPer = 0 ∨ 200000 ≤ clopts'.pollPer) (htime : clopts'.pollTime = 0 ∨ 0 < clopts'.pollTime)
    (hcsv : (clopts'.printCsv = 0 ∧ clopts'.fileName = none) ∨ (clopts'.printCsv = 1 ∧ clopts'.fileName.isSome)) :
    Parsed timestamp (opts ++ [opt]) clopts' where
  outDir := by
    unfold lastArg
    rw [houtDir, filterMap_concat_none ho]
    exact h.outDir
  written := by
    rw [houtDir, filterMap_concat_none ho]
    exact h.written
  priority := by
    unfold lastArg
    rw [hpriority, filterMap_concat_none hn]
    exact h.priority
  priority_range := by
    rw [hpriority]
    exact h.priority_range
  pollPer := hper
  pollTime := htime
  printCsv := hcsv

/-- Another option that is taken. -/
theorem Taken.parsed (h : Taken timestamp clopts opt clopts') (hp : Parsed timestamp opts clopts) :
    Parsed timestamp (opts ++ [opt]) clopts' := by
  cases h with
  | p => exact hp.frame rfl rfl rfl rfl hp.pollPer hp.pollTime hp.printCsv
  | n arg hlo hhi =>
    exact {
      outDir := by
        unfold lastArg
        rw [filterMap_concat_none rfl]
        exact hp.outDir
      written := by
        rw [filterMap_concat_none rfl]
        exact hp.written
      priority := by
        rw [lastArg_concat (a := arg) rfl]
        rfl
      priority_range := ⟨hlo, hhi⟩
      pollPer := hp.pollPer
      pollTime := hp.pollTime
      printCsv := hp.printCsv }
  | i arg h => exact hp.frame rfl rfl rfl rfl (.inr h) hp.pollTime hp.printCsv
  | t arg h => exact hp.frame rfl rfl rfl rfl hp.pollPer (.inr h) hp.printCsv
  | w arg => exact hp.frame rfl rfl rfl rfl hp.pollPer hp.pollTime (.inr ⟨rfl, rfl⟩)
  | o arg h =>
    exact {
      outDir := by
        rw [lastArg_concat (a := arg) rfl]
        rfl
      written := by
        have hwritten := hp.written
        have hlast : [Opt.o arg].filterMap Opt.oArg = [arg] := rfl
        rw [List.filterMap_append, hlast, List.forall_mem_append, ← hwritten]
        simp only [outDirOf_written, List.mem_singleton, forall_eq]
        omega
      priority := by
        unfold lastArg
        rw [filterMap_concat_none rfl]
        exact hp.priority
      priority_range := hp.priority_range
      pollPer := hp.pollPer
      pollTime := hp.pollTime
      printCsv := hp.printCsv }
  | s arg => exact hp.frame rfl rfl rfl rfl hp.pollPer hp.pollTime hp.printCsv
  | r => exact hp.frame rfl rfl rfl rfl hp.pollPer hp.pollTime hp.printCsv

/-- The loop, from any options on. -/
theorem parseLoop_parsed {todo : List Opt} (hp : Parsed timestamp opts clopts)
    (hx : (parseLoop timestamp todo clopts).Exec t (none, clopts')) : Parsed timestamp (opts ++ todo) clopts' := by
  induction todo generalizing opts clopts t with
  | nil =>
    cases hx
    rw [List.append_nil]
    exact hp
  | cons opt todo ih =>
    obtain ⟨t₁, t₂, ⟨e, c⟩, rfl, hopt, hx⟩ := Prog.exec_bind hx
    cases e with
    | some e => cases hx
    | none =>
      have hstep := ih ((parseOption_taken hopt).parsed hp) hx
      rw [List.append_assoc] at hstep
      exact hstep

/-- A command line that is parsed gives what its options say. -/
theorem parse_parsed {permute : Bool} {argv : List (List UInt8)}
    (hx : (dtopParseCliOpts permute timestamp argv dtopLoadDefaultOptions).Exec t (none, clopts)) :
    ∃ c, Parsed timestamp (argvOpts permute argv) c ∧ clopts = applyDefaults c := by
  cases argv with
  | nil => cases hx
  | cons prog args =>
    obtain ⟨t₁, t₂, ⟨e, c⟩, rfl, hloop, hx⟩ := Prog.exec_bind hx
    cases e with
    | some e => cases hx
    | none =>
      cases hx
      exact ⟨c, parseLoop_parsed (parsed_default timestamp) hloop, rfl⟩

/-- The defaults that are applied last change the two times only. -/
theorem applyDefaults_eq (clopts : CliOpts) : applyDefaults clopts = { clopts with
    pollPer := if clopts.pollPer = 0 then defaultPollInterval else clopts.pollPer
    pollTime := if clopts.pollTime = 0 then (if clopts.printCsv = 1 then pollNotSpecified else pollTimeDefault)
      else clopts.pollTime } := by
  unfold applyDefaults
  by_cases htime : clopts.pollTime = 0
  · by_cases hcsv : clopts.printCsv = 1
    · by_cases hper : clopts.pollPer = 0 <;> simp [htime, hcsv, hper]
    · by_cases hper : clopts.pollPer = 0 <;> simp [htime, hcsv, hper]
  · by_cases hper : clopts.pollPer = 0 <;> simp [htime, hper]

/-- Accepted options poll with a period of at least 200000 microseconds, for a positive time or, if a file is written,
without an end. -/
theorem accepted_times (h : Parsed timestamp opts clopts) :
    200000 ≤ (applyDefaults clopts).pollPer ∧
      (0 < (applyDefaults clopts).pollTime ∨
        ((applyDefaults clopts).pollTime = pollNotSpecified ∧ (applyDefaults clopts).printCsv = 1)) := by
  rw [applyDefaults_eq]
  refine ⟨?_, ?_⟩
  · by_cases hper : clopts.pollPer = 0
    · simp only [hper, if_true]
      decide
    · simp only [hper, if_false]
      exact h.pollPer.resolve_left hper
  · by_cases htime : clopts.pollTime = 0
    · by_cases hcsv : clopts.printCsv = 1
      · refine .inr ⟨?_, hcsv⟩
        simp only [htime, hcsv, if_true]
      · simp only [htime, hcsv, if_true, if_false]
        exact .inl (by decide)
    · simp only [htime, if_false]
      exact .inl (h.pollTime.resolve_left htime)

/-- A niceness within its bounds is the integer given exactly if that is an `int`. -/
theorem niceness_eq_iff {arg : List UInt8} (hlo : -20 ≤ (strtolDecimal arg).toInt32) (hhi : (strtolDecimal arg).toInt32 ≤ 19) :
    (strtolDecimal arg).toInt32.toInt = givenInt arg ↔ IntType.i32.Has (givenInt arg) := by
  have hlo' : (-20 : Int) ≤ (strtolDecimal arg).toInt32.toInt := Int32.le_iff_toInt_le.mp hlo
  have hhi' : (strtolDecimal arg).toInt32.toInt ≤ 19 := Int32.le_iff_toInt_le.mp hhi
  have hlong : (max (-2 ^ 63) (min (2 ^ 63 - 1) (givenInt arg))).bmod Int64.size =
    max (-2 ^ 63) (min (2 ^ 63 - 1) (givenInt arg)) :=
    Int.bmod_eq_of_le (by simp only [Int64.size]; omega) (by simp only [Int64.size]; omega)
  have hcut : (strtolDecimal arg).toInt32.toInt = IntType.i32.wrap (max (-2 ^ 63) (min (2 ^ 63 - 1) (givenInt arg))) := by
    unfold strtolDecimal
    rw [Int64.toInt_toInt32, Int64.toInt_ofInt, hlong]
    rfl
  constructor
  · intro h
    unfold IntType.Has
    omega
  · intro h
    have hsat : max (-2 ^ 63) (min (2 ^ 63 - 1) (givenInt arg)) = givenInt arg := by
      unfold IntType.Has at h
      omega
    rw [hcut, hsat]
    exact (IntType.wrap_eq_iff _ _).mpr h

/-- An output directory that passes the length test is taken, if the file system lets it be made. -/
theorem parseOption_o {arg : List UInt8} (h : arg.length + timestamp.length ≤ outDirLenMax) :
    (parseOption timestamp clopts (.o arg)).Exec [⟨.accessExists arg, true⟩, ⟨.mkdir (arg ++ [47] ++ timestamp), true⟩]
      (none, { clopts with outDir := outDirOf timestamp arg clopts.outDir }) := by
  simp only [parseOption, if_neg (Nat.not_lt.mpr h)]
  exact .op _ _ (.op _ _ (.ret _))

/-- The directory that is given is used. -/
theorem parse_outDir (timestamp arg : List UInt8) (hne : arg ≠ []) (h : arg.length + timestamp.length ≤ outDirLenMax) :
    (dtopParseCliOpts true timestamp [[100], 45 :: 111 :: arg] dtopLoadDefaultOptions).Exec
      [⟨.accessExists arg, true⟩, ⟨.mkdir (arg ++ [47] ++ timestamp), true⟩]
      (none, applyDefaults { dtopLoadDefaultOptions with outDir := outDirOf timestamp arg ⟨[], 0⟩ }) := by
  have hopts : getopt true none [45 :: 111 :: arg] = [.o arg] := by
    simp [getopt, optCluster, optLetter, hne]
  have hloop : (parseLoop timestamp [.o arg] dtopLoadDefaultOptions).Exec
      [⟨.accessExists arg, true⟩, ⟨.mkdir (arg ++ [47] ++ timestamp), true⟩]
      (none, { dtopLoadDefaultOptions with outDir := outDirOf timestamp arg ⟨[], 0⟩ }) :=
    Prog.Exec.bind (parseOption_o h) (.ret _)
  simp only [dtopParseCliOpts, hopts]
  exact Prog.Exec.bind hloop (.ret _)

end OptionsAux

open OptionsAux

/-- Accepted options are well formed exactly if each output directory leaves room for a slash, the time and a terminator, and the
niceness that counts is an `int`. -/
theorem parse_wellFormed_iff {permute : Bool} {timestamp : List UInt8} {argv : List (List UInt8)}
    {t : List (Prog.Event OptOp.Res)} {clopts : CliOpts}
    (hx : (dtopParseCliOpts permute timestamp argv dtopLoadDefaultOptions).Exec t (none, clopts)) :
    WellFormed timestamp (argvOpts permute argv) clopts ↔
      (∀ arg ∈ (argvOpts permute argv).filterMap Opt.oArg, arg.length + timestamp.length + 2 ≤ outDirLenMax) ∧
        ∀ arg, lastArg Opt.nArg (argvOpts permute argv) = some arg → IntType.i32.Has (givenInt arg) := by
  obtain ⟨c, hc, rfl⟩ := parse_parsed hx
  obtain ⟨hper, htime⟩ := accepted_times hc
  rw [applyDefaults_eq] at hper htime ⊢
  have hlo : (-20 : Int) ≤ c.priority.toInt := Int32.le_iff_toInt_le.mp hc.priority_range.1
  have hhi : c.priority.toInt ≤ 19 := Int32.le_iff_toInt_le.mp hc.priority_range.2
  have hpriority : ∀ arg, lastArg Opt.nArg (argvOpts permute argv) = some arg →
      (c.priority.toInt = givenInt arg ↔ IntType.i32.Has (givenInt arg)) := by
    intro arg harg
    have heq : c.priority = (strtolDecimal arg).toInt32 := by
      rw [hc.priority, harg]
      rfl
    have hrange := hc.priority_range
    rw [heq] at hrange ⊢
    exact niceness_eq_iff hrange.1 hrange.2
  constructor
  · intro h
    exact ⟨hc.written.mp h.written, fun arg harg => (hpriority arg harg).mp (h.priority arg harg)⟩
  · rintro ⟨hlen, hint⟩
    exact {
      outDir := by
        intro arg harg
        have htext : c.outDir.text = arg ++ [47] ++ timestamp := by
          rw [hc.outDir, harg]
          rfl
        have hfits := hlen arg (List.mem_of_getLast? harg)
        refine ⟨htext, ?_⟩
        rw [htext, List.length_append, List.length_append, List.length_singleton]
        omega
      outDir_unset := by
        intro harg
        rw [hc.outDir, harg]
        rfl
      written := hc.written.mpr hlen
      priority := fun arg harg => (hpriority arg harg).mpr (hint arg harg)
      priority_range := ⟨hlo, hhi⟩
      priority_unset := by
        intro harg
        rw [hc.priority, harg]
        rfl
      pollPer := hper
      pollTime := htime
      printCsv := by
        rcases hc.printCsv with ⟨hcsv, hname⟩ | ⟨hcsv, hname⟩
        · simp [hcsv, hname]
        · simp [hcsv, hname] }

/-- `datatop -od -n5` at the time `t` -/
theorem parse_wellFormed_dir : WellFormed [116] [.o [100], .n [53]]
    (applyDefaults { dtopLoadDefaultOptions with outDir := ⟨[100, 47, 116], 4⟩, priority := 5 }) := by
  have hx : (dtopParseCliOpts true [116] [[100], [45, 111, 100], [45, 110, 53]] dtopLoadDefaultOptions).Exec
      [⟨.accessExists [100], true⟩, ⟨.mkdir [100, 47, 116], true⟩]
      (none, applyDefaults { dtopLoadDefaultOptions with outDir := ⟨[100, 47, 116], 4⟩, priority := 5 }) :=
    .op _ _ (.op _ _ (.ret _))
  exact (parse_wellFormed_iff hx).mpr ⟨by decide, by decide⟩

/-- A directory of 130 characters with a time of 19 is accepted, and a byte is written behind the array. -/
theorem not_parse_wellFormed : ¬∀ permute timestamp argv t clopts,
    (dtopParseCliOpts permute timestamp argv dtopLoadDefaultOptions).Exec t (none, clopts) →
      WellFormed timestamp (argvOpts permute argv) clopts := by
  intro h
  have hx := parse_outDir (List.replicate 19 48) (List.replicate 130 97) (by simp) (by simp [outDirLenMax])
  have hwritten := (h _ _ _ _ _ hx).written
  rw [applyDefaults_eq] at hwritten
  simp [outDirOf_written, outDirLenMax] at hwritten

end Pixel845.Datatop
