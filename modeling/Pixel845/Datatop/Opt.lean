import Pixel845.Lib.Numeral
import Pixel845.Lib.Prog

/-!
# Options

`datatop_opt.c`, with `getopt` on its option string, and the checks of `datatop_fileops.c` that it makes. The file system belongs
to the surroundings. A string is the list of its characters, without the terminator; `long` has 64 bits. What is printed to the
terminal is left out.
-/

namespace Pixel845.Datatop

/-! ## The command line -/

/-- What `getopt` returns on `"phri:t:w:o:s:n:"`, with `optarg`; `unknown` is `'?'`. -/
inductive Opt where
  | p
  | h
  | r
  | i (optarg : List UInt8)
  | t (optarg : List UInt8)
  | w (optarg : List UInt8)
  | o (optarg : List UInt8)
  | s (optarg : List UInt8)
  | n (optarg : List UInt8)
  | unknown
deriving DecidableEq

/-- What a letter is in the option string: an option, or one that has an argument. -/
inductive OptLetter where
  | plain (opt : Opt)
  | withArg (opt : List UInt8 → Opt)

/-- `"phri:t:w:o:s:n:"` -/
def optLetter (c : UInt8) : OptLetter :=
  if c = 112 then .plain .p
  else if c = 104 then .plain .h
  else if c = 114 then .plain .r
  else if c = 105 then .withArg .i
  else if c = 116 then .withArg .t
  else if c = 119 then .withArg .w
  else if c = 111 then .withArg .o
  else if c = 115 then .withArg .s
  else if c = 110 then .withArg .n
  else .plain .unknown

/-- The options of one element of `argv`, behind its `-`, and the option that takes the next element as its argument. -/
def optCluster : List UInt8 → List Opt × Option (List UInt8 → Opt)
  | [] => ([], none)
  | c :: cs =>
    match optLetter c with
    | .plain opt =>
      let (opts, next) := optCluster cs
      (opt :: opts, next)
    | .withArg opt => if cs = [] then ([], some opt) else ([opt cs], none)

/-- What calls of `getopt` return until `-1`, from the elements of `argv` that are left and the option that waits for its
argument. What is no option is skipped (`permute`) or ends the options, as the implementation has it. -/
def getopt (permute : Bool) : Option (List UInt8 → Opt) → List (List UInt8) → List Opt
  | none, [] => []
  | some _, [] => [.unknown]
  | some opt, arg :: args => opt arg :: getopt permute none args
  | none, arg :: args =>
    match arg with
    | [45, 45] => []
    | 45 :: c :: cs =>
      let (opts, next) := optCluster (c :: cs)
      opts ++ getopt permute next args
    | _ => if permute then getopt permute none args else []

/-! ## The options -/

/-- `DEFAULT_POLL_INTERVAL` -/
def defaultPollInterval : Int64 := 1000000

/-- `POLL_NOT_SPECIFIED` -/
def pollNotSpecified : Int64 := -1

/-- `POLL_TIME_DEFAULT` -/
def pollTimeDefault : Int64 := 30

/-- `DEFAULT_NICE` -/
def defaultNice : Int32 := 19

/-- `OUT_DIR_LEN_MAX` -/
def outDirLenMax : Nat := 150

/-- An array of characters: the string in it, and how many bytes from its start on were written. -/
structure CharArray where
  text : List UInt8
  written : Nat
deriving DecidableEq

def CharArray.strcpy (a : CharArray) (s : List UInt8) : CharArray := ⟨s, max a.written (s.length + 1)⟩

def CharArray.strcat (a : CharArray) (s : List UInt8) : CharArray := ⟨a.text ++ s, max a.written (a.text.length + s.length + 1)⟩

/-- `struct cli_opts`. Between `out_dir` and the next field are two bytes of padding. -/
structure CliOpts where
  printCl : Int32
  pollPer : Int64
  pollTime : Int64
  cliHelp : Int32
  fileName : Option (List UInt8)
  snapshotFile : Option (List UInt8)
  iptablesRulesRoutes : Int32
  outDir : CharArray
  printCsv : Int32
  pollTimeSelected : Int32
  priority : Int32
deriving DecidableEq

/-- `dtop_load_default_options` -/
def dtopLoadDefaultOptions : CliOpts where
  printCl := 0
  pollPer := 0
  pollTime := 0
  cliHelp := 0
  fileName := none
  snapshotFile := none
  iptablesRulesRoutes := 0
  outDir := ⟨[], 0⟩
  printCsv := 0
  pollTimeSelected := 0
  priority := defaultNice

/-- The integer that a string gives in decimal: that of its digits behind white space and a sign, and zero if there are none. -/
def givenInt (s : List UInt8) : Int :=
  match scanInt s with
  | none => 0
  | some (neg, n) => signedInt neg n

/-- `strtol(s, 0, 10)` -/
def strtolDecimal (s : List UInt8) : Int64 := Int64.ofInt (max (-2 ^ 63) (min (2 ^ 63 - 1) (givenInt s)))

/-! ## Parsing -/

/-- What the parser asks of the file system. -/
inductive OptOp where
  | accessExists (path : List UInt8)
  | accessWrite (path : List UInt8)
  | mkdir (path : List UInt8)
deriving DecidableEq

/-- The answers: whether the call returned zero. -/
@[reducible] def OptOp.Res : OptOp → Type := fun _ => Bool

abbrev OptM := Prog OptOp OptOp.Res

/-- `dtop_check_writefile_access`, whether it is `VALID` -/
def dtopCheckWritefileAccess (fw : List UInt8) : OptM Bool := do
  let found ← Prog.call (.accessExists fw)
  if found then return false
  let writable ← Prog.call (.accessWrite fw)
  if writable then return false
  return true

/-- `dtop_check_out_dir_presence`, whether it is `VALID` -/
def dtopCheckOutDirPresence (fw : List UInt8) : OptM Bool := do
  let found ← Prog.call (.accessExists fw)
  return found

/-- `dtop_create_dir`, whether it is `VALID`: it is if the directory was not created. -/
def dtopCreateDir (fullPath : List UInt8) : OptM Bool := do
  let created ← Prog.call (.mkdir fullPath)
  return !created

/-- What `dtop_parse_cli_opts` returns before its options are at an end: `PARSE_FAILURE` or `PARSE_FORCE_EXIT`. -/
inductive ParseEnd where
  | failure
  | forceExit
deriving DecidableEq

/-- One round of the loop: what is returned at once, if anything, and the options afterwards. -/
def parseOption (timestamp : List UInt8) (clopts : CliOpts) : Opt → OptM (Option ParseEnd × CliOpts)
  | .p => return (none, { clopts with printCl := 1 })
  | .h => return (some .forceExit, clopts)
  | .n optarg => do
    let clopts := { clopts with priority := (strtolDecimal optarg).toInt32 }
    if clopts.priority > 19 ∨ clopts.priority < -20 then return (some .failure, clopts)
    return (none, clopts)
  | .i optarg => do
    let clopts := { clopts with pollPer := strtolDecimal optarg }
    if clopts.pollPer < 200000 then return (some .failure, clopts)
    return (none, clopts)
  | .t optarg => do
    let clopts := { clopts with pollTime := strtolDecimal optarg, pollTimeSelected := 1 }
    if clopts.pollTime ≤ 0 then return (some .failure, clopts)
    return (none, clopts)
  | .w optarg => do
    let valid ← dtopCheckWritefileAccess optarg
    if valid then return (none, { clopts with fileName := some optarg, printCsv := 1 })
    return (some .failure, clopts)
  | .o optarg => do
    let valid ← dtopCheckOutDirPresence optarg
    if !valid then return (some .failure, clopts)
    if outDirLenMax < optarg.length + timestamp.length then return (some .failure, clopts)
    let clopts := { clopts with outDir := ((clopts.outDir.strcpy optarg).strcat [47]).strcat timestamp }
    let valid ← dtopCreateDir clopts.outDir.text
    -- `VALID` is what is left if `mkdir` fails
    if valid then return (some .failure, clopts)
    return (none, clopts)
  | .s optarg => do
    let valid ← dtopCheckWritefileAccess optarg
    if valid then return (none, { clopts with snapshotFile := some optarg })
    return (some .failure, clopts)
  | .r => return (none, { clopts with iptablesRulesRoutes := 1 })
  | .unknown => return (some .failure, clopts)

/-- The loop over the options. -/
def parseLoop (timestamp : List UInt8) : List Opt → CliOpts → OptM (Option ParseEnd × CliOpts)
  | [], clopts => return (none, clopts)
  | opt :: opts, clopts => do
    let (e, clopts) ← parseOption timestamp clopts opt
    match e with
    | some e => return (some e, clopts)
    | none => parseLoop timestamp opts clopts

/-- The defaults that depend on other options. -/
def applyDefaults (clopts : CliOpts) : CliOpts :=
  let clopts := if clopts.pollTime = 0 then
      if clopts.printCsv = 1 then { clopts with pollTime := pollNotSpecified }
      else { clopts with pollTime := pollTimeDefault }
    else clopts
  if clopts.pollPer = 0 then { clopts with pollPer := defaultPollInterval } else clopts

/-- `dtop_parse_cli_opts`, at a time that `strftime` gives as `timestamp`; `none` is `PARSE_SUCCESS`. -/
def dtopParseCliOpts (permute : Bool) (timestamp : List UInt8) (argv : List (List UInt8)) (clopts : CliOpts) :
    OptM (Option ParseEnd × CliOpts) :=
  match argv with
  | [] => return (some .failure, clopts)
  | _ :: args => do
    let (e, clopts) ← parseLoop timestamp (getopt permute none args) clopts
    match e with
    | some e => return (some e, clopts)
    | none => return (none, applyDefaults clopts)

example : getopt true none [[45, 112, 105], [53], [120], [45, 110, 55], [45, 45], [45, 114]] = [.p, .i [53], .n [55]] := by decide

end Pixel845.Datatop
