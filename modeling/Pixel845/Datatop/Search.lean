import Pixel845.Datatop.Gen

/-!
# The scan of a directory

`dtop_search` of `datatop_gen_poll.c`, on a tree of regular files and directories. It reads an entry by its name relative to the
working directory, which each call changes and sets back. Its argument is an absolute path, so that a directory is opened, and a
file read, wherever the working directory is.
-/

namespace Pixel845.Datatop

/-! ## What is scanned -/

/-- The entries of a directory, in the order of `readdir`: each a regular file or a directory. -/
inductive Entries where
  | nil
  | file (name content : List UInt8) (rest : Entries)
  | dir (name : List UInt8) (entries : Entries) (rest : Entries)
deriving DecidableEq

/-- A directory of the tree, by the names on the way from its root. -/
abbrev Place := List (List UInt8)

/-- What `stat` finds: `S_ISREG` or `S_ISDIR`. -/
inductive FileKind where
  | reg
  | dir
deriving DecidableEq

namespace Entries

def names : Entries → List (List UInt8)
  | nil => []
  | file name _ rest => name :: rest.names
  | dir name _ rest => name :: rest.names

/-- The entry of a name, with the entries below it. -/
def find (name : List UInt8) : Entries → Option (FileKind × Entries)
  | nil => none
  | file n _ rest => if n = name then some (.reg, nil) else rest.find name
  | dir n entries rest => if n = name then some (.dir, entries) else rest.find name

/-- The entries at a place below. -/
def at? : Entries → Place → Option Entries
  | entries, [] => some entries
  | entries, name :: place =>
    match entries.find name with
    | some (.dir, below) => below.at? place
    | _ => none

end Entries

/-- The name is `.` or `..`. -/
def isDots (name : List UInt8) : Prop := name = [46] ∨ name = [46, 46]

instance (name : List UInt8) : Decidable (isDots name) := inferInstanceAs (Decidable (_ ∨ _))

/-- The working directory: one of the tree, or another one by its path. -/
inductive Cwd where
  | outside (path : List UInt8)
  | inside (place : Place)
deriving DecidableEq

/-- What `malloc` and the stack hold when a file is looked at. -/
structure Leftover where
  rest : Image
  line : Image
  priv : Vars
  dataPoints : Nat → DataPoint

/-- The surroundings of a scan: the tree with the path of its root, ending in a slash and as `getcwd` gives it, the entries whose
`stat` fails, and the directories whose `opendir` does. -/
structure Scan where
  root : Entries
  dir : List UInt8
  base : List UInt8
  statFails : Place → List UInt8 → Bool
  openFails : Place → Bool
  leftover : Place → List UInt8 → Leftover

namespace Scan

variable (w : Scan)

/-- The path of a directory, as `dtop_search` is given it. -/
def dirPath (place : Place) : List UInt8 := w.dir ++ place.flatMap fun name => name ++ [47]

/-- The path of the working directory. -/
def cwdPath : Cwd → List UInt8
  | .outside path => path
  | .inside place => w.base ++ place.flatMap fun name => 47 :: name

/-- `getcwd` has a buffer of 1024 bytes. -/
def getcwdFails (cwd : Cwd) : Prop := 1024 < (w.cwdPath cwd).length + 1

instance (cwd : Cwd) : Decidable (w.getcwdFails cwd) := inferInstanceAs (Decidable (_ < _))

/-- `stat` of a name, relative to the working directory. -/
def stat (cwd : Cwd) (name : List UInt8) : Option FileKind :=
  match cwd with
  | .outside _ => none
  | .inside place =>
    if w.statFails place name then none
    else if isDots name then some .dir
    else ((w.root.at? place).bind fun entries => entries.find name).map Prod.fst

end Scan

/-! ## Scanning -/

/-- The working directory, and the gatherers that were registered. -/
structure ScanState where
  cwd : Cwd
  registered : List Gatherer

/-- `dpg_construction`, which registers what it constructs -/
def ScanState.construct (s : ScanState) (w : Scan) (place : Place) (name content : List UInt8) : ScanState :=
  let m := w.leftover place name
  { s with
    registered := s.registered ++ (dpgConstruction (w.dirPath place) name content m.rest m.line m.priv m.dataPoints).toList }

/-- `DIR_SUCCESS` -/
def dirSuccess : Int32 := 0

/-- `DIR_FAILURE` -/
def dirFailure : Int32 := 1

/-- `dtop_search` on a directory, with its loop, which is given the working directory to set back. -/
def searchWith (w : Scan) (place : Place) (s : ScanState) (loop : Cwd → ScanState → Int32 × ScanState) : Int32 × ScanState :=
  if w.getcwdFails s.cwd then (-1, s)
  else if w.openFails place then (dirFailure, s)
  else loop s.cwd { s with cwd := .inside place }

/-- The loop of `dtop_search` over the entries that are left. What `stat` says about a name need not be true of the entry, as the
working directory may be another one. -/
def searchLoop (w : Scan) (place : Place) (cwd : Cwd) : Entries → ScanState → Int32 × ScanState
  | .nil, s => (dirSuccess, { s with cwd := cwd })
  | .file name content rest, s =>
    match w.stat s.cwd name with
    | none => (dirFailure, s)
    | some kind =>
      if isDots name then searchLoop w place cwd rest s
      else
        match kind with
        | .reg => searchLoop w place cwd rest (s.construct w place name content)
        -- a file that is taken for a directory cannot be opened as one
        | .dir => searchLoop w place cwd rest s
  | .dir name entries rest, s =>
    match w.stat s.cwd name with
    | none => (dirFailure, s)
    | some kind =>
      if isDots name then searchLoop w place cwd rest s
      else
        match kind with
        -- nothing can be read from a directory that is taken for a file
        | .reg => searchLoop w place cwd rest (s.construct w place name [])
        | .dir =>
          searchLoop w place cwd rest (searchWith w (place ++ [name]) s fun cwd s =>
            searchLoop w (place ++ [name]) cwd entries s).2

/-- `dtop_search`, on the root of the tree -/
def dtopSearch (w : Scan) (s : ScanState) : Int32 × ScanState := searchWith w [] s fun cwd s => searchLoop w [] cwd w.root s

end Pixel845.Datatop
