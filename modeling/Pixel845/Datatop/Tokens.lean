import Pixel845.Datatop.Dev
import Pixel845.Datatop.Stat
import Pixel845.Lib.Stateful

/-!
# The tokenisers, access by access

The tokenisers once more, as programs that read and write one byte of the line, or one entry of the dictionary, at a time, in the
order of the source. What they compute is what the tokenisers above say; here one can ask which bytes and which entries they
touch. A loop that has no bound in the source is given a number of rounds, and `none` says that it does not end in them.
-/

namespace Pixel845.Datatop

/-! ## Accesses -/

/-- An access to the line or to the dictionary; a pointer into the line by its offset. -/
inductive TokOp where
  | get (i : Nat)
  | put (i : Nat) (c : UInt8)
  | setKey (k off : Nat)
  | setVal (k off : Nat)
  | setMax (n : Nat)
deriving DecidableEq

/-- A byte that is read, or nothing. -/
@[reducible] def TokOp.Res : TokOp → Type
  | .get _ => UInt8
  | .put _ _ | .setKey _ _ | .setVal _ _ | .setMax _ => Unit

/-- The offset of the byte of the line that is touched. -/
def TokOp.offset? : TokOp → Option Nat
  | .get i | .put i _ => some i
  | .setKey _ _ | .setVal _ _ | .setMax _ => none

/-- The index of the entry of the dictionary that is written. -/
def TokOp.entry? : TokOp → Option Nat
  | .setKey k _ | .setVal k _ => some k
  | .get _ | .put _ _ | .setMax _ => none

/-- The line and the dictionary. -/
structure TokState where
  line : Image
  dict : Dict

/-- What an access does, for the line in the buffer `id`. -/
def TokOp.exec (id : BufId) : Handler TokOp TokOp.Res TokState
  | .get i, s => (s.line i, s)
  | .put i c, s => ((), { s with line := Function.update s.line i c })
  | .setKey k off, s => ((), { s with dict := { s.dict with key := Function.update s.dict.key k (some ⟨id, off⟩) } })
  | .setVal k off, s => ((), { s with dict := { s.dict with val := Function.update s.dict.val k (some ⟨id, off⟩) } })
  | .setMax n, s => ((), { s with dict := { s.dict with max := some n } })

section Exec

variable (id : BufId) (i k off n : Nat) (c : UInt8) (s : TokState)

@[simp] theorem TokOp.exec_get : TokOp.exec id (.get i) s = (s.line i, s) := rfl
@[simp] theorem TokOp.exec_put : TokOp.exec id (.put i c) s = ((), { s with line := Function.update s.line i c }) := rfl
@[simp] theorem TokOp.exec_setKey : TokOp.exec id (.setKey k off) s =
    ((), { s with dict := { s.dict with key := Function.update s.dict.key k (some ⟨id, off⟩) } }) := rfl
@[simp] theorem TokOp.exec_setVal : TokOp.exec id (.setVal k off) s =
    ((), { s with dict := { s.dict with val := Function.update s.dict.val k (some ⟨id, off⟩) } }) := rfl
@[simp] theorem TokOp.exec_setMax : TokOp.exec id (.setMax n) s = ((), { s with dict := { s.dict with max := some n } }) := rfl

end Exec

/-- A part of a tokeniser. -/
abbrev Tok (α : Type) : Type := Prog TokOp TokOp.Res α

abbrev get (i : Nat) : Tok UInt8 := Prog.call (TokOp.get i)
abbrev put (i : Nat) (c : UInt8) : Tok Unit := Prog.call (TokOp.put i c)
abbrev setKey (k off : Nat) : Tok Unit := Prog.call (TokOp.setKey k off)
abbrev setVal (k off : Nat) : Tok Unit := Prog.call (TokOp.setVal k off)
abbrev setMax (n : Nat) : Tok Unit := Prog.call (TokOp.setMax n)

/-- A loop that reads on from offset `i` and is left where a test holds, of `n` rounds. -/
def find (test : UInt8 → Bool) : Nat → Nat → Tok (Option Nat)
  | 0, _ => return none
  | n + 1, i => do
    if test (← get i) then return some i
    else find test n (i + 1)

/-! ## Name and value on the same line -/

/-- The search for the value in `dt_parse_proc_same_line_key_and_val`, behind a space at offset `i`. -/
def sameLineVal (len1 k i : Nat) : Tok Unit := do
  match ← find (· != 32) (len1 - (i + 1)) (i + 1) with
  | none => return
  | some n => setVal k (n + 1)

/-- The loop of `dt_parse_proc_same_line_key_and_val`. -/
def sameLinePair (len1 k : Nat) : Tok Unit := do
  match ← find (· == 32) len1 0 with
  | none => return
  | some i =>
    setKey k 0
    put i 0
    sameLineVal len1 k i

/-- `dt_parse_proc_same_line_key_and_val` -/
def sameLineTok (len1 l : Nat) : Tok Nat :=
  if len1 < 1 then return 0
  else do
    if l < dictSize then sameLinePair len1 l
    setMax (l + 1)
    return l + 1

/-! ## /proc/meminfo -/

/-- The loop of `dt_meminfo_parse`: whether its two inner loops end. -/
def meminfoPair (rounds len1 k : Nat) : Tok Bool := do
  match ← find isBlank len1 0 with
  | none => return true
  | some i =>
    put i 0
    match ← find (!isBlank ·) rounds (i + 1) with
    | none => return false
    | some n =>
      setVal k n
      match ← find (· == 32) rounds n with
      | none => return false
      | some n =>
        put n 0
        return true

/-- `dt_meminfo_parse` -/
def meminfoTok (rounds len1 l : Nat) : Tok (Option Nat) :=
  if len1 < 1 then return some 0
  else do
    setKey l 0
    let ended ← if l < dictSize then meminfoPair rounds len1 l else pure true
    if ended then
      setMax (l + 1)
      return some (l + 1)
    else return none

/-! ## /proc/stat -/

/-- The first loop of `dt_stat_parse`, which finds the start of the values. -/
def statStart (len1 : Nat) : Tok Nat := do
  match ← find (· == 32) len1 0 with
  | none => return 0
  | some i =>
    put i 0
    return i + 1

/-- The second loop of `dt_stat_parse`. If no space ends the word, its end is the end of the line. -/
def statVals (len1 : Nat) : Nat → Nat → Nat → Tok Nat
  | 0, _, k => return k
  | n + 1, i, k =>
    if i < len1 ∧ k < dictSize then do
      if (← get i) ≠ 32 then
        setVal k i
        match ← find (· == 32) (len1 - i) i with
        | none => statVals len1 n (len1 + 1) (k + 1)
        | some j =>
          put j 0
          statVals len1 n (j + 1) (k + 1)
      else statVals len1 n (i + 1) k
    else return k

/-- `dt_stat_parse` -/
def statTok (len1 nIndex vIndex : Nat) : Tok Nat :=
  if len1 < 1 then return 0
  else do
    setKey nIndex 0
    let start ← statStart len1
    let k ← statVals len1 len1 start vIndex
    setMax k
    return k

/-! ## /proc/net/dev -/

/-- The loop of `dt_dev_parse` that finds the colon. -/
def devStart (len1 : Nat) : Tok Nat := do
  match ← find (· == 58) len1 0 with
  | none => return 0
  | some i =>
    put (i + 1) 0
    return i + 2

/-- The last loop of `dt_dev_parse`: whether the loops in it end. -/
def devVals (rounds len1 : Nat) : Nat → Nat → Nat → Tok Bool
  | 0, _, _ => return true
  | m + 1, j, k =>
    if j < len1 then do
      if isBlank (← get j) then devVals rounds len1 m (j + 1) k
      else
        setVal k j
        match ← find endsCounter rounds j with
        | none => return false
        | some n =>
          if n < len1 then put n 0
          devVals rounds len1 m (n + 1) (k + 1)
    else return true

/-- `dt_dev_parse`: whether its loops end. -/
def devTok (rounds len1 index : Nat) : Tok Bool := do
  match ← find (!isBlank ·) rounds 0 with
  | none => return false
  | some i =>
    setKey index i
    let start ← devStart len1
    devVals rounds len1 len1 start 0

/-! ## Values only -/

/-- The loop of `dt_single_line_parse`, of `n` rounds. -/
def singleVals : Nat → Nat → Nat → Tok Nat
  | 0, _, k => return k
  | n + 1, i, k => do
    if isValueSep (← get i) then
      put i 0
      setVal k (i + 1)
      singleVals n (i + 1) (k + 1)
    else singleVals n (i + 1) k

/-- `dt_single_line_parse` -/
def singleTok (len1 : Nat) : Tok Nat := do
  setVal 0 0
  let k ← singleVals len1 0 1
  setMax k
  return k

/-! ## The loops over the lines -/

/-- The tokenisers that are given the number of a line. `dtop_dev_search` has one dictionary for all lines, `dtop_dev_poll`
one for each. -/
inductive LineParser where
  | sameLine
  | meminfo
  | stat
  | dev (ownDict : Bool)

namespace LineParser

/-- The size of the read buffer. -/
def size : LineParser → Nat
  | sameLine | meminfo => singleSize
  | stat => statSize
  | dev _ => devSize

/-- The size of a line buffer. -/
def lineSize (p : LineParser) : Nat := p.size / 4

/-- The lines of header. -/
def skipped : LineParser → Nat
  | sameLine | meminfo | stat => 0
  | dev _ => 2

/-- The dictionary of the next line. -/
def nextDict (p : LineParser) (dict : Dict) : Dict :=
  match p with
  | dev true => .unset
  | sameLine | meminfo | stat | dev false => dict

/-- The call for a line of `len` bytes: its number, and what the call for the line before returned. Inside, `none` says that it
does not end. -/
def call (p : LineParser) (rounds len i count : Nat) : Tok (Option Nat) :=
  match p with
  | sameLine => do return some (← sameLineTok len i)
  | meminfo => meminfoTok rounds len i
  | stat => do return some (← statTok len i count)
  | dev _ => do return if ← devTok rounds len i then some 0 else none

/-- The loop over lines of given lengths: all accesses to their dictionary, and what is left if all calls end. -/
def run (p : LineParser) (rounds : Nat) : List Nat → Nat → Nat → Vars → Dict → List TokOp × Option (Vars × Dict × Nat)
  | [], _, count, vars, dict => ([], some (vars, dict, count))
  | len :: lens, i, count, vars, dict =>
    let id := BufId.line (i + p.skipped)
    let tok := p.call rounds len i count
    let s : TokState := ⟨vars.buf id, p.nextDict dict⟩
    match tok.value (TokOp.exec id) s with
    | none => (tok.ops (TokOp.exec id) s, none)
    | some k =>
      let s' := tok.final (TokOp.exec id) s
      let rest := run p rounds lens (i + 1) k (vars.setBuf id s'.line) s'.dict
      (tok.ops (TokOp.exec id) s ++ rest.1, rest.2)

/-- The lengths of the first `n` lines behind the header, as they are read from a file into line buffers, and the line buffers. -/
def readFrom (p : LineParser) (content : List UInt8) (rest : Image) (vars : Vars) (n : Nat) : Vars × List Nat :=
  let (vars, lens) := (readLines .line p.size vars).run (readFile content p.size rest).load
  (vars, (lens.drop p.skipped).take n)

/-- The loop of a search or of a poll over the lines of a file. -/
def parse (p : LineParser) (rounds : Nat) (content : List UInt8) (rest : Image) (vars : Vars) (n : Nat) (dict : Dict) :
    List TokOp × Option (Vars × Dict × Nat) :=
  let (vars, lens) := p.readFrom content rest vars n
  p.run rounds lens 0 0 vars dict

end LineParser

end Pixel845.Datatop
