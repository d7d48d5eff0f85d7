import Pixel845.Datatop.ValueOnly

/-!
# Files of a directory

What `datatop_gen_poll.c` registers for a file that it finds: a data point for each value on its first line, with a name of its
own; and how it polls them.
-/

namespace Pixel845.Datatop

/-- `DTOP_GEN_SIZE` -/
def genSize : Nat := 8192

/-- `DTOP_GEN_LINE` -/
def genLine : Nat := 2048

/-- `get_number_of_values`; `line` is what the stack holds where the line is read to. -/
def getNumberOfValues (content : List UInt8) (rest line : Image) : Nat :=
  if content = [] then 0
  else
    let (line, len) := (readLine line genLine genSize 0).run (readFile content genSize rest).load
    if len < 1 then 0
    else 1 + ((List.range len).filter fun i => (line i = 32 ∨ line i = 44 ∨ line i = 9) ∧ line (i + 1) ≠ 0).length

/-- The name of a value: that of the file, with an index if there are several, which `snprintf` cuts to 6 characters. -/
def genName (name : List UInt8) (num i : Nat) : List UInt8 :=
  if num = 1 then name else name ++ ([91] ++ decimal i ++ [93, 58]).take 6

/-- `dpg_construction`: the gatherer that is registered, if any. It has no private data, so that `priv` is what
`malloc` returned. -/
def dpgConstruction (dir name content : List UInt8) (rest line : Image) (priv : Vars) (junk : Nat → DataPoint) :
    Option Gatherer :=
  let num := getNumberOfValues content rest line
  if num ≠ 0 then
    some
      { pfx := dir
        file := dir ++ name
        dataPoints := (List.range num).map fun i => { junk i with
          name := .copy (genName name num i)
          pfx := none
          type := .ulong
          skip := false
          initialDataPopulated := false }
        priv := priv }
  else none

/-- What `dtop_gen_poll` does with a data point and its value: a value with a sign makes it signed. -/
def genStore (vars : Vars) (dp : DataPoint) (val : Ptr) : DataPoint :=
  storeDp (if vars.buf val.buf val.off = 45 then { dp with type := .long } else dp) (vars.cstr val)

/-- `dtop_gen_poll` -/
def genPoll : List UInt8 → Image → Image → Gatherer → Option (Option Gatherer) := pollValues genLine genSize genStore

end Pixel845.Datatop
