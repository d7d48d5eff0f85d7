import Pixel845.Datatop.Str

/-!
# Files with values only

`datatop_value_only_poll.c`, and what it shares with the poll of `datatop_gen_poll.c`: the first line of a file is cut at spaces,
commas and tabs, and each data point takes the value of its number. The line and the dictionary lie on the stack.
-/

namespace Pixel845.Datatop

/-- `DTOP_SINGLE_SIZE` -/
def valueSize : Nat := 8192

/-- `DTOP_SINGLE_LINE` -/
def valueLine : Nat := 2048

/-- The first line of a file with its values cut, and the dictionary. -/
def parseValues (lineSize size : Nat) (content : List UInt8) (rest line : Image) : Option (Vars × Dict) := do
  let (line, len) := (readLine line lineSize size 0).run (readFile content size rest).load
  let (line, dict) ← singleLineParse line (.line 0) len .unset
  return (⟨lineSize, 1, fun _ => line⟩, dict)

/-- The loop of a poll over the data points, from number `i` on. A value that was never set cannot be used. -/
def storeValues (store : Vars → DataPoint → Ptr → DataPoint) (vars : Vars) (dict : Dict) :
    Nat → List DataPoint → Option (List DataPoint)
  | _, [] => some []
  | i, dp :: dataPoints => do
    let val ← dict.val i
    return store vars dp val :: (← storeValues store vars dict (i + 1) dataPoints)

/-- A poll of such a file: inside, `none` is `DTOP_POLL_IO_ERR`. -/
def pollValues (lineSize size : Nat) (store : Vars → DataPoint → Ptr → DataPoint) (content : List UInt8) (rest line : Image)
    (dpg : Gatherer) : Option (Option Gatherer) :=
  if content = [] then some none
  else do
    let (vars, dict) ← parseValues lineSize size content rest line
    let dataPoints ← storeValues store vars dict 0 dpg.dataPoints
    return some { dpg with dataPoints := dataPoints }

/-- `dtop_value_only_poll` -/
def valueOnlyPoll : List UInt8 → Image → Image → Gatherer → Option (Option Gatherer) :=
  pollValues valueLine valueSize fun vars dp val => storeDp dp (vars.cstr val)

/-- The name of a value, which `snprintf` cuts to 3 characters: the buffer has `sizeof(10)` bytes. -/
def valueName (max i : Nat) : List UInt8 := if 1 < max then ([91] ++ decimal i ++ [93, 58]).take 3 else []

/-- `dtop_value_only_search`: inside, `none` is `DTOP_POLL_IO_ERR`. The gatherer has no private data, so that `priv` is what
`malloc` returned. -/
def valueOnlySearch (name content : List UInt8) (rest line : Image) (priv : Vars) (junk : Nat → DataPoint) :
    Option (Option Gatherer) :=
  if content = [] then some none
  else do
    let (vars, dict) ← parseValues valueLine valueSize content rest line
    let max ← dict.max
    let dataPoints ← (List.range max).mapM fun i => do
      let val ← dict.val i
      return { junk i with
        name := .copy (valueName max i)
        pfx := none
        type := if vars.buf val.buf val.off = 45 then .long else .ulong
        skip := false
        initialDataPopulated := false }
    return some { pfx := name, file := name, dataPoints := dataPoints, priv := priv }

end Pixel845.Datatop
