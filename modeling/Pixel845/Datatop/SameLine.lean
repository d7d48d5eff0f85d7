import Pixel845.Datatop.Str

/-!
# Files with name and value on the same line

`datatop_single_line_poll.c` and `datatop_meminfo_file_poll.c`. Both search with `dt_parse_proc_same_line_key_and_val`, one
dictionary for all lines; `/proc/meminfo` is polled with a parser of its own.
-/

namespace Pixel845.Datatop

/-- `DTOP_SINGLE_SIZE` and `DTOP_MEM_SIZE` -/
def singleSize : Nat := 8192

/-- The loop over the lines in both searches and in `dtop_single_line_poll`. -/
def sameLineLoop : List Nat → Nat → Vars → Dict → Vars × Dict
  | [], _, vars, dict => (vars, dict)
  | len :: lens, i, vars, dict =>
    let (line, dict) := parseProcSameLineKeyAndVal (vars.buf (.line i)) (.line i) len i dict
    sameLineLoop lens (i + 1) (vars.setBuf (.line i) line) dict

/-! ## One name and value on each line -/

/-- The entries of the data points of `dtop_single_line_search`: those from `dict.max` on stay what `malloc` returned. -/
def singlePoint (vars : Vars) (dict : Dict) (junk : Nat → DataPoint) (i : Nat) : Option DataPoint := do
  let max ← dict.max
  if i < max then do
    let val ← dict.val i
    let key ← dict.key i
    return { junk i with
      type := if vars.buf val.buf val.off = 45 then .long else .ulong
      name := .ptr key
      pfx := none }
  else return junk i

/-- `dtop_single_line_search`: the gatherer that is registered; inside, `none` is `DTOP_POLL_IO_ERR`. -/
def singleLineSearch (name content : List UInt8) (rest : Image) (vars : Vars) (junk : Nat → DataPoint) :
    Option (Option Gatherer) :=
  if content = [] then some none
  else do
    let (vars, lens) := (readLines .line singleSize vars).run (readFile content singleSize rest).load
    let (vars, dict) := sameLineLoop lens 0 vars .unset
    let _ ← dict.max
    let dataPoints ← (List.range vars.lineCount).mapM (singlePoint vars dict junk)
    return some { pfx := name, file := name, dataPoints := dataPoints, priv := vars }

/-- The call for data point `j`. -/
def singleCall (vars : Vars) (dict : Dict) (j : Nat) (dp : DataPoint) : Option (List (Nat × Ptr)) := do
  match ← findDictIdx vars (vars.text dp.name) dict with
  | none => return []
  | some i => return [(j, ← dict.val i)]

/-- `dtop_single_line_poll`: inside, `none` is `DTOP_POLL_IO_ERR`. -/
def singleLinePoll (content : List UInt8) (rest : Image) (dpg : Gatherer) : Option (Option Gatherer) :=
  if content = [] then some none
  else do
    let (vars, lens) := (readLines .line singleSize dpg.priv).run (readFile content singleSize rest).load
    let (vars, dict) := sameLineLoop (lens.take dpg.dataPoints.length) 0 vars .unset
    let calls ← dpg.dataPoints.zipIdx.mapM fun (dp, j) => singleCall vars dict j dp
    let dataPoints ← storeAll vars calls.flatten dpg.dataPoints
    return some { dpg with dataPoints := dataPoints, priv := vars }

/-! ## /proc/meminfo -/

/-- An entry of the data points of `dtop_meminfo_search`. The name is copied even if it was never set. -/
def meminfoPoint (dict : Dict) (junk : Nat → DataPoint) (max i : Nat) : DataPoint :=
  if i < max then { junk i with name := (dict.key i).elim (junk i).name .ptr, pfx := none, type := .ulong } else junk i

/-- `dtop_meminfo_search`: the gatherer that is registered; inside, `none` is `DTOP_POLL_IO_ERR`. -/
def meminfoSearch (name content : List UInt8) (rest : Image) (vars : Vars) (junk : Nat → DataPoint) :
    Option (Option Gatherer) :=
  if content = [] then some none
  else do
    let (vars, lens) := (readLines .line singleSize vars).run (readFile content singleSize rest).load
    let (vars, dict) := sameLineLoop lens 0 vars .unset
    let max ← dict.max
    let dataPoints := (List.range vars.lineCount).map (meminfoPoint dict junk max)
    return some { pfx := name, file := name, dataPoints := dataPoints, priv := vars }

/-- A space or a tab. -/
def isBlank (c : UInt8) : Bool := c == 32 || c == 9

/-- The first offset from `i` on, of `n`, at which a test holds. Where there is none a loop leaves the buffer. -/
def scanFor (test : UInt8 → Bool) (line : Image) (n i : Nat) : Option Nat := (positions test line n i).head?

/-- `dt_meminfo_parse`, for a line buffer of `size` bytes. The search for the space behind the value does not stop at the end
of the line. -/
def meminfoParse (size : Nat) (line1 : Image) (id : BufId) (len1 l : Nat) (dict : Dict) : Option (Image × Dict) :=
  if len1 < 1 then some (line1, dict)
  else if dictSize ≤ l then none
  else do
    let key := setFrom dict.key l [⟨id, 0⟩]
    match scanFor isBlank line1 len1 0 with
    | none => return (line1, { max := some (l + 1), key := key, val := dict.val })
    | some i =>
      let line1 := terminate line1 [i]
      let val ← scanFor (!isBlank ·) line1 (size - (i + 1)) (i + 1)
      let n ← scanFor (· == 32) line1 (size - val) val
      return (terminate line1 [n], { max := some (l + 1), key := key, val := setFrom dict.val l [⟨id, val⟩] })

/-- The loop over the lines in `dtop_meminfo_poll`. -/
def meminfoLoop : List Nat → Nat → Vars → Dict → Option (Vars × Dict)
  | [], _, vars, dict => some (vars, dict)
  | len :: lens, i, vars, dict => do
    let (line, dict) ← meminfoParse vars.lineSize (vars.buf (.line i)) (.line i) len i dict
    meminfoLoop lens (i + 1) (vars.setBuf (.line i) line) dict

/-- What `dtop_meminfo_poll` does with a value: it is stored in bytes, whatever the type. -/
def storeKb (dp : DataPoint) (str : List UInt8) : DataPoint :=
  let data := sscanf .ulong str dp.data
  let data := DataUnion.setUlong data (DataUnion.dUlong data * 1024)
  if dp.initialDataPopulated = false then
    { dp with
      data := data, initialData := DataUnion.setUlong dp.initialData (DataUnion.dUlong data), initialDataPopulated := true }
  else { dp with data := data }

/-- Store the value of data point `j`: it goes to the data point with the number of its name in the dictionary. -/
def meminfoStore (vars : Vars) (dict : Dict) (dataPoints : List DataPoint) (j : Nat) : Option (List DataPoint) := do
  let dp ← dataPoints[j]?
  match ← findDictIdx vars (vars.text dp.name) dict with
  | none => return dataPoints
  | some i =>
    let val ← dict.val i
    let dp ← dataPoints[i]?
    return dataPoints.set i (storeKb dp (vars.cstr val))

/-- `dtop_meminfo_poll`: inside, `none` is `DTOP_POLL_IO_ERR`. -/
def meminfoPoll (content : List UInt8) (rest : Image) (dpg : Gatherer) : Option (Option Gatherer) :=
  if content = [] then some none
  else do
    let (vars, lens) := (readLines .line singleSize dpg.priv).run (readFile content singleSize rest).load
    let (vars, dict) ← meminfoLoop (lens.take dpg.dataPoints.length) 0 vars .unset
    let dataPoints ← (List.range dpg.dataPoints.length).foldlM (meminfoStore vars dict) dpg.dataPoints
    return some { dpg with dataPoints := dataPoints, priv := vars }

end Pixel845.Datatop
