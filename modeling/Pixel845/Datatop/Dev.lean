import Pixel845.Datatop.SameLine

/-!
# /proc/net/dev

`datatop_dev_poll.c`. Behind two lines of header each line belongs to an interface and has 16 counters. Search and poll number the
data points by the lines; the name of a data point is a pointer into the line buffer, its prefix a string of its own.
-/

namespace Pixel845.Datatop

/-- `DTOP_DEV_SIZE` -/
def devSize : Nat := 8192

/-- The end of a counter: a terminator, a space or a tab. -/
def endsCounter (c : UInt8) : Bool := c == 0 || isBlank c

/-- The counters of a line from offset `j` on, each from its start to its end. -/
def devWords (line : Image) (size len : Nat) : Nat → Nat → Option (List (Nat × Nat))
  | 0, _ => some []
  | fuel + 1, j =>
    if j < len then
      if isBlank (line j) then devWords line size len fuel (j + 1)
      else do
        let n ← scanFor endsCounter line (size - j) j
        return (j, n) :: (← devWords line size len fuel (n + 1))
    else some []

/-- `dt_dev_parse`, for a line buffer of `size` bytes. -/
def devParse (size : Nat) (line1 : Image) (id : BufId) (len1 index : Nat) (dict : Dict) : Option (Image × Dict) := do
  let i ← scanFor (!isBlank ·) line1 size 0
  if dictSize ≤ index then none
  else
    let colon := scanFor (· == 58) line1 len1 0
    let line := terminate line1 (colon.toList.map (· + 1))
    let words ← devWords line size len1 len1 (colon.elim 0 (· + 2))
    return (terminate line ((words.map Prod.snd).filter (· < len1)),
      { dict with
        key := setFrom dict.key index [⟨id, i⟩]
        val := setFrom dict.val 0 (words.map fun w => ⟨id, w.1⟩) })

/-- The loop over the lines in `dtop_dev_search`: one dictionary for all of them. -/
def devSearchLoop : List Nat → Nat → Vars → Dict → Option (Vars × Dict)
  | [], _, vars, dict => some (vars, dict)
  | len :: lens, index, vars, dict => do
    let (line, dict) ← devParse vars.lineSize (vars.buf (.line (index + 2))) (.line (index + 2)) len index dict
    devSearchLoop lens (index + 1) (vars.setBuf (.line (index + 2)) line) dict

/-- The loop over the lines in `dtop_dev_poll`: a dictionary for each. -/
def devPollLoop : List Nat → Nat → Vars → Option (Vars × List Dict)
  | [], _, vars => some (vars, [])
  | len :: lens, index, vars => do
    let (line, dict) ← devParse vars.lineSize (vars.buf (.line (index + 2))) (.line (index + 2)) len index .unset
    let (vars, dicts) ← devPollLoop lens (index + 1) (vars.setBuf (.line (index + 2)) line)
    return (vars, dict :: dicts)

/-- The prefixes of the 16 data points of an interface. -/
def devPrefixes : List (List UInt8) :=
  let receive : List UInt8 := [82, 101, 99, 101, 105, 118, 101, 58]
  let transmit : List UInt8 := [84, 114, 97, 110, 115, 109, 105, 116, 58]
  let bytes : List UInt8 := [98, 121, 116, 101, 115]
  let packets : List UInt8 := [112, 97, 99, 107, 101, 116, 115]
  let errs : List UInt8 := [101, 114, 114, 115]
  let drop : List UInt8 := [100, 114, 111, 112]
  let fifo : List UInt8 := [102, 105, 102, 111]
  let frame : List UInt8 := [102, 114, 97, 109, 101]
  let compressed : List UInt8 := [99, 111, 109, 112, 114, 101, 115, 115, 101, 100]
  let multicast : List UInt8 := [109, 117, 108, 116, 105, 99, 97, 115, 116]
  let colls : List UInt8 := [99, 111, 108, 108, 115]
  let carrier : List UInt8 := [99, 97, 114, 114, 105, 101, 114]
  [bytes, packets, errs, drop, fifo, frame, compressed, multicast].map (receive ++ ·) ++
    [bytes, packets, errs, drop, fifo, colls, carrier, compressed].map (transmit ++ ·)

/-- The data points of the interface with number `index`. What is not assigned is what `malloc` returned. -/
def devPoints (dict : Dict) (junk : Nat → DataPoint) (index : Nat) : Option (List DataPoint) := do
  let key ← dict.key index
  return devPrefixes.zipIdx.map fun (pfx, i) => { junk (16 * index + i) with
    skip := false
    initialDataPopulated := false
    pfx := some (.copy pfx)
    name := .ptr key
    type := .ulong }

/-- `dtop_dev_search`: the gatherer that is registered; inside, `none` is `DTOP_POLL_IO_ERR`. -/
def devSearch (name content : List UInt8) (rest : Image) (vars : Vars) (junk : Nat → DataPoint) : Option (Option Gatherer) :=
  if content = [] then some none
  else do
    let (vars, lens) := (readLines .line devSize vars).run (readFile content devSize rest).load
    let (vars, dict) ← devSearchLoop (lens.drop 2) 0 vars .unset
    let dataPoints ← (List.range (vars.lineCount - 2)).mapM (devPoints dict junk)
    return some { pfx := name, file := name, dataPoints := dataPoints.flatten, priv := vars }

/-- The calls of `dtop_store_dp`: the counters of all interfaces, numbered through. -/
def devCalls (dicts : List Dict) : Option (List (Nat × Ptr)) := do
  let calls ← dicts.zipIdx.mapM fun (dict, index) =>
    (List.range 16).mapM fun j => (dict.val j).map fun val => (16 * index + j, val)
  return calls.flatten

/-- What `dtop_dev_poll` reads: the line buffers and the calls of `dtop_store_dp`. -/
def devPollCalls (content : List UInt8) (rest : Image) (vars : Vars) : Option (Vars × List (Nat × Ptr)) := do
  let (vars, lens) := (readLines .line devSize vars).run (readFile content devSize rest).load
  let (vars, dicts) ← devPollLoop (lens.drop 2) 0 vars
  return (vars, ← devCalls dicts)

/-- `dtop_dev_poll`: inside, `none` is `DTOP_POLL_IO_ERR`. -/
def devPoll (content : List UInt8) (rest : Image) (dpg : Gatherer) : Option (Option Gatherer) :=
  if content = [] then some none
  else do
    let (vars, calls) ← devPollCalls content rest dpg.priv
    let dataPoints ← storeAll vars calls dpg.dataPoints
    return some { dpg with dataPoints := dataPoints, priv := vars }

end Pixel845.Datatop
