import Pixel845.Datatop.Str

/-!
# Files with names and values on separate lines

`datatop_dual_line_poll.c`. Each line is read twice: the first copy is cut into names and values, the second into prefixes. Names
and prefixes of the data points are pointers into these copies, which a poll reads and cuts anew.
-/

namespace Pixel845.Datatop

/-- `DTOP_DUAL_SIZE` -/
def dualSize : Nat := 8192

/-- Both copies of the lines, and their lengths. -/
def dualRead (content : List UInt8) (rest : Image) (vars : Vars) : Vars × List Nat × List Nat :=
  let data := (readFile content dualSize rest).load
  let (vars, lens) := (readLines .line dualSize vars).run data
  let (vars, lens2) := (readLines .line2 dualSize vars).run data
  (vars, lens, lens2)

/-- The loop that stores names and values: a dictionary for each of `k` sections, from section `i` on. -/
def dualDicts (lens : List Nat) : Nat → Nat → Vars → Vars × List Dict
  | 0, _, vars => (vars, [])
  | k + 1, i, vars =>
    let (line1, line2, dict) := parseProcDictionary (vars.buf (.line (2 * i))) (.line (2 * i)) (lens.getD (2 * i) 0)
      (vars.buf (.line (2 * i + 1))) (.line (2 * i + 1)) (lens.getD (2 * i + 1) 0) .unset
    let (vars, dicts) := dualDicts lens k (i + 1) ((vars.setBuf (.line (2 * i)) line1).setBuf (.line (2 * i + 1)) line2)
    (vars, dict :: dicts)

/-- The loop that stores prefixes. -/
def dualPrefixes (lens2 : List Nat) : Nat → Nat → Vars → Vars × List Dict
  | 0, _, vars => (vars, [])
  | k + 1, i, vars =>
    let (line1, dict) := parseForPrefix (vars.buf (.line2 (2 * i))) (.line2 (2 * i)) (lens2.getD (2 * i) 0) .unset
    let (vars, dicts) := dualPrefixes lens2 k (i + 1) (vars.setBuf (.line2 (2 * i)) line1)
    (vars, dict :: dicts)

/-- The file as both the search and the poll take it: the line buffers, and for each section its dictionary and that of
its prefixes. -/
def dualParse (content : List UInt8) (rest : Image) (vars : Vars) : Vars × List (Dict × Dict) :=
  let (vars, lens, lens2) := dualRead content rest vars
  let (vars, dicts) := dualDicts lens (vars.lineCount / 2) 0 vars
  let (vars, prefixDicts) := dualPrefixes lens2 (vars.lineCount / 2) 0 vars
  (vars, dicts.zip prefixDicts)

/-- The data points of a section. What is not assigned is what `malloc` returned. -/
def dualSection (vars : Vars) (junk : Nat → DataPoint) (count : Nat) (dict prefixDict : Dict) : Option (List DataPoint) := do
  let max ← dict.max
  (List.range max).mapM fun i => do
    let val ← dict.val i
    let key ← dict.key i
    let pfx ← prefixDict.val i
    return { junk (count + i) with
      name := .ptr key
      pfx := some (.ptr pfx)
      type := if vars.buf val.buf val.off = 45 then .long else .ulong
      skip := false
      initialDataPopulated := false }

/-- The data points of all sections. -/
def dualPoints (vars : Vars) (junk : Nat → DataPoint) : Nat → List (Dict × Dict) → Option (List DataPoint)
  | _, [] => some []
  | count, (dict, prefixDict) :: sections => do
    let points ← dualSection vars junk count dict prefixDict
    let rest ← dualPoints vars junk (count + points.length) sections
    return points ++ rest

/-- `dtop_dual_line_search`: the gatherer that is registered; inside, `none` is `DTOP_POLL_IO_ERR`. -/
def dualLineSearch (name content : List UInt8) (rest : Image) (vars : Vars) (junk : Nat → DataPoint) :
    Option (Option Gatherer) :=
  if content = [] then some none
  else do
    let (vars, sections) := dualParse content rest vars
    let dataPoints ← dualPoints vars junk 0 sections
    return some { pfx := name, file := name, dataPoints := dataPoints, priv := vars }

/-- The call for data point `j` and a section: its name is looked up among the names, and its prefix compared with the one of
that index. -/
def dualCall (vars : Vars) (dict prefixDict : Dict) (j : Nat) (dp : DataPoint) : Option (List (Nat × Ptr)) := do
  match ← findDictIdx vars (vars.text dp.name) dict with
  | none => return []
  | some i =>
    let pfx ← dp.pfx
    let pfx' ← prefixDict.val i
    if vars.text pfx = vars.cstr pfx' then return [(j, ← dict.val i)]
    else return []

/-- The calls of `dtop_store_dp`, section by section. -/
def dualCalls (vars : Vars) (sections : List (Dict × Dict)) (dataPoints : List DataPoint) : Option (List (Nat × Ptr)) := do
  let calls ← sections.mapM fun (dict, prefixDict) =>
    dataPoints.zipIdx.mapM fun (dp, j) => dualCall vars dict prefixDict j dp
  return (calls.map List.flatten).flatten

/-- `dtop_dual_line_poll`: inside, `none` is `DTOP_POLL_IO_ERR`. -/
def dualLinePoll (content : List UInt8) (rest : Image) (dpg : Gatherer) : Option (Option Gatherer) :=
  if content = [] then some none
  else do
    let (vars, sections) := dualParse content rest dpg.priv
    let calls ← dualCalls vars sections dpg.dataPoints
    let dataPoints ← storeAll vars calls dpg.dataPoints
    return some { dpg with dataPoints := dataPoints, priv := vars }

end Pixel845.Datatop
