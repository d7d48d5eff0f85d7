import Pixel845.Datatop.Str

/-!
# /proc/stat

`datatop_stat_poll.c`. The values of all lines are counted through: `dt_stat_parse` is given the number of values so far and
returns the new one, and data points and values are joined by that number alone. A result of `none` is undefined behaviour: an
index out of bounds, or the use of an entry that was never set.
-/

namespace Pixel845.Datatop

/-- `DTOP_STAT_SIZE` -/
def statSize : Nat := 16384

/-- The next space among `n` bytes, or the end of them. -/
def findSpace (line : Image) : Nat → Nat → Nat
  | 0, i => i
  | n + 1, i => if line i = 32 then i else findSpace line n (i + 1)

/-- The words of a line from an offset on, each from its start to its end. -/
def statWords (line : Image) (len : Nat) : Nat → Nat → List (Nat × Nat)
  | 0, _ => []
  | fuel + 1, i =>
    if i < len then
      if line i ≠ 32 then
        let j := findSpace line (len - i) i
        (i, j) :: statWords line len fuel (j + 1)
      else statWords line len fuel (i + 1)
    else []

/-- `dt_stat_parse`: the line, the dictionary and the number returned. Without a space the name is also the first value. -/
def statParse (line1 : Image) (id : BufId) (len1 nIndex vIndex : Nat) (dict : Dict) : Option (Image × Dict × Nat) :=
  if len1 < 1 then some (line1, dict, 0)
  else if dictSize ≤ nIndex then none
  else
    let space := (positions (· == 32) line1 len1 0).head?
    let start := space.elim 0 (· + 1)
    let words := (statWords line1 len1 len1 start).take (dictSize - vIndex)
    let ends := (words.map Prod.snd).filter (· < len1)
    let k := vIndex + words.length
    some (terminate line1 (space.toList ++ ends),
      { max := some k
        key := setFrom dict.key nIndex [⟨id, 0⟩]
        val := setFrom dict.val vIndex (words.map fun w => ⟨id, w.1⟩) }, k)

/-- The loop over the lines in `dtop_stat_search` and `dtop_stat_poll`: the line buffers, the dictionary, the values of each line
and the number of values at the end. -/
def statParseLoop : List Nat → Nat → Nat → Vars → Dict → Option (Vars × Dict × List Int × Nat)
  | [], _, dpCount, vars, dict => some (vars, dict, [], dpCount)
  | len :: lens, i, dpCount, vars, dict => do
    let (line, dict, k) ← statParse (vars.buf (.line i)) (.line i) len i dpCount dict
    let (vars, dict, dpPerLine, n) ← statParseLoop lens (i + 1) k (vars.setBuf (.line i) line) dict
    return (vars, dict, ((k : Int) - dpCount) :: dpPerLine, n)

/-- The name of a value of a line: the key, with an index if the line has several values. -/
def statName (key : List UInt8) (perLine : Int) (n : Nat) : List UInt8 :=
  if perLine = 1 then key else key ++ [91] ++ decimal n ++ [93, 58]

/-- The data points of the lines from line `i` on. What is not assigned is what `malloc` returned for the array. -/
def statPoints (vars : Vars) (dict : Dict) (junk : Nat → DataPoint) : List Int → Nat → Nat → Option (List DataPoint)
  | [], _, _ => some []
  | perLine :: dpPerLine, i, count => do
    let rest ← statPoints vars dict junk dpPerLine (i + 1) (count + perLine.toNat)
    if perLine ≤ 0 then return rest
    else
      let key ← dict.key i
      let points := (List.range perLine.toNat).map fun n => { junk (count + n) with
        name := .copy (statName (vars.cstr key) perLine n)
        pfx := none
        type := .ulong
        initialDataPopulated := false
        skip := false }
      return points ++ rest

/-- What `dtop_stat_search` has allocated and written: the number of entries allocated, the values counted for each line, and the
data points written, the `i`-th to entry `i`. -/
structure StatSearch where
  dpCount : Nat
  dpPerLine : List Int
  written : List DataPoint
  vars : Vars

/-- The file of this gatherer. -/
def procStat : List UInt8 := [47, 112, 114, 111, 99, 47, 115, 116, 97, 116]

/-- `construct_stat_file_dpg`: the gatherer that is registered, if the data points written are those allocated. -/
def StatSearch.gatherer (s : StatSearch) : Option Gatherer :=
  if s.written.length = s.dpCount then
    some { pfx := procStat, file := procStat, dataPoints := s.written, priv := s.vars }
  else none

/-- `dtop_stat_search`: inside, `none` is `DTOP_POLL_IO_ERR`. -/
def statSearch (content : List UInt8) (rest : Image) (vars : Vars) (junk : Nat → DataPoint) : Option (Option StatSearch) :=
  if content = [] then some none
  else do
    let (vars, lens) := (readLines .line statSize vars).run (readFile content statSize rest).load
    let (vars, dict, dpPerLine, dpCount) ← statParseLoop lens 0 0 vars .unset
    let written ← statPoints vars dict junk dpPerLine 0 0
    return some ⟨dpCount, dpPerLine, written, vars⟩

/-- The calls of `dtop_store_dp` for the values of a dictionary. -/
def statCalls (dict : Dict) (dpCount : Nat) : Option (List (Nat × Ptr)) :=
  (List.range dpCount).mapM fun n => (dict.val n).map fun val => (n, val)

/-- What `dtop_stat_poll` reads: the line buffers and the calls of `dtop_store_dp`. -/
def statPollCalls (content : List UInt8) (rest : Image) (vars : Vars) : Option (Vars × List (Nat × Ptr)) := do
  let (vars, lens) := (readLines .line statSize vars).run (readFile content statSize rest).load
  let (vars, dict, _, dpCount) ← statParseLoop lens 0 0 vars .unset
  return (vars, ← statCalls dict dpCount)

/-- `dtop_stat_poll`: inside, `none` is `DTOP_POLL_IO_ERR`. -/
def statPoll (content : List UInt8) (rest : Image) (dpg : Gatherer) : Option (Option Gatherer) :=
  if content = [] then some none
  else do
    let (vars, calls) ← statPollCalls content rest dpg.priv
    let dataPoints ← storeAll vars calls dpg.dataPoints
    return some { dpg with dataPoints := dataPoints, priv := vars }

end Pixel845.Datatop
