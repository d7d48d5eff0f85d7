import Pixel845.Lib.Bytes
import Pixel845.Lib.Decimal

/-!
# Data points

The structures of `datatop_interface.h` and what `datatop_helpers.c` does with them: storing a value, printing it, and the
snapshot of what has changed. A name or a prefix is a pointer into a line buffer of its gatherer, or a string in memory of its
own. The arithmetic of the snapshot is that of 64-bit integers, which wraps. Errors of `fprintf` are left out: a row is one that
was written.
-/

namespace Pixel845.Datatop

/-! ## Structures -/

/-- A line buffer of a gatherer: `line[n]` or `line2[n]`. -/
inductive BufId where
  | line (n : Nat)
  | line2 (n : Nat)
deriving DecidableEq

/-- A pointer into a line buffer. -/
structure Ptr where
  buf : BufId
  off : Nat
deriving DecidableEq

/-- The private data of a gatherer: its line buffers, all of one size, and the number of lines. -/
structure Vars where
  lineSize : Nat
  lineCount : Nat
  buf : BufId → Image

/-- The string at a pointer. -/
def Vars.cstr (vars : Vars) (p : Ptr) : List UInt8 := (vars.buf p.buf).cstr vars.lineSize p.off

/-- What a `char *` of a data point points to. -/
inductive Str where
  | ptr (p : Ptr)
  | copy (s : List UInt8)
deriving DecidableEq

/-- The string itself. -/
def Vars.text (vars : Vars) : Str → List UInt8
  | .ptr p => vars.cstr p
  | .copy s => s

/-- The types of a data point, and any other value of the `char` that holds them. -/
inductive DpType where
  | ulong
  | long
  | uint
  | int
  | uchar
  | char
  | str
  | other
deriving DecidableEq

/-- `union dtop_data_union`, by its bytes. -/
abbrev DataUnion := Image

namespace DataUnion

def dUlong (u : DataUnion) : UInt64 := .ofNat (u.nat 0 8)
def dLong (u : DataUnion) : Int64 := (dUlong u).toInt64
def dUint (u : DataUnion) : UInt32 := .ofNat (u.nat 0 4)
def dInt (u : DataUnion) : Int32 := (dUint u).toInt32
def dUchar (u : DataUnion) : UInt8 := u 0
def dChar (u : DataUnion) : Int8 := (u 0).toInt8
def dStr (u : DataUnion) : List UInt8 := u.cstr 32 0

def setUlong (u : DataUnion) (v : UInt64) : DataUnion := u.write 0 (leBytes 8 v.toNat)
def setLong (u : DataUnion) (v : Int64) : DataUnion := setUlong u v.toUInt64
def setUint (u : DataUnion) (v : UInt32) : DataUnion := u.write 0 (leBytes 4 v.toNat)
def setUchar (u : DataUnion) (v : UInt8) : DataUnion := u.write 0 [v]

@[simp] theorem dUlong_setUlong (u : DataUnion) (v : UInt64) : dUlong (setUlong u v) = v := by
  have hv : v.toNat < 256 ^ 8 := v.toNat_lt
  rw [dUlong, setUlong, Image.nat_write_leBytes, Nat.mod_eq_of_lt hv, UInt64.ofNat_toNat]

@[simp] theorem dLong_setLong (u : DataUnion) (v : Int64) : dLong (setLong u v) = v := by
  rw [dLong, setLong, dUlong_setUlong, Int64.toInt64_toUInt64]

end DataUnion

/-- `struct dtop_data_point`. Of `initial_data_populated` it is kept whether it differs from `NOT_POPULATED`. -/
structure DataPoint where
  name : Str
  pfx : Option Str
  type : DpType
  initialData : DataUnion
  initialDataPopulated : Bool
  data : DataUnion
  skip : Bool

/-- `struct dtop_data_point_gatherer`, less its functions. -/
structure Gatherer where
  pfx : List UInt8
  file : List UInt8
  dataPoints : List DataPoint
  priv : Vars

/-! ## Storing -/

/-- What `strtoull` makes of a sign and a number. -/
def toUlong (neg : Bool) (n : Nat) : UInt64 :=
  if 2 ^ 64 ≤ n then .ofNat (2 ^ 64 - 1) else if neg then -.ofNat n else .ofNat n

/-- What `strtoll` makes of a sign and a number. -/
def toLong (neg : Bool) (n : Nat) : Int64 :=
  if neg then (if 2 ^ 63 < n then Int64.minValue else .ofInt (-n)) else if 2 ^ 63 ≤ n then Int64.maxValue else .ofNat n

/-- `sscanf` of a string into a value of a type; a narrow integer keeps the lower bits of what was read. -/
def sscanf (type : DpType) (str : List UInt8) (u : DataUnion) : DataUnion :=
  match type with
  | .ulong => (scanInt str).elim u fun x => DataUnion.setUlong u (toUlong x.1 x.2)
  | .long => (scanInt str).elim u fun x => DataUnion.setLong u (toLong x.1 x.2)
  | .uint => (scanInt str).elim u fun x => DataUnion.setUint u (toUlong x.1 x.2).toUInt32
  | .int => (scanInt str).elim u fun x => DataUnion.setUint u (toLong x.1 x.2).toUInt64.toUInt32
  | .uchar | .char => str.head?.elim u (DataUnion.setUchar u)
  | .str =>
    let s := (str.dropWhile isSpace).takeWhile (fun c => !isSpace c)
    if s = [] then u else u.write 0 (s ++ [0])
  | .other => u

/-- Copy what `initial_data` takes from `data`: the member of the type. -/
def copyMember (type : DpType) (src dst : DataUnion) : DataUnion :=
  match type with
  | .ulong | .long => dst.write 0 (src.read 0 8)
  | .uint | .int => dst.write 0 (src.read 0 4)
  | .uchar | .char => dst.write 0 (src.read 0 1)
  | .str => dst.write 0 (src.read 0 32)
  | .other => dst

/-- `dtop_store_dp` -/
def storeDp (dp : DataPoint) (str : List UInt8) : DataPoint :=
  let dp := { dp with data := sscanf dp.type str dp.data }
  if dp.initialDataPopulated = false ∧ dp.type ≠ .other then
    { dp with initialData := copyMember dp.type dp.data dp.initialData, initialDataPopulated := true }
  else dp

/-- Calls of `dtop_store_dp`, in order: the number of a data point, which must be one of those there are, and the string. A call
changes neither names nor lines, so that no call depends on the ones before it. -/
def storeAll (vars : Vars) (calls : List (Nat × Ptr)) (dataPoints : List DataPoint) : Option (List DataPoint) :=
  calls.foldlM (fun dataPoints call => do
    let dp ← dataPoints[call.1]?
    return dataPoints.set call.1 (storeDp dp (vars.cstr call.2))) dataPoints

/-! ## Snapshots -/

/-- The difference that `dtop_handle_dp_type_for_snapshot` computes. -/
def snapshotDiff (dp : DataPoint) : Int64 :=
  match dp.type with
  | .long => DataUnion.dLong dp.data - DataUnion.dLong dp.initialData
  | .uint => (DataUnion.dUint dp.data).toUInt64.toInt64 - (DataUnion.dUint dp.initialData).toUInt64.toInt64
  | .int => (DataUnion.dInt dp.data).toInt64 - (DataUnion.dInt dp.initialData).toInt64
  | _ => (DataUnion.dUlong dp.data).toInt64 - (DataUnion.dUlong dp.initialData).toInt64

/-- `dtop_format_text_for_snapshot` -/
def formatTextForSnapshot (dpset : Gatherer) (dp : DataPoint) : List UInt8 :=
  dpset.pfx ++ [58] ++ (dp.pfx.elim [] fun p => dpset.priv.text p ++ [58]) ++ dpset.priv.text dp.name ++ [58, 58]

/-- `dtop_handle_dp_type_for_snapshot`: what it prints. -/
def handleDpTypeForSnapshot (dpset : Gatherer) (dp : DataPoint) : List UInt8 :=
  let int64 := snapshotDiff dp
  if int64 ≠ 0 then formatTextForSnapshot dpset dp ++ decimalInt int64.toInt ++ [10] else []

/-- `dtop_reset_dp_initial_values`, for one data point. -/
def resetInitial (dp : DataPoint) : DataPoint := { dp with initialDataPopulated := false }

/-! ## Rows -/

/-- A hexadecimal digit, in upper case. -/
def hexDigit (n : UInt8) : UInt8 := if n < 10 then 48 + n else 55 + n

/-- `dtop_format_dp_names` -/
def formatDpNames (vars : Vars) (pfx : List UInt8) (dp : DataPoint) : List UInt8 :=
  [34] ++ pfx ++ [58] ++ dp.pfx.elim [] vars.text ++ [58] ++ vars.text dp.name ++ [34, 44]

/-- `dtop_format_dp_values` -/
def formatDpValues (dp : DataPoint) : List UInt8 :=
  match dp.type with
  | .ulong => decimal (DataUnion.dUlong dp.data).toNat
  | .long => decimalInt (DataUnion.dLong dp.data).toInt
  | .uint => decimalInt (DataUnion.dUint dp.data).toInt32.toInt
  | .int => decimal (DataUnion.dUint dp.data).toNat
  | .uchar =>
    let c := DataUnion.dUchar dp.data
    [c, 44] ++ [40, 48, 120, hexDigit (c / 16), hexDigit (c % 16), 41]
  | .char =>
    let c := DataUnion.dChar dp.data
    [c.toUInt8, 44] ++ [40] ++ decimalInt c.toInt ++ [41]
  | .str => [34] ++ DataUnion.dStr dp.data ++ [34]
  | .other => [85, 78, 75, 78, 79, 87, 78, 95, 84, 89, 80, 69]

/-- `dtop_print_dp_csv` -/
def printDpCsv (dp : DataPoint) : List UInt8 := formatDpValues dp ++ [44]

/-- `dtop_print_dpg_csv` -/
def printDpgCsv (dpg : Gatherer) : List UInt8 := dpg.dataPoints.flatMap printDpCsv

/-- `dtop_print_dpg_names_csv` -/
def printDpgNamesCsv (dpg : Gatherer) : List UInt8 := dpg.dataPoints.flatMap (formatDpNames dpg.priv dpg.pfx)

/-- The header row that `dtop_poll_periodically` writes. -/
def headerRow (dpgList : List Gatherer) : List UInt8 :=
  [34, 84, 105, 109, 101, 34, 44] ++ dpgList.flatMap printDpgNamesCsv ++ [10]

/-- A numeral, filled up on the left to a width. -/
def padLeft (fill : UInt8) (width : Nat) (s : List UInt8) : List UInt8 := List.replicate (width - s.length) fill ++ s

/-- `dtop_print_time_at_poll` -/
def printTimeAtPoll (sec usec : Nat) : List UInt8 :=
  padLeft 32 10 (decimal sec) ++ [46] ++ padLeft 48 6 (decimal usec) ++ [44]

/-- `dtop_write_pollingdata_csv` -/
def writePollingdataCsv (dpgList : List Gatherer) : List UInt8 := dpgList.flatMap printDpgCsv ++ [10]

/-- A row that `dtop_poll_periodically` writes after a poll. -/
def dataRow (sec usec : Nat) (dpgList : List Gatherer) : List UInt8 :=
  printTimeAtPoll sec usec ++ writePollingdataCsv dpgList

end Pixel845.Datatop
