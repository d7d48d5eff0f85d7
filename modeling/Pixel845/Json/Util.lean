import Pixel845.Json.Tokener

/-!
# Values in files

`json_util.c`: writing a value to a file and reading one. The calls of `open`, `read` and `write` answer what the surroundings
say: a call of `write` takes some of the bytes that it is given, and a call of `read` gives some of those that are left in the
file.
-/

namespace Pixel845.Json

variable {ρ : Type}

/-- The loop of `json_object_to_file_ext` with the answers of `write`: what it returns, and what is in the file. None is a loop
that goes on. -/
def writeLoop : List Int → List UInt8 → List UInt8 → Option (Int × List UInt8)
  | _, [], file => some (0, file)
  | [], _ :: _, _ => none
  | ret :: rets, c :: left, file =>
    if ret < 0 then some (-1, file) else writeLoop rets ((c :: left).drop ret.toNat) (file ++ (c :: left).take ret.toNat)

/-- `json_object_to_file_ext`: what it returns, and the contents of the file if it was opened. -/
def jsonObjectToFileExt (ops : DoubleOps ρ) (memory : Image) (opens : Bool) (rets : List Int) (flags : PrintFlags)
    (v : JsonObject ρ) : Option (Int × Option (List UInt8)) :=
  match v with
  | .null => some (-1, none)
  | v =>
    if opens then do
      let p ← (jsonObjectToJsonStringExt ops flags v).foldlM printbufStep (printbufNew memory)
      let jsonStr := p.buf.cstr p.size 0
      let (ret, file) ← writeLoop rets (jsonStr.take (jsonStr.length % 4294967296)) []
      some (ret, some file)
    else some (-1, none)

/-- `JSON_FILE_BUF_SIZE`. -/
def jsonFileBufSize : Nat := 4096

/-- The loop of `json_object_from_file`: each answer of `read` is an error, or how many bytes besides the first one it gives at
most. The result is whether the end of the file was reached, and the buffer. -/
def readLoop : List (Option Nat) → List UInt8 → Printbuf → Option (Bool × Printbuf)
  | [], _, _ => none
  | none :: _, _, p => some (false, p)
  | some _ :: _, [], p => some (true, p)
  | some k :: answers, c :: left, p => do
    let p ← printbufMemappend p ((c :: left).take (min (k + 1) jsonFileBufSize))
    readLoop answers ((c :: left).drop (min (k + 1) jsonFileBufSize)) p

/-- `json_tokener_parse` on the text of a buffer: a text without a `NUL` in the block is read behind it. -/
def jsonTokenerParse (ops : DoubleOps ρ) (rounds : Nat) (p : Printbuf) : Option (JsonObject ρ) :=
  if 0 ∈ p.buf.read 0 p.size then (jsonTokenerParseVerbose ops rounds (p.buf.cstr p.size 0)).join.map Prod.fst else none

/-- `json_object_from_file`; the value is `null` for `NULL`. -/
def jsonObjectFromFile (ops : DoubleOps ρ) (rounds : Nat) (memory : Image) (opens : Bool) (answers : List (Option Nat))
    (file : List UInt8) : Option (JsonObject ρ) :=
  if opens then do
    let (ended, p) ← readLoop answers file (printbufNew memory)
    if ended then jsonTokenerParse ops rounds p else some .null
  else some .null

/-- No call of `read` fails, and there are as many as it takes to come to the end of the file. -/
def ReadsAll (answers : List (Option Nat)) (file : List UInt8) : Prop := (∀ a ∈ answers, a ≠ none) ∧ file.length < answers.length

end Pixel845.Json
