import Pixel845.Json.Printbuf
import Pixel845.Lib.Decimal

/-!
# JSON values and their text

The values of `json_object.h` as a tree, and the functions of `json_object.c` that write one to a print buffer, as the calls that
they make on it. Numbers in floating point are left abstract: `DoubleOps` stands for what the C library does with them.
-/

namespace Pixel845.Json

/-- What the code asks of the C library about a `double`: the tests of `math.h`, `"%.17g"` and `sscanf` with `"%lf"`. -/
structure DoubleOps (ρ : Type) where
  isnan : ρ → Bool
  isinf : ρ → Bool
  isPositive : ρ → Bool
  format : ρ → List UInt8
  scan : List UInt8 → Option ρ
  infinity : ρ
  negInfinity : ρ
  nan : ρ

/-- A value; `NULL` is the JSON value `null`. A `double` may carry the text it was made from. -/
inductive JsonObject (ρ : Type) where
  | null
  | boolean (b : Bool)
  | int (i : Int)
  | double (d : ρ) (userdata : Option (List UInt8))
  | string (s : List UInt8)
  | array (vals : List (JsonObject ρ))
  | object (fields : List (List UInt8 × JsonObject ρ))

/-- `JSON_C_TO_STRING_SPACED`, `JSON_C_TO_STRING_PRETTY` and `JSON_C_TO_STRING_NOZERO`. -/
structure PrintFlags where
  spaced : Bool
  pretty : Bool
  noZero : Bool

/-- The text of a string literal. -/
def bytesOf (s : String) : List UInt8 := s.toList.map fun c => UInt8.ofNat c.toNat

/-- `json_hex_chars`, the digits that are written. -/
def jsonHexChar (n : UInt8) : UInt8 := if n < 10 then 48 + n else 87 + n

/-- The call that `json_escape_str` makes for a byte that it does not copy. -/
def jsonEscapeCall (c : UInt8) : Option PrintbufCall :=
  match c with
  | 8 => some (.memappend (bytesOf "\\b"))
  | 10 => some (.memappend (bytesOf "\\n"))
  | 13 => some (.memappend (bytesOf "\\r"))
  | 9 => some (.memappend (bytesOf "\\t"))
  | 12 => some (.memappend (bytesOf "\\f"))
  | 34 => some (.memappend (bytesOf "\\\""))
  | 92 => some (.memappend (bytesOf "\\\\"))
  | 47 => some (.memappend (bytesOf "\\/"))
  | c => if c < 32 then some (.sprintbuf (bytesOf "\\u00" ++ [jsonHexChar (c >>> 4), jsonHexChar (c &&& 15)])) else none

/-- The copy of the bytes from `start_offset` to `pos`. -/
def flushRun (run : List UInt8) : List PrintbufCall := if 0 < run.length then [.memappend run] else []

/-- The loop of `json_escape_str`: `run` are the bytes from `start_offset` to `pos`. -/
def jsonEscapeLoop : List UInt8 → List UInt8 → List PrintbufCall
  | run, [] => flushRun run
  | run, c :: str =>
    match jsonEscapeCall c with
    | some call => flushRun run ++ call :: jsonEscapeLoop [] str
    | none => jsonEscapeLoop (run ++ [c]) str

/-- `json_escape_str`. -/
def jsonEscapeStr (str : List UInt8) : List PrintbufCall := jsonEscapeLoop [] str

/-- What `JSON_C_TO_STRING_NOZERO` leaves of the text behind the point: it ends with the last byte that is no zero, and has a
byte at least. -/
def dropZeroes (frac : List UInt8) : List UInt8 :=
  let kept := (frac.reverse.dropWhile (· == 48)).reverse
  if kept = [] then frac.take 1 else kept

/-- `json_object_double_to_json_string`: a comma of the locale becomes a point. -/
def jsonObjectDoubleToJsonString {ρ : Type} (ops : DoubleOps ρ) (flags : PrintFlags) (d : ρ) : List PrintbufCall :=
  let buf :=
    if ops.isnan d then bytesOf "NaN"
    else if ops.isinf d then if ops.isPositive d then bytesOf "Infinity" else bytesOf "-Infinity"
    else ops.format d
  let point : UInt8 := if 44 ∈ buf then 44 else 46
  let whole := buf.takeWhile (· != point)
  match buf.dropWhile (· != point) with
  | [] => [.memappend buf]
  | _ :: frac => [.memappend (whole ++ 46 :: if flags.noZero then dropZeroes frac else frac)]

/-- `indent`. -/
def indent (flags : PrintFlags) (level : Nat) : List PrintbufCall := if flags.pretty then [.memset none 32 (level * 2)] else []

/-- The line break that `JSON_C_TO_STRING_PRETTY` asks for. -/
def prettyBreak (flags : PrintFlags) : List PrintbufCall := if flags.pretty then [.sprintbuf (bytesOf "\n")] else []

/-- What comes in front of a child: a comma behind another one, a blank and the indentation. -/
def childPrefix (flags : PrintFlags) (level : Nat) (hadChildren : Bool) : List PrintbufCall :=
  (if hadChildren then .sprintbuf (bytesOf ",") :: prettyBreak flags else []) ++
    (if flags.spaced then [.sprintbuf (bytesOf " ")] else []) ++ indent flags level

/-- What comes behind the children. -/
def closing (flags : PrintFlags) (level : Nat) (hadChildren : Bool) (bracket : String) : List PrintbufCall :=
  (if flags.pretty then (if hadChildren then [.sprintbuf (bytesOf "\n")] else []) ++ indent flags level else []) ++
    [.sprintbuf (if flags.spaced then bytesOf " " ++ bytesOf bracket else bytesOf bracket)]

variable {ρ : Type} (ops : DoubleOps ρ) (flags : PrintFlags)

mutual

/-- `_to_json_string` of a value at a level: `json_object_boolean_to_json_string`, `json_object_int_to_json_string` and so on; a
`double` that carries its text has `json_object_userdata_to_json_string`. -/
def toJsonString (level : Nat) : JsonObject ρ → List PrintbufCall
  | .null => [.sprintbuf (bytesOf "null")]
  | .boolean b => [.sprintbuf (if b then bytesOf "true" else bytesOf "false")]
  | .int i => [.sprintbuf (decimalInt i)]
  | .double d none => jsonObjectDoubleToJsonString ops flags d
  | .double _ (some userdata) => [.memappend userdata]
  | .string s => .sprintbuf (bytesOf "\"") :: (jsonEscapeStr s ++ [.sprintbuf (bytesOf "\"")])
  | .array vals =>
    .sprintbuf (bytesOf "[") :: (prettyBreak flags ++ arrayChildren level false vals ++ closing flags level (!vals.isEmpty) "]")
  | .object fields =>
    .sprintbuf (bytesOf "\x7b") :: (prettyBreak flags ++ objectChildren level false fields ++
      closing flags level (!fields.isEmpty) "\x7d")

/-- The loop of `json_object_array_to_json_string`. -/
def arrayChildren (level : Nat) (hadChildren : Bool) : List (JsonObject ρ) → List PrintbufCall
  | [] => []
  | val :: vals => childPrefix flags (level + 1) hadChildren ++ toJsonString (level + 1) val ++ arrayChildren level true vals

/-- The loop of `json_object_object_to_json_string`; a key ends at its `NUL`. -/
def objectChildren (level : Nat) (hadChildren : Bool) : List (List UInt8 × JsonObject ρ) → List PrintbufCall
  | [] => []
  | (key, val) :: fields =>
    childPrefix flags (level + 1) hadChildren ++ .sprintbuf (bytesOf "\"") :: (jsonEscapeStr (key.takeWhile (· != 0)) ++
      .sprintbuf (if flags.spaced then bytesOf "\": " else bytesOf "\":") ::
      (toJsonString (level + 1) val ++ objectChildren level true fields))

end

/-- `json_object_to_json_string_ext`: the calls on the buffer of the value. -/
def jsonObjectToJsonStringExt (v : JsonObject ρ) : List PrintbufCall := .reset :: toJsonString ops flags 0 v

end Pixel845.Json
