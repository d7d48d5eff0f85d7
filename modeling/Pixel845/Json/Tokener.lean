import Pixel845.Json.Value
import Pixel845.Lib.Loop
import Pixel845.Lib.OrderedMap

/-!
# The tokener of json-c

`json_tokener.c`: a state machine over the bytes of a text, with a level for each array or object that is open. A round of the
main loop is `dispatch`; the tighter loops inside it are each one step. The text is a chunk of a given length, or a string up to
its `NUL` (`len` is -1); reading behind the `NUL` is an ending of its own, `fault`. The tokener's print buffer is the text that it
holds, with a `NUL` behind it.
-/

namespace Pixel845.Json

/-- `enum json_tokener_error`. -/
inductive TokenerError where
  | success | continue | errorDepth | errorParseEof | errorParseUnexpected | errorParseNull | errorParseBoolean | errorParseNumber
  | errorParseArray | errorParseObjectKeyName | errorParseObjectKeySep | errorParseObjectValueSep | errorParseString
  | errorParseComment
  | errorSize
deriving DecidableEq

/-- `enum json_tokener_state`. -/
inductive TokenerState where
  | eatws | start | finish | null | commentStart | comment | commentEol | commentEnd | string | stringEscape
  | escapeUnicode | boolean
  | number | array | arrayAdd | arraySep | objectFieldStart | objectField | objectFieldEnd | objectValue
  | objectValueAdd | objectSep
  | arrayAfterSep | objectFieldStartAfterSep | inf
deriving DecidableEq

/-- `struct json_tokener_srec`. -/
structure Level (ρ : Type) where
  state : TokenerState
  savedState : TokenerState
  current : JsonObject ρ
  objFieldName : Option (List UInt8)

/-- `json_tokener_reset_level`. -/
def Level.fresh {ρ : Type} : Level ρ := { state := .eatws, savedState := .start, current := .null, objFieldName := none }

/-- `struct json_tokener`: the levels below the top one, innermost first, are as many as `depth`. -/
structure Tokener (ρ : Type) where
  strict : Bool
  maxDepth : Nat
  pb : List UInt8
  isDouble : Bool
  stPos : Nat
  err : TokenerError
  ucsChar : Nat
  quoteChar : UInt8
  level : Level ρ
  levels : List (Level ρ)

/-- `json_tokener_new_ex`, with the flags of `json_tokener_set_flags`. -/
def jsonTokenerNewEx {ρ : Type} (depth : Nat) (strict : Bool) : Tokener ρ where
  strict := strict
  maxDepth := depth
  pb := []
  isDouble := false
  stPos := 0
  err := .success
  ucsChar := 0
  quoteChar := 0
  level := .fresh
  levels := []

/-- `json_tokener_reset`. -/
def jsonTokenerReset {ρ : Type} (t : Tokener ρ) : Tokener ρ := { t with err := .success, level := .fresh, levels := [] }

/-- `json_tokener_set_flags`. -/
def jsonTokenerSetFlags {ρ : Type} (t : Tokener ρ) (strict : Bool) : Tokener ρ := { t with strict := strict }

/-- What `json_tokener_parse_ex` works on: the tokener, its variables `obj` and `c`, and the bytes from `str` on. -/
structure TokRun (ρ : Type) where
  tok : Tokener ρ
  obj : JsonObject ρ
  c : UInt8
  str : List UInt8

/-- How a round of the main loop goes on: `redo_char`, the next byte, `out`, or a read behind the text. -/
inductive Outcome (ρ : Type) where
  | redo (s : TokRun ρ)
  | next (s : TokRun ρ)
  | out (s : TokRun ρ)
  | fault

variable {ρ : Type}

namespace Tokener

def state (t : Tokener ρ) : TokenerState := t.level.state

def savedState (t : Tokener ρ) : TokenerState := t.level.savedState

def depth (t : Tokener ρ) : Nat := t.levels.length

def setState (t : Tokener ρ) (st : TokenerState) : Tokener ρ := { t with level := { t.level with state := st } }

def setSaved (t : Tokener ρ) (st : TokenerState) : Tokener ρ := { t with level := { t.level with savedState := st } }

/-- The state after white space. -/
def eatThen (t : Tokener ρ) (st : TokenerState) : Tokener ρ := (t.setState .eatws).setSaved st

/-- The level has its value. -/
def finishWith (t : Tokener ρ) (v : JsonObject ρ) : Tokener ρ :=
  { t.eatThen .finish with level := { (t.eatThen .finish).level with current := v } }

/-- `printbuf_memappend_fast`. -/
def append (t : Tokener ρ) (bs : List UInt8) : Tokener ρ := { t with pb := t.pb ++ bs }

/-- `printbuf_reset`. -/
def resetPb (t : Tokener ρ) : Tokener ρ := { t with pb := [] }

/-- A level is opened. -/
def push (t : Tokener ρ) : Tokener ρ := { t with level := .fresh, levels := t.level :: t.levels }

/-- What `PEEK_CHAR` puts in `err` at the end of a chunk. -/
def peekErr (t : Tokener ρ) : Tokener ρ :=
  { t with err := if t.depth = 0 ∧ t.state = .eatws ∧ t.savedState = .finish then .success else .continue }

end Tokener

namespace TokRun

/-- The tokener of a run is changed. -/
def map (s : TokRun ρ) (f : Tokener ρ → Tokener ρ) : TokRun ρ := { s with tok := f s.tok }

/-- An error ends the run where it is. -/
def fail (s : TokRun ρ) (err : TokenerError) : Outcome ρ := .out (s.map fun t => { t with err := err })

/-- `PEEK_CHAR` at the end: of a chunk, or behind the `NUL` of a string. -/
def atEnd (s : TokRun ρ) (chunk : Bool) : Outcome ρ := if chunk then .out { s.map .peekErr with str := [] } else .fault

end TokRun

/-- How a tight loop ends: at a byte it does not pass, behind a `NUL`, or with the text. -/
inductive LoopEnd where
  | found (c : UInt8) (left : List UInt8)
  | nul (left : List UInt8)
  | ended
deriving DecidableEq

/-- The loops that advance while a condition holds: what they pass, and how they end. -/
def tightLoop (pass : UInt8 → Bool) (str : List UInt8) : List UInt8 × LoopEnd :=
  let passed := str.takeWhile fun c => pass c && c != 0
  match str.dropWhile fun c => pass c && c != 0 with
  | [] => (passed, .ended)
  | c :: left => if pass c then (passed ++ [c], .nul left) else (passed, .found c (c :: left))

/-- A tight loop that keeps what it passes in the print buffer: `found` says how it goes on. -/
def gather (chunk : Bool) (s : TokRun ρ) (pass : UInt8 → Bool) (found : TokRun ρ → Outcome ρ) : Outcome ρ :=
  match tightLoop pass s.str with
  | (passed, .found c left) => found { s.map (·.append passed) with c := c, str := left }
  | (passed, .nul left) => .out { s.map (·.append passed) with c := 0, str := left }
  | (passed, .ended) => { s.map (·.append passed) with c := passed.getLastD s.c }.atEnd chunk

/-- `json_tokener_state_eatws`; white space is no `NUL`. -/
def onEatws (chunk : Bool) (s : TokRun ρ) : Outcome ρ :=
  match tightLoop isSpace s.str with
  | (_, .found c left) =>
    let s := { s with c := c, str := left }
    if c = 47 ∧ ¬ s.tok.strict then .next (s.map fun t => ((t.resetPb).append [c]).setState .commentStart)
    else .redo (s.map fun t => t.setState t.savedState)
  | (_, .nul left) => .out { s with c := 0, str := left }
  | (passed, .ended) => { s with c := passed.getLastD s.c }.atEnd chunk

/-- `json_tokener_state_start`. -/
def onStart (s : TokRun ρ) : Outcome ρ :=
  match s.c with
  | 123 =>
    .next (s.map fun t =>
      { t.eatThen .objectFieldStart with level := { (t.eatThen .objectFieldStart).level with current := .object [] } })
  | 91 => .next (s.map fun t => { t.eatThen .array with level := { (t.eatThen .array).level with current := .array [] } })
  | 73 | 105 => .redo (s.map fun t => { (t.setState .inf).resetPb with stPos := 0 })
  | 78 | 110 => .redo (s.map fun t => { (t.setState .null).resetPb with stPos := 0 })
  | 39 =>
    if s.tok.strict then s.fail .errorParseUnexpected
      else .next (s.map fun t => { (t.setState .string).resetPb with quoteChar := 39 })
  | 34 => .next (s.map fun t => { (t.setState .string).resetPb with quoteChar := 34 })
  | 84 | 116 | 70 | 102 => .redo (s.map fun t => { (t.setState .boolean).resetPb with stPos := 0 })
  | c =>
    if isDigit c ∨ c = 45 then .redo (s.map fun t => { (t.setState .number).resetPb with isDouble := false })
    else s.fail .errorParseUnexpected

/-- `json_tokener_state_finish`. -/
def onFinish (s : TokRun ρ) : Outcome ρ :=
  match s.tok.levels with
  | [] => .out s
  | level :: levels => .redo { s with obj := s.tok.level.current, tok := { s.tok with level := level, levels := levels } }

/-- `tolower` in the C locale. -/
def toLower (c : UInt8) : UInt8 := if 65 ≤ c ∧ c ≤ 90 then c + 32 else c

/-- `strncmp` of the beginning of a word with a buffer, and `strncasecmp` unless the tokener is strict. -/
def matchesWord (strict : Bool) (word : List UInt8) (buf : List UInt8) (n : Nat) : Bool :=
  (!strict && (buf.take n).map toLower == (word.take n).map toLower) || buf.take n == word.take n

/-- `json_inf_str`, `json_null_str`, `json_nan_str`, `json_true_str` and `json_false_str`. -/
def jsonInfStr : List UInt8 := bytesOf "Infinity"
def jsonNullStr : List UInt8 := bytesOf "null"
def jsonNanStr : List UInt8 := bytesOf "NaN"
def jsonTrueStr : List UInt8 := bytesOf "true"
def jsonFalseStr : List UInt8 := bytesOf "false"

/-- A word is spelled as far as it goes: its value, or the next byte. -/
def onWord (s : TokRun ρ) (word : List UInt8) (v : JsonObject ρ) : Outcome ρ :=
  if s.tok.stPos = word.length then .redo (s.map (·.finishWith v)) else .next (s.map fun t => { t with stPos := t.stPos + 1 })

/-- `json_tokener_state_inf`. -/
def onInf (ops : DoubleOps ρ) (s : TokRun ρ) : Outcome ρ :=
  let s := s.map (·.append [s.c])
  let sizeInf := min (s.tok.stPos + 1) jsonInfStr.length
  let isNegative := s.tok.pb.head? = some 45
  let infbuf := if isNegative then s.tok.pb.tail else s.tok.pb
  if matchesWord s.tok.strict jsonInfStr infbuf sizeInf then
    onWord s jsonInfStr (.double (if isNegative then ops.negInfinity else ops.infinity) none)
  else s.fail .errorParseUnexpected

/-- `json_tokener_state_null`, for `null` and `NaN`. -/
def onNull (ops : DoubleOps ρ) (s : TokRun ρ) : Outcome ρ :=
  let s := s.map (·.append [s.c])
  let size := min (s.tok.stPos + 1) jsonNullStr.length
  let sizeNan := min (s.tok.stPos + 1) jsonNanStr.length
  if matchesWord s.tok.strict jsonNullStr s.tok.pb size then onWord s jsonNullStr .null
  else if matchesWord s.tok.strict jsonNanStr s.tok.pb sizeNan then onWord s jsonNanStr (.double ops.nan none)
  else s.fail .errorParseNull

/-- `json_tokener_state_boolean`. -/
def onBoolean (s : TokRun ρ) : Outcome ρ :=
  let s := s.map (·.append [s.c])
  let size1 := min (s.tok.stPos + 1) jsonTrueStr.length
  let size2 := min (s.tok.stPos + 1) jsonFalseStr.length
  if matchesWord s.tok.strict jsonTrueStr s.tok.pb size1 then onWord s jsonTrueStr (.boolean true)
  else if matchesWord s.tok.strict jsonFalseStr s.tok.pb size2 then onWord s jsonFalseStr (.boolean false)
  else s.fail .errorParseBoolean

/-- `json_tokener_state_comment_start`. -/
def onCommentStart (s : TokRun ρ) : Outcome ρ :=
  if s.c = 42 then .next (s.map fun t => (t.setState .comment).append [s.c])
  else if s.c = 47 then .next (s.map fun t => (t.setState .commentEol).append [s.c])
  else s.fail .errorParseComment

/-- `json_tokener_state_comment`. -/
def onComment (chunk : Bool) (s : TokRun ρ) : Outcome ρ :=
  gather chunk s (· != 42) fun s => .next (s.map fun t => (t.append [42]).setState .commentEnd)

/-- `json_tokener_state_comment_eol`. -/
def onCommentEol (chunk : Bool) (s : TokRun ρ) : Outcome ρ :=
  gather chunk s (· != 10) fun s => .next (s.map fun t => t.setState .eatws)

/-- `json_tokener_state_comment_end`. -/
def onCommentEnd (s : TokRun ρ) : Outcome ρ :=
  .next (s.map fun t => (t.append [s.c]).setState (if s.c = 47 then .eatws else .comment))

/-- The scan of a quoted text, up to its quote or a backslash, and the states after them. -/
def onQuoted (chunk : Bool) (s : TokRun ρ) (st : TokenerState) (close : Tokener ρ → Tokener ρ) : Outcome ρ :=
  gather chunk s (fun c => c != s.tok.quoteChar && c != 92) fun s =>
    if s.c = s.tok.quoteChar then .next (s.map close) else .next (s.map fun t => (t.setSaved st).setState .stringEscape)

/-- `json_tokener_state_string`. -/
def onString (chunk : Bool) (s : TokRun ρ) : Outcome ρ := onQuoted chunk s .string fun t => t.finishWith (.string t.pb)

/-- `json_tokener_state_object_field`: `strdup` ends the name at a `NUL`. -/
def onObjectField (chunk : Bool) (s : TokRun ρ) : Outcome ρ :=
  onQuoted chunk s .objectField fun t =>
    { t.eatThen .objectFieldEnd with
      level := { (t.eatThen .objectFieldEnd).level with objFieldName := some (t.pb.takeWhile (· != 0)) } }

/-- `json_tokener_state_string_escape`. -/
def onStringEscape (s : TokRun ρ) : Outcome ρ :=
  let plain (c : UInt8) : Outcome ρ := .next (s.map fun t => (t.append [c]).setState t.savedState)
  match s.c with
  | 34 => plain 34
  | 92 => plain 92
  | 47 => plain 47
  | 98 => plain 8
  | 110 => plain 10
  | 114 => plain 13
  | 116 => plain 9
  | 102 => plain 12
  | 117 => .next (s.map fun t => { t.setState .escapeUnicode with ucsChar := 0, stPos := 0 })
  | _ => s.fail .errorParseString

/-! ## Escapes of code units -/

/-- `strchr(json_hex_chars, c)`: the `NUL` at the end of the digits is found too. -/
def isHexChar (c : UInt8) : Bool := isDigit c || (97 ≤ c && c ≤ 102) || (65 ≤ c && c ≤ 70) || c == 0

/-- `jt_hexdigit`, as an `unsigned int`. -/
def jtHexdigit (c : UInt8) : Nat := if c ≤ 57 then (c.toNat + 4294967296 - 48) % 4294967296 else c.toNat % 8 + 9

/-- `IS_HIGH_SURROGATE`: bits 10 to 15 are 110110. -/
def isHighSurrogate (uc : Nat) : Bool := uc / 1024 % 64 == 54

/-- `IS_LOW_SURROGATE`: bits 10 to 15 are 110111. -/
def isLowSurrogate (uc : Nat) : Bool := uc / 1024 % 64 == 55

/-- `DECODE_SURROGATE_PAIR`. -/
def decodeSurrogatePair (hi lo : Nat) : Nat := hi % 1024 * 1024 + lo % 1024 + 65536

/-- `utf8_replacement_char`. -/
def utf8ReplacementChar : List UInt8 := [0xEF, 0xBF, 0xBD]

/-- The bytes of `unescaped_utf`; none for a high surrogate, which waits for what follows it. -/
def unescapedUtf (uc : Nat) : Option (List UInt8) :=
  if uc < 0x80 then some [UInt8.ofNat uc]
  else if uc < 0x800 then some [UInt8.ofNat (0xC0 + uc / 64), UInt8.ofNat (0x80 + uc % 64)]
  else if isHighSurrogate uc then none
  else if isLowSurrogate uc then some utf8ReplacementChar
  else if uc < 0x10000 then some [UInt8.ofNat (0xE0 + uc / 4096), UInt8.ofNat (0x80 + uc / 64 % 64), UInt8.ofNat (0x80 + uc % 64)]
  else if uc < 0x110000 then
    some [UInt8.ofNat (0xF0 + uc / 262144 % 8), UInt8.ofNat (0x80 + uc / 4096 % 64), UInt8.ofNat (0x80 + uc / 64 % 64),
      UInt8.ofNat (0x80 + uc % 64)]
  else some utf8ReplacementChar

/-- A high surrogate that came before is taken together with a low one, and replaced otherwise. -/
def joinSurrogates (hi : Nat) (t : Tokener ρ) : Tokener ρ :=
  if hi = 0 then t
  else if isLowSurrogate t.ucsChar then { t with ucsChar := decodeSurrogatePair hi t.ucsChar }
  else t.append utf8ReplacementChar

/-- A pending high surrogate is replaced when the run ends. -/
def dropSurrogate (hi : Nat) (t : Tokener ρ) : Tokener ρ := if hi = 0 then t else t.append utf8ReplacementChar

/-- A digit of a code unit. A shift by a negative number of bits is not defined. -/
def takeHexdigit (t : Tokener ρ) (c : UInt8) : Option (Tokener ρ) :=
  if t.stPos < 4 then some { t with
    ucsChar := (t.ucsChar + jtHexdigit c * 16 ^ (3 - t.stPos)) % 4294967296, stPos := t.stPos + 1 } else none

/-- The loop of `json_tokener_state_escape_unicode` over the bytes from `str` on; `hi` is `got_hi_surrogate`. Behind a high
surrogate the code looks at two more bytes. -/
def unicodeLoop (chunk : Bool) : Nat → TokRun ρ → List UInt8 → Outcome ρ
  | _, _, [] => .fault
  | hi, s, c :: rest =>
    if isHexChar c then
      match takeHexdigit s.tok c with
      | none => .fault
      | some t =>
        if t.stPos = 4 then
          let t := joinSurrogates hi t
          match unescapedUtf t.ucsChar with
          | some bs => .next { s with tok := (t.append bs).setState t.savedState, c := c, str := c :: rest }
          | none =>
            match rest with
            | 92 :: 117 :: rest =>
              if c = 0 then
                .out { s with tok := (t.append utf8ReplacementChar).append utf8ReplacementChar, c := c, str := 117 :: rest }
              else
                match rest with
                | [] => { s with tok := t.append utf8ReplacementChar, c := c }.atEnd chunk
                | c' :: rest =>
                  unicodeLoop chunk t.ucsChar { s with tok := { t with ucsChar := 0, stPos := 0 }, c := c' } (c' :: rest)
            | [] | [92] =>
              if chunk then .next { s with tok := (t.append utf8ReplacementChar).setState t.savedState, c := c, str := c :: rest }
                else .fault
            | _ => .next { s with tok := (t.append utf8ReplacementChar).setState t.savedState, c := c, str := c :: rest }
        else if c = 0 then .out { s with tok := dropSurrogate hi t, c := c, str := rest }
        else
          match rest with
          | [] => { s with tok := dropSurrogate hi t, c := c }.atEnd chunk
          | c' :: rest => unicodeLoop chunk hi { s with tok := t, c := c' } (c' :: rest)
    else { s with c := c, str := c :: rest }.fail .errorParseString

/-- `json_tokener_state_escape_unicode`. -/
def onEscapeUnicode (chunk : Bool) (s : TokRun ρ) : Outcome ρ := unicodeLoop chunk 0 s s.str

/-! ## Numbers -/

/-- `strchr(json_number_chars, c)`, for a byte that is no `NUL`. -/
def isNumberChar (c : UInt8) : Bool := c ∈ bytesOf "0123456789.+-eE"

/-- The bytes that make a number a `double`. -/
def isDoubleChar (c : UInt8) : Bool := c ∈ bytesOf ".eE"

/-- `json_parse_int64`: a number that does not fit is replaced by the nearest limit. -/
def jsonParseInt64 (buf : List UInt8) : Option Int :=
  (scanInt buf).map fun (neg, n) => if neg then max (-9223372036854775808) (-(n : Int)) else min 9223372036854775807 (n : Int)

/-- The value of a number; none is `json_tokener_error_parse_number`. -/
def numberValue (ops : DoubleOps ρ) (strict isDouble : Bool) (buf : List UInt8) : Option (JsonObject ρ) :=
  if isDouble then (ops.scan buf).map fun d => .double d (some buf)
  else (jsonParseInt64 buf).bind fun n => if n ≠ 0 ∧ buf.head? = some 48 ∧ strict then none else some (.int n)

/-- `json_tokener_state_number`. -/
def onNumber (ops : DoubleOps ρ) (chunk : Bool) (s : TokRun ρ) : Outcome ρ :=
  let isDouble (passed : List UInt8) : Bool := s.tok.isDouble || passed.any isDoubleChar
  match tightLoop isNumberChar s.str with
  | (passed, .found c left) =>
    let s : TokRun ρ := { s.map (fun t => { t.append passed with isDouble := isDouble passed }) with c := c, str := left }
    if s.tok.pb.head? = some 45 ∧ passed.length = 1 ∧ (c = 105 ∨ c = 73) then .redo (s.map (·.setState .inf))
    else
      match numberValue ops s.tok.strict s.tok.isDouble s.tok.pb with
      | some v => .redo (s.map (·.finishWith v))
      | none => s.fail .errorParseNumber
  | (passed, .nul left) => .out { s.map (·.append passed) with c := 0, str := left }
  | (passed, .ended) =>
    { s.map (fun t => { t.append passed with isDouble := isDouble passed }) with c := passed.getLastD s.c }.atEnd chunk

/-! ## Arrays and objects -/

/-- A level is opened, if there is room for one, and the value in it goes to this one in a state. -/
def openLevel (s : TokRun ρ) (st : TokenerState) : Outcome ρ :=
  if s.tok.maxDepth ≤ s.tok.depth + 1 then s.fail .errorDepth else .redo (s.map fun t => (t.setState st).push)

/-- The bracket that ends an array or an object, where a comma must not come before it in strict mode. -/
def closeLevel (s : TokRun ρ) (afterSep : Bool) : Outcome ρ :=
  if afterSep ∧ s.tok.strict then s.fail .errorParseUnexpected else .next (s.map (·.eatThen .finish))

/-- `json_tokener_state_array` and `json_tokener_state_array_after_sep`. -/
def onArray (s : TokRun ρ) (afterSep : Bool) : Outcome ρ := if s.c = 93 then closeLevel s afterSep else openLevel s .arrayAdd

/-- `json_tokener_state_array_add`. -/
def onArrayAdd (s : TokRun ρ) : Outcome ρ :=
  match s.tok.level.current with
  | .array vals =>
    .redo (s.map fun t =>
      { t.eatThen .arraySep with level := { (t.eatThen .arraySep).level with current := .array (vals ++ [s.obj]) } })
  | _ => .fault

/-- `json_tokener_state_array_sep`. -/
def onArraySep (s : TokRun ρ) : Outcome ρ :=
  if s.c = 93 then .next (s.map (·.eatThen .finish))
  else if s.c = 44 then .next (s.map (·.eatThen .arrayAfterSep))
  else s.fail .errorParseArray

/-- `json_tokener_state_object_field_start` and `json_tokener_state_object_field_start_after_sep`. -/
def onObjectFieldStart (s : TokRun ρ) (afterSep : Bool) : Outcome ρ :=
  if s.c = 125 then closeLevel s afterSep
  else if s.c = 34 ∨ s.c = 39 then .next (s.map fun t => { (t.resetPb).setState .objectField with quoteChar := s.c })
  else s.fail .errorParseObjectKeyName

/-- `json_tokener_state_object_field_end`. -/
def onObjectFieldEnd (s : TokRun ρ) : Outcome ρ :=
  if s.c = 58 then .next (s.map (·.eatThen .objectValue)) else s.fail .errorParseObjectKeySep

/-- `json_tokener_state_object_value`. -/
def onObjectValue (s : TokRun ρ) : Outcome ρ := openLevel s .objectValueAdd

/-- `json_object_object_add` on the fields of an object. -/
def fieldsAdd {κ ν : Type} [DecidableEq κ] (fields : List (κ × ν)) (key : κ) (val : ν) : List (κ × ν) :=
  if key ∈ fields.map Prod.fst then OrderedMap.replace key val fields else fields ++ [(key, val)]

/-- `json_tokener_state_object_value_add`. -/
def onObjectValueAdd (s : TokRun ρ) : Outcome ρ :=
  match s.tok.level.current, s.tok.level.objFieldName with
  | .object fields, some key =>
    .redo (s.map fun t =>
      { t.eatThen .objectSep with
        level := { (t.eatThen .objectSep).level with current := .object (fieldsAdd fields key s.obj), objFieldName := none } })
  | _, _ => .fault

/-- `json_tokener_state_object_sep`. -/
def onObjectSep (s : TokRun ρ) : Outcome ρ :=
  if s.c = 125 then .next (s.map (·.eatThen .finish))
  else if s.c = 44 then .next (s.map (·.eatThen .objectFieldStartAfterSep))
  else s.fail .errorParseObjectValueSep

/-! ## The main loop -/

/-- `switch(state)`. -/
def dispatch (ops : DoubleOps ρ) (chunk : Bool) (s : TokRun ρ) : Outcome ρ :=
  match s.tok.state with
  | .eatws => onEatws chunk s
  | .start => onStart s
  | .finish => onFinish s
  | .inf => onInf ops s
  | .null => onNull ops s
  | .commentStart => onCommentStart s
  | .comment => onComment chunk s
  | .commentEol => onCommentEol chunk s
  | .commentEnd => onCommentEnd s
  | .string => onString chunk s
  | .stringEscape => onStringEscape s
  | .escapeUnicode => onEscapeUnicode chunk s
  | .boolean => onBoolean s
  | .number => onNumber ops chunk s
  | .arrayAfterSep => onArray s true
  | .array => onArray s false
  | .arrayAdd => onArrayAdd s
  | .arraySep => onArraySep s
  | .objectFieldStart => onObjectFieldStart s false
  | .objectFieldStartAfterSep => onObjectFieldStart s true
  | .objectField => onObjectField chunk s
  | .objectFieldEnd => onObjectFieldEnd s
  | .objectValue => onObjectValue s
  | .objectValueAdd => onObjectValueAdd s
  | .objectSep => onObjectSep s

/-- How a run ends. -/
inductive Ending (ρ : Type) where
  | out (s : TokRun ρ)
  | fault

/-- The end of a round: `ADVANCE_CHAR` and `PEEK_CHAR` for the next byte. -/
def Outcome.resume (chunk : Bool) : Outcome ρ → TokRun ρ ⊕ Ending ρ
  | .redo s => .inl s
  | .next s =>
    if s.c = 0 then .inr (.out { s with str := s.str.tail })
    else
      match s.str.tail with
      | [] => if chunk then .inr (.out { s.map .peekErr with str := [] }) else .inr .fault
      | c :: rest => .inl { s with c := c, str := c :: rest }
  | .out s => .inr (.out s)
  | .fault => .inr .fault

/-- A round of the main loop, up to where the next one starts. -/
def tokRound (ops : DoubleOps ρ) (chunk : Bool) (s : TokRun ρ) : TokRun ρ ⊕ Ending ρ := (dispatch ops chunk s).resume chunk

/-- What `json_tokener_parse_ex` leaves: the value it returns, the tokener, and the bytes that `char_offset` stands before. -/
structure Parsed (ρ : Type) where
  ret : JsonObject ρ
  tok : Tokener ρ
  left : List UInt8

/-- The error at `out`: text behind the value in strict mode, or a `NUL` before its end. -/
def outErr (s : TokRun ρ) : TokenerError :=
  if s.c = 0 ∧ s.tok.state ≠ .finish ∧ s.tok.savedState ≠ .finish then .errorParseEof
  else if s.c ≠ 0 ∧ s.tok.state = .finish ∧ s.tok.depth = 0 ∧ s.tok.strict then .errorParseUnexpected
  else s.tok.err

/-- What follows `out`: a value is returned and all levels are reset, or there is an error. The depth stays. -/
def parseOut (s : TokRun ρ) : Parsed ρ :=
  let tok := { s.tok with err := outErr s }
  if tok.err = .success then
    { ret := tok.level.current, tok := { tok with level := .fresh, levels := tok.levels.map fun _ => .fresh }, left := s.str }
  else { ret := .null, tok := tok, left := s.str }

/-- `json_tokener_parse_ex` on a chunk of the length of `str`, or on the string `str` with `len` -1: the first `none` says that
the run does not end in as many rounds, the second one that it reads behind the text. -/
def jsonTokenerParseEx (ops : DoubleOps ρ) (rounds : Nat) (tok : Tokener ρ) (str : List UInt8) (chunk : Bool) :
    Option (Option (Parsed ρ)) :=
  let tok := { tok with err := .success }
  if !chunk ∧ intMax < str.length then some (some { ret := .null, tok := { tok with err := .errorSize }, left := str })
  else
    match if chunk then str else str ++ [0] with
    | [] => some (some (parseOut { tok := tok.peekErr, obj := .null, c := 1, str := [] }))
    | c :: rest =>
      (loop (tokRound ops chunk) rounds { tok := tok, obj := .null, c := c, str := c :: rest }).map fun e =>
        match e with
        | .out s => some (parseOut s)
        | .fault => none

/-- `JSON_TOKENER_DEFAULT_DEPTH`. -/
def jsonTokenerDefaultDepth : Nat := 32

/-- `json_tokener_parse_verbose`: the value, and the error. -/
def jsonTokenerParseVerbose (ops : DoubleOps ρ) (rounds : Nat) (str : List UInt8) :
    Option (Option (JsonObject ρ × TokenerError)) :=
  (jsonTokenerParseEx ops rounds (jsonTokenerNewEx jsonTokenerDefaultDepth false) str false).map fun r =>
    r.map fun p => (if p.tok.err = .success then p.ret else .null, p.tok.err)

end Pixel845.Json
