import Pixel845.Lib.Bytes
import Pixel845.Json.Linkhash

/-!
# The print buffer of json-c

`printbuf.c` and `printbuf.h`: text in an allocated block that grows. A step gives `none` where the code overflows an `int` or
writes outside the block. The bytes of a new block are those that memory had. What `malloc` and `realloc` do when there is no
memory is left out.
-/

namespace Pixel845.Json

/-- `struct printbuf`: the memory from `buf` on, of which `size` bytes are allocated. -/
structure Printbuf where
  buf : Image
  bpos : Nat
  size : Nat

/-- `printbuf_new`, where the block shows what was in memory. -/
def printbufNew (memory : Image) : Printbuf := { buf := memory, bpos := 0, size := 32 }

/-- A store into the block. -/
def Printbuf.store (p : Printbuf) (off : Nat) (bs : List UInt8) : Option Printbuf :=
  if off + bs.length ≤ p.size then some { p with buf := p.buf.write off bs } else none

/-- The copy behind the text, with a `NUL`, of `printbuf_memappend` and `printbuf_memappend_fast`. -/
def Printbuf.push (p : Printbuf) (bs : List UInt8) : Option Printbuf := do
  let p ← p.store p.bpos bs
  let p := { p with bpos := p.bpos + bs.length }
  p.store p.bpos [0]

/-- `printbuf_extend`. -/
def printbufExtend (p : Printbuf) (minSize : Nat) : Option Printbuf :=
  if minSize ≤ p.size then some p
  else do
    guard (p.size * 2 ≤ intMax)
    guard (minSize + 8 ≤ intMax)
    some { p with size := if p.size * 2 < minSize + 8 then minSize + 8 else p.size * 2 }

/-- `printbuf_memappend`. -/
def printbufMemappend (p : Printbuf) (bs : List UInt8) : Option Printbuf := do
  guard (p.bpos + bs.length + 1 ≤ intMax)
  let p ← if p.size ≤ p.bpos + bs.length + 1 then printbufExtend p (p.bpos + bs.length + 1) else some p
  p.push bs

/-- `printbuf_memappend_fast`. -/
def printbufMemappendFast (p : Printbuf) (bs : List UInt8) : Option Printbuf :=
  if (bs.length : Int) < (p.size : Int) - p.bpos then p.push bs else printbufMemappend p bs

/-- `printbuf_memset`; no offset is the offset -1, the end of the text. -/
def printbufMemset (p : Printbuf) (offset : Option Nat) (charvalue : UInt8) (len : Nat) : Option Printbuf := do
  let offset := offset.getD p.bpos
  let sizeNeeded := offset + len
  guard (sizeNeeded ≤ intMax)
  let p ← if p.size < sizeNeeded then printbufExtend p sizeNeeded else some p
  let p ← p.store offset (List.replicate len charvalue)
  some (if p.bpos < sizeNeeded then { p with bpos := sizeNeeded } else p)

/-- `sprintbuf`, for the text that the format gives: on the stack up to 127 bytes and in a block of its own from there on. -/
def sprintbuf (p : Printbuf) (text : List UInt8) : Option Printbuf := printbufMemappend p text

/-- `printbuf_reset`. -/
def printbufReset (p : Printbuf) : Option Printbuf := do
  let p ← p.store 0 [0]
  some { p with bpos := 0 }

/-- The calls on a print buffer. -/
inductive PrintbufCall where
  | memappend (bs : List UInt8)
  | memappendFast (bs : List UInt8)
  | memset (offset : Option Nat) (charvalue : UInt8) (len : Nat)
  | sprintbuf (text : List UInt8)
  | reset

/-- A call on a print buffer. -/
def printbufStep (p : Printbuf) : PrintbufCall → Option Printbuf
  | .memappend bs => printbufMemappend p bs
  | .memappendFast bs => printbufMemappendFast p bs
  | .memset offset charvalue len => printbufMemset p offset charvalue len
  | .sprintbuf text => sprintbuf p text
  | .reset => printbufReset p

/-- The calls that end the text with a `NUL`: `printbuf_memset` is the one that does not. -/
def PrintbufCall.terminates : PrintbufCall → Bool
  | .memset .. => false
  | .memappend _ | .memappendFast _ | .sprintbuf _ | .reset => true

/-- As long as a text may get: a longer one can overflow the size of the block. -/
def maxText : Nat := 1073741823

/-- A text that is not too long. -/
def fitText (text : List UInt8) : Option (List UInt8) := if text.length ≤ maxText then some text else none

/-- What a call is for: the text that it makes of a text. A range behind the end of the text cannot be set. -/
def textStep (text : List UInt8) : PrintbufCall → Option (List UInt8)
  | .memappend bs | .memappendFast bs | .sprintbuf bs => fitText (text ++ bs)
  | .memset offset charvalue len =>
    let offset := offset.getD text.length
    if offset ≤ text.length then fitText (text.take offset ++ List.replicate len charvalue ++ text.drop (offset + len)) else none
  | .reset => some []

end Pixel845.Json
