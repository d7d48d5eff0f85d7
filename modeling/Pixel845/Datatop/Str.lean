import Pixel845.Datatop.Lines

/-!
# Tokenisers

The parsers of `datatop_str.c`. They cut a line in place: a separator is overwritten with a terminator and the dictionary takes
pointers into the line. An entry of a dictionary is `none` as long as it is what `malloc` returned or what the stack held. A
result of `none` is undefined behaviour: the use of such an entry, or an index of `DTOP_DICT_SIZE` or more.
-/

namespace Pixel845.Datatop

/-- `DTOP_DICT_SIZE` -/
def dictSize : Nat := 2048

/-- `struct dt_procdict` -/
structure Dict where
  max : Option Nat
  key : Nat → Option Ptr
  val : Nat → Option Ptr

/-- A dictionary as allocated. -/
def Dict.unset : Dict := ⟨none, fun _ => none, fun _ => none⟩

/-- Entries from an index on, over what was there. -/
def setFrom (entries : Nat → Option Ptr) (k : Nat) (ptrs : List Ptr) : Nat → Option Ptr :=
  fun i => if k ≤ i then (ptrs[i - k]?).or (entries i) else entries i

/-- The bytes of a separator among the next `n`, from offset `i` on. -/
def positions (sep : UInt8 → Bool) (line : Image) : Nat → Nat → List Nat
  | 0, _ => []
  | n + 1, i => if sep (line i) then i :: positions sep line n (i + 1) else positions sep line n (i + 1)

/-- A line after terminators were written. -/
def terminate (line : Image) (ps : List Nat) : Image := fun i => if i ∈ ps then 0 else line i

/-- The spaces of a line, as many as a dictionary has entries. -/
def spaces (line : Image) (len : Nat) : List Nat := (positions (· == 32) line len 0).take dictSize

/-- Pointers behind the separators. -/
def behind (id : BufId) (ps : List Nat) : List Ptr := ps.map fun i => ⟨id, i + 1⟩

/-- `dt_parse_proc_dictionary` -/
def parseProcDictionary (line1 : Image) (id1 : BufId) (len1 : Nat) (line2 : Image) (id2 : BufId) (len2 : Nat) (dict : Dict) :
    Image × Image × Dict :=
  if len1 < 1 ∨ len2 < 1 then (line1, line2, dict)
  else
    let keys := spaces line1 len1
    let vals := spaces line2 len2
    (terminate line1 keys, terminate line2 vals,
      { max := some (min keys.length vals.length)
        key := setFrom dict.key 0 (behind id1 keys)
        val := setFrom dict.val 0 (behind id2 vals) })

/-- `dt_parse_for_prefix` -/
def parseForPrefix (line1 : Image) (id1 : BufId) (len1 : Nat) (dict : Dict) : Image × Dict :=
  if len1 < 1 then (line1, dict)
  else
    let keys := spaces line1 len1
    let line := terminate line1 keys
    (terminate line (positions (· == 58) line len1 0),
      { dict with
        key := setFrom dict.key 0 (behind id1 keys)
        val := setFrom dict.val 0 (keys.map fun _ => ⟨id1, 0⟩) })

/-- The loop of `dt_find_dict_idx`: `n` entries from index `i` on. An entry that was never set cannot be compared. -/
def findDictIdxLoop (vars : Vars) (str : List UInt8) (dict : Dict) : Nat → Nat → Option (Option Nat)
  | 0, _ => some none
  | n + 1, i => do
    let key ← dict.key i
    if vars.cstr key = str then return some i
    else findDictIdxLoop vars str dict n (i + 1)

/-- `dt_find_dict_idx`: inside, `none` is -1. -/
def findDictIdx (vars : Vars) (str : List UInt8) (dict : Dict) : Option (Option Nat) := do
  let max ← dict.max
  findDictIdxLoop vars str dict max 0

/-- `dt_parse_proc_same_line_key_and_val`: the line and the dictionary. The pointer to the value is set one byte behind the first
byte that is no space, and it stays as it was if there is none. -/
def parseProcSameLineKeyAndVal (line1 : Image) (id1 : BufId) (len1 l : Nat) (dict : Dict) : Image × Dict :=
  if len1 < 1 then (line1, dict)
  else
    match (if l < dictSize then positions (· == 32) line1 len1 0 else []) with
    | [] => (line1, { dict with max := some (l + 1) })
    | i :: _ =>
      let val := (positions (· != 32) line1 (len1 - (i + 1)) (i + 1)).head?
      (terminate line1 [i],
        { max := some (l + 1)
          key := setFrom dict.key l [⟨id1, 0⟩]
          val := setFrom dict.val l (val.toList.map fun n => ⟨id1, n + 1⟩) })

/-- A byte that ends a value: a space, a comma or a tab. -/
def isValueSep (c : UInt8) : Bool := c == 32 || c == 44 || c == 9

/-- `dt_single_line_parse` -/
def singleLineParse (line1 : Image) (id : BufId) (len1 : Nat) (dict : Dict) : Option (Image × Dict) :=
  let seps := positions isValueSep line1 len1 0
  if dictSize ≤ seps.length then none
  else some (terminate line1 seps,
    { dict with
      max := some (seps.length + 1)
      val := setFrom dict.val 0 (⟨id, 0⟩ :: behind id seps) })

end Pixel845.Datatop
