import Pixel845.Datatop.DataPoint
import Pixel845.Lib.Attr

/-!
# Lines

How the pollers read a file: `dt_read_file` fills a read buffer, `dt_read_line` copies one line of it into a line buffer, and a
loop does so for as many lines as `dtop_get_file_line_amount` has counted. Reads of the read buffer are the operations of a
`Reader`, so that one can ask where they lie: the buffer is read up to its size, not up to what the file has filled.
-/

namespace Pixel845.Datatop

/-- `dtop_get_file_line_amount`: a byte of `0xff` is `EOF` in a `signed char`. -/
def getFileLineAmount (content : List UInt8) : Nat := (content.takeWhile (· != 0xff)).count 10

/-- `dt_read_file`: the read buffer of `len` bytes, over what `malloc` returned. -/
def readFile (content : List UInt8) (len : Nat) (rest : Image) : Image := rest.write 0 (content.take len)

/-- The loop of `dt_read_line`: what it copies, from an offset on, when `n` bytes are left in the destination. -/
def readLineLoop (len2 : Nat) : Nat → Nat → Reader (List UInt8)
  | 0, _ => return []
  | n + 1, j =>
    if j < len2 then do
      let c ← rd j 1
      if c = 10 then return []
      else return .ofNat c :: (← readLineLoop len2 n (j + 1))
    else return []

/-- `dt_read_line`: the destination and the length of the line. -/
def readLine (buf1 : Image) (len1 len2 start : Nat) : Reader (Image × Nat) :=
  if len1 < 1 ∨ len2 < 1 ∨ len2 < start then return (buf1, 0)
  else do
    let line ← readLineLoop len2 (len1 - 1) start
    return (buf1.write 0 (line ++ [0]), line.length)

/-- `dt_read_line` for the `int`s that it is given: the loop is reached for an offset in the source buffer or at its end. -/
def dtReadLine (buf1 : Image) (len1 len2 start : Int) : Reader (Image × Nat) :=
  if len1 < 1 ∨ len2 < 1 ∨ start < 0 ∨ len2 < start then return (buf1, 0)
  else do
    let line ← readLineLoop len2.toNat (len1 - 1).toNat start.toNat
    return (buf1.write 0 (line ++ [0]), line.length)

/-- The private data with one line buffer changed. -/
def Vars.setBuf (vars : Vars) (id : BufId) (b : Image) : Vars := { vars with buf := Function.update vars.buf id b }

/-- The loop of the pollers, from line `n` and offset `sum` on: the lengths of the lines read into the line buffers. Whether `sum`
is advanced after the last line differs between them, and does not matter. -/
def readLinesLoop (arr : Nat → BufId) (size : Nat) : Nat → Nat → Nat → Vars → Reader (Vars × List Nat)
  | 0, _, _, vars => return (vars, [])
  | k + 1, n, sum, vars => do
    let (b, len) ← readLine (vars.buf (arr n)) vars.lineSize size sum
    let (vars, lens) ← readLinesLoop arr size k (n + 1) (sum + (len + 1)) (vars.setBuf (arr n) b)
    return (vars, len :: lens)

/-- The loop of the pollers over all lines. -/
def readLines (arr : Nat → BufId) (size : Nat) (vars : Vars) : Reader (Vars × List Nat) :=
  readLinesLoop arr size vars.lineCount 0 0 vars

/-! ## What is read -/

/-- On lengths and offsets that are not negative both say the same. -/
theorem dtReadLine_natCast (buf1 : Image) (len1 len2 start : Nat) :
    dtReadLine buf1 len1 len2 start = readLine buf1 len1 len2 start := by
  have hguard : ((len1 : Int) < 1 ∨ (len2 : Int) < 1 ∨ (start : Int) < 0 ∨ (len2 : Int) < start) ↔
      (len1 < 1 ∨ len2 < 1 ∨ len2 < start) := by
    omega
  have hlen : ((len1 : Int) - 1).toNat = len1 - 1 := by omega
  unfold dtReadLine readLine
  simp only [hguard, hlen, Int.toNat_natCast]

@[simp] theorem Vars.setBuf_lineSize (vars : Vars) (id : BufId) (b : Image) : (vars.setBuf id b).lineSize = vars.lineSize := rfl
@[simp] theorem Vars.setBuf_lineCount (vars : Vars) (id : BufId) (b : Image) :
    (vars.setBuf id b).lineCount = vars.lineCount := rfl
@[simp] theorem Vars.setBuf_buf (vars : Vars) (id : BufId) (b : Image) :
    (vars.setBuf id b).buf = Function.update vars.buf id b := rfl

theorem nat_one (m : Image) (off : Nat) : m.nat off 1 = (m off).toNat := by
  simp [Image.nat, Image.read, leNat]

theorem read_succ (m : Image) (off n : Nat) : m.read off (n + 1) = m off :: m.read (off + 1) n := by
  rw [Nat.add_comm n 1, Image.read_add]
  simp [Image.read]

/-- A line is what stands before the newline, as far as it fits and the buffer goes. -/
theorem readLineLoop_run (m : Image) (len2 n j : Nat) :
    (readLineLoop len2 n j).run m.load = ((m.read j (len2 - j)).take n).takeWhile (· != 10) := by
  induction n generalizing j with
  | zero => simp [readLineLoop]
  | succ n ih =>
    rw [readLineLoop]
    by_cases hj : j < len2
    · have hsub : len2 - j = len2 - (j + 1) + 1 := by omega
      simp only [hj, if_true, rd, Prog.run_bind, Prog.run_call, Image.load, nat_one]
      rw [hsub, read_succ, List.take_succ_cons, List.takeWhile_cons]
      by_cases hc : m j = 10
      · simp [hc]
      · have hc' : (m j).toNat ≠ 10 := fun h => hc (UInt8.toNat_inj.mp h)
        simp [hc, hc', ih]
    · have hsub : len2 - j = 0 := by omega
      simp [hj, hsub, Image.read]

theorem readLineLoop_length_le (m : Image) (len2 n j : Nat) : ((readLineLoop len2 n j).run m.load).length ≤ n := by
  rw [readLineLoop_run]
  have h1 := (List.takeWhile_prefix (p := (· != 10)) (l := (m.read j (len2 - j)).take n)).length_le
  simp only [List.length_take] at h1
  omega

/-- The bytes that are read are those of the line and, if there is room, its newline. -/
theorem readLineLoop_loads (m : Image) (len2 n j : Nat) :
    ∀ l ∈ (readLineLoop len2 n j).trace m.load,
      l.off + l.width ≤ j + min n (((readLineLoop len2 n j).run m.load).length + 1) := by
  induction n generalizing j with
  | zero => simp [readLineLoop]
  | succ n ih =>
    rw [readLineLoop]
    by_cases hj : j < len2
    · simp only [hj, if_true, rd, Prog.trace_bind, Prog.trace_call, Prog.run_bind, Prog.run_call]
      intro l hl
      rcases List.mem_append.mp hl with hl | hl
      · rw [List.mem_singleton.mp hl]
        simp only
        omega
      · by_cases hc : m.load ⟨j, 1⟩ = 10
        · simp [hc] at hl
        · simp only [hc, if_false, Prog.trace_bind, Prog.pure_eq, Prog.trace_ret, List.append_nil] at hl
          have h := ih (j + 1) l hl
          simp only [hc, if_false, Prog.run_bind, Prog.pure_eq, Prog.run_ret, List.length_cons]
          omega
    · simp [hj]

end Pixel845.Datatop
