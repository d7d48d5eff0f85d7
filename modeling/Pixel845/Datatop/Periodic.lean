import Pixel845.Datatop.DataPoint
import Pixel845.Datatop.Opt
import Pixel845.Lib.Timeval

/-!
# Polling periodically

`dtop_poll_periodically` of `datatop.c`. The clock, the wait for input, the file and the data points belong to the surroundings;
what is printed to the terminal is left out. A round of the loop is a program, the loop is the relation of what its rounds did,
one after the other. `time_t` and `long` have 64 bits, and what overflows wraps.
-/

namespace Pixel845.Datatop

/-- What the loop asks of its surroundings. -/
inductive PeriodicOp where
  | gettimeofday
  | select (timeout : Timeval)
  | scanf
  | fprintf (text : List UInt8)
  | printDpgNamesCsv
  | writePollingdataCsv
  | printSnapshotDiff
  | resetDpInitialValues
  | poll
deriving DecidableEq

/-- The answers: `select` gives its result, `scanf` what the buffer holds after it, and what writes to the file whether it
succeeded. -/
def PeriodicOp.Res : PeriodicOp → Type
  | gettimeofday => Timeval
  | select _ => Int32
  | scanf => List UInt8
  | fprintf _ | printDpgNamesCsv | writePollingdataCsv => Bool
  | printSnapshotDiff | resetDpInitialValues | poll => Unit

abbrev PeriodicM := Prog PeriodicOp PeriodicOp.Res

/-- An operation of the surroundings. -/
def ask (o : PeriodicOp) : PeriodicM o.Res := Prog.call o

abbrev PeriodicEvents := List (Prog.Event PeriodicOp.Res)

/-- `DTOP_SEC_TO_USEC` -/
def secToUsec (x : Int64) : Int64 := x * 1000000

/-- A reading in microseconds, as `curtime` holds it. -/
def curtimeOf (tv : Timeval) : Int64 := secToUsec tv.sec + tv.usec

/-- `"Time",` -/
def timeHeader : List UInt8 := [34, 84, 105, 109, 101, 34, 44]

/-- What comes before the loop: `curtime`, `endtime` and `itime`, or `none` for `FILE_ERROR`. -/
def pollStart (pollTime : Int64) : PeriodicM (Option (Int64 × Int64 × Timeval)) := do
  let tv : Timeval ← ask .gettimeofday
  let curtime := curtimeOf tv
  let endtime := secToUsec tv.sec + secToUsec pollTime
  let ok : Bool ← ask (.fprintf timeHeader)
  if !ok then return none
  let ok : Bool ← ask .printDpgNamesCsv
  if !ok then return none
  let ok : Bool ← ask (.fprintf [10])
  if !ok then return none
  let itime : Timeval ← ask .gettimeofday
  return some (curtime, endtime, itime)

/-- `dtop_print_time_at_poll` -/
def dtopPrintTimeAtPoll : PeriodicM Bool := do
  let tv : Timeval ← ask .gettimeofday
  let ok : Bool ← ask (.fprintf (padLeft 32 10 (decimalInt tv.sec.toInt)))
  if !ok then return false
  ask (.fprintf ([46] ++ padLeft 48 6 (decimalInt tv.usec.toInt) ++ [44]))

/-- How a round ends: with the values for the next test of the loop, with a quit command, or with `FILE_ERROR`. -/
inductive RoundEnd where
  | next (curtime : Int64) (itime : Timeval)
  | quit
  | fileError
deriving DecidableEq

/-- What a round writes to the file after its poll. -/
def pollWrite (curtime : Int64) (itime : Timeval) : PeriodicM RoundEnd := do
  let ok ← dtopPrintTimeAtPoll
  if !ok then return .fileError
  let ok : Bool ← ask .writePollingdataCsv
  if !ok then return .fileError
  return .next curtime itime

/-- A poll, behind the input of its round. -/
def pollOnce (itime : Timeval) : PeriodicM RoundEnd := do
  let tv : Timeval ← ask .gettimeofday
  let curtime := curtimeOf tv
  ask .poll
  pollWrite curtime itime

/-- The commands of a user: `quit` and `q`, `i`, and `l`. -/
def pollCommand (itime : Timeval) : PeriodicM RoundEnd := do
  let s : List UInt8 ← ask .scanf
  if s = [113, 117, 105, 116] ∨ s = [113] then return .quit
  if s = [105] then do
    ask .printSnapshotDiff
    ask .resetDpInitialValues
  if s = [108] then
    ask .printSnapshotDiff
  pollOnce itime

/-- The timeout that a round waits: what is left of the period since `itime`. -/
def waitTime (pollPer : Int64) (itime ftime : Timeval) : Timeval :=
  let timeout : Timeval := ⟨pollPer / 1000000, pollPer % 1000000⟩
  let polltime := ftime.sub itime
  timeout.sub polltime

/-- A round of the loop. -/
def pollRound (pollPer : Int64) (itime : Timeval) : PeriodicM RoundEnd := do
  let ftime : Timeval ← ask .gettimeofday
  let inp : Int32 ← ask (.select (waitTime pollPer itime ftime))
  let itime : Timeval ← ask .gettimeofday
  if inp ≠ 0 then pollCommand itime
  else pollOnce itime

/-- A round that was made: the reading that it counts from, what it did, and how it ended. -/
structure PollRound (pollPer : Int64) where
  itime : Timeval
  events : PeriodicEvents
  result : RoundEnd
  exec : (pollRound pollPer itime).Exec events result

/-- How far the loop got: `running` is before a test. -/
inductive LoopEnd where
  | running
  | finished
  | quit
  | fileError
deriving DecidableEq

/-- The condition of the loop. -/
def PollsOn (pollTime endtime curtime : Int64) : Prop := curtime < endtime ∨ pollTime = pollNotSpecified

/-- The loop, from values of `curtime` and `itime` on. -/
inductive PollLoop (pollPer pollTime endtime : Int64) : Int64 → Timeval → List (PollRound pollPer) → LoopEnd → Prop
  | running (curtime : Int64) (itime : Timeval) : PollLoop pollPer pollTime endtime curtime itime [] .running
  | finished {curtime : Int64} (itime : Timeval) (h : ¬PollsOn pollTime endtime curtime) :
      PollLoop pollPer pollTime endtime curtime itime [] .finished
  | next {curtime c : Int64} {i : Timeval} {rounds : List (PollRound pollPer)} {e : LoopEnd}
      (h : PollsOn pollTime endtime curtime) (r : PollRound pollPer) (hr : r.result = .next c i)
      (hloop : PollLoop pollPer pollTime endtime c i rounds e) :
      PollLoop pollPer pollTime endtime curtime r.itime (r :: rounds) e
  | quit {curtime : Int64} (h : PollsOn pollTime endtime curtime) (r : PollRound pollPer) (hr : r.result = .quit) :
      PollLoop pollPer pollTime endtime curtime r.itime [r] .quit
  | fileError {curtime : Int64} (h : PollsOn pollTime endtime curtime) (r : PollRound pollPer) (hr : r.result = .fileError) :
      PollLoop pollPer pollTime endtime curtime r.itime [r] .fileError

/-- What comes behind the loop: a last snapshot, unless it was quit. -/
def pollEnd (e : LoopEnd) : PeriodicM Unit := if e = .finished then ask .printSnapshotDiff else return ()

/-- A run of `dtop_poll_periodically` that reached its loop. -/
structure PollRun (pollPer pollTime : Int64) where
  startEvents : PeriodicEvents
  curtime : Int64
  endtime : Int64
  itime : Timeval
  started : (pollStart pollTime).Exec startEvents (some (curtime, endtime, itime))
  rounds : List (PollRound pollPer)
  last : LoopEnd
  loop : PollLoop pollPer pollTime endtime curtime itime rounds last
  endEvents : PeriodicEvents
  ended : (pollEnd last).Exec endEvents ()

end Pixel845.Datatop
