import Bootchart.Parsing.TimedBlocks
import Bootchart.Samples

/-!
# The process status log

`_parse_proc_ps_log` reads the lines of `/proc/<pid>/stat`. The command name
stands in parentheses and may contain spaces; the parser takes it to end with
the first token that ends in a closing parenthesis and counts the other fields
from there.
-/

namespace Bootchart
namespace Parsing

open Library (Text Dict)
open Library.Text (stripChars)

/-- What a line of the log says. -/
structure StatRecord where
  /-- The process. -/
  pid : Int
  /-- Its command name, `cmd.strip('()')`. -/
  cmd : Text
  /-- Its state. -/
  state : Text
  /-- Its parent. -/
  ppid : Int
  /-- The total time in user mode. -/
  userCpu : Int
  /-- The total time in kernel mode. -/
  sysCpu : Int
  /-- The time it started. -/
  stime : Int
  deriving DecidableEq

/-- `tokens[index]`. -/
def token (tokens : List Text) (index : Nat) : Except Exception Text :=
  match tokens[index]? with
  | some text => .ok text
  | none => .error .indexError

/-- The index of the first token that ends in a closing parenthesis; the last
character of every token is looked at. -/
def closingOffset (tokens : List Text) : Except Exception Nat :=
  if [] ∈ tokens then .error .indexError
  else
    match tokens.findIdx? fun text => text.getLast? = some ')' with
    | some offset => .ok offset
    | none => .error .indexError

/-- The fields of a line whose name is the first `1 + offset` tokens behind the
pid. -/
def statFields (tokens : List Text) (offset : Nat) : Except Exception StatRecord := do
  let pid ← token tokens 0 >>= int
  let cmd := [' '].intercalate ((tokens.drop 1).take (1 + offset))
  let state ← token tokens (2 + offset)
  let ppid ← token tokens (3 + offset) >>= int
  let userCpu ← token tokens (13 + offset) >>= int
  let sysCpu ← token tokens (14 + offset) >>= int
  let stime ← token tokens (21 + offset) >>= int
  return {
    pid := pid
    cmd := stripChars ['(', ')'] cmd
    state := state
    ppid := ppid
    userCpu := userCpu
    sysCpu := sysCpu
    stime := stime }

/-- The record of a line, nothing if the line is skipped. -/
def parseStatLine (line : Text) : Except Exception (Option StatRecord) :=
  let tokens := line.splitOn ' '
  if line = [] ∨ tokens.length < 21 then .ok none
  else do
    let offset ← closingOffset tokens.tail
    let record ← statFields tokens offset
    return some record

/-- The records of a block. -/
def parseStatBlock (block : Block) : Except Exception (Int × List StatRecord) :=
  (block.2.mapM parseStatLine).map fun records =>
    (block.1, records.filterMap id)

/-- The records of a log, read block by block. -/
def statRecords (file : Bytes) :
    Except Exception (List (Int × List StatRecord)) := do
  let (blocks, exception) := iterParseTimedBlocks file
  let frames ← blocks.mapM parseStatBlock
  match exception with
  | some exception => throw exception
  | none => return frames

/-- The sample of a line, if the process was seen before. -/
def statSample
    (time ltime : Int)
    (process : Process)
    (record : StatRecord) : Option ProcessSample :=
  match process.lastUserCpuTime, process.lastSysCpuTime with
  | some lastUserCpuTime, some lastSysCpuTime =>
      let (userCpuLoad, sysCpuLoad) := Process.calcLoad
        lastUserCpuTime lastSysCpuTime record.userCpu record.sysCpu
        (max 1 (time - ltime) : Int)
      some
        { time := time
          state := record.state
          cpuSample :=
            { time := none, user := userCpuLoad, sys := sysCpuLoad, io := 0, swap := 0 } }
  | _, _ => none

/-- One round of the loop over the lines. -/
def applyStat
    (time ltime : Int)
    (processMap : Dict Int Process)
    (record : StatRecord) : Dict Int Process :=
  let pid := record.pid * 1000
  let process :=
    match processMap.get? pid with
    | some process => { process with cmd := record.cmd }
    | none =>
        Process.new pid record.cmd (record.ppid * 1000) (min time record.stime : Int)
  processMap.set pid
    { process with
      samples := process.samples ++ (statSample time ltime process record).toList
      lastUserCpuTime := some record.userCpu
      lastSysCpuTime := some record.sysCpu }

/-- The loop over the frames, with the time of the frame before. -/
def runStat :
    Int → Dict Int Process → List (Int × List StatRecord) →
      Dict Int Process
  | _, processMap, [] => processMap
  | ltime, processMap, (time, records) :: frames =>
      runStat time (records.foldl (applyStat time ltime) processMap) frames

/-- `_parse_proc_ps_log`. The lines are read first, as applying them cannot
fail. -/
def parseProcPsLog (file : Bytes) : Except Exception (Option ProcessStats) := do
  let frames ← statRecords file
  match frames.head?, frames.getLast? with
  | some first, some last =>
      if frames.length < 2 then
        return none
      else
        return some
          { processMap := runStat 0 Dict.empty frames
            sampleCount := frames.length
            samplePeriod := ((last.1 - first.1 : Int) : ℚ) / (frames.length - 1)
            startTime := first.1
            endTime := last.1 }
  | _, _ => return none

end Parsing
end Bootchart
