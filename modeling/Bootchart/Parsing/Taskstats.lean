import Bootchart.Parsing.TimedBlocks
import Bootchart.Samples

/-!
# The taskstats log

`_parse_taskstats_log` turns the running totals of the log into samples of what
was used between frames. The processes are kept under keys in fixed point, so
that a process that changes its name continues as a new one: the key of a pid
starts at a thousand times the pid and moves on by one at each change.
-/

namespace Bootchart
namespace Parsing

open Library (Text Dict)
open Library.Text (stripChars)

/-- What a line of the log says. -/
structure TaskstatRecord where
  /-- The process. -/
  opid : Int
  /-- Its parent. -/
  ppid : Int
  /-- Its command name. -/
  cmd : Text
  /-- The total time on the processor. -/
  cpuNs : Int
  /-- The total time waiting for devices. -/
  blkioDelayNs : Int
  /-- The total time waiting for pages. -/
  swapinDelayNs : Int
  deriving DecidableEq

/-- The tokens of a line, nothing if the line is skipped. -/
def parseTaskstatLine (line : Text) : Except Exception (Option TaskstatRecord) :=
  match line.splitOn ' ' with
  | [opid, ppid, cmd, cpuNs, blkioDelayNs, swapinDelayNs] => do
      let opid ← int opid
      let ppid ← int ppid
      let cpuNs ← int cpuNs
      let blkioDelayNs ← int blkioDelayNs
      let swapinDelayNs ← int swapinDelayNs
      return some
        { opid := opid
          ppid := ppid
          cmd := stripChars [')'] (stripChars ['('] cmd)
          cpuNs := cpuNs
          blkioDelayNs := blkioDelayNs
          swapinDelayNs := swapinDelayNs }
  | _ => .ok none

/-- The records of a block. -/
def parseTaskstatBlock (block : Block) :
    Except Exception (Int × List TaskstatRecord) :=
  (block.2.mapM parseTaskstatLine).map fun records =>
    (block.1, records.filterMap id)

/-- The records of a log. -/
def taskstatRecords (file : Bytes) :
    Except Exception (List (Int × List TaskstatRecord)) :=
  parseTimedBlocks file >>= List.mapM parseTaskstatBlock

/-- A process of the map, with its history: the pid of the line it was created
for, and those of the lines its samples come from. -/
structure Entry where
  /-- The process. -/
  process : Process
  /-- The pid of the line that created it. -/
  madeFor : Int
  /-- The pids of the lines its samples come from. -/
  sources : List Int

/-- The variables of `_parse_taskstats_log`, and the processes that were
overwritten in the map. -/
structure TaskstatState where
  /-- `processMap`. -/
  processMap : Dict Int Entry
  /-- `pidRewrites`. -/
  pidRewrites : Dict Int Int
  /-- The processes no longer in the map. -/
  overwritten : List Entry

/-- `Process(writer, 1, '[init]', 0, 0)`, for lack of a start time of init. -/
def initEntry : Entry where
  process := Process.new 1 "[init]".toList 0 0
  madeFor := 1
  sources := []

/-- `Process(writer, pid, cmd, ppid, time)`: the process of the first line about a
pid. -/
def Entry.create (time pid : Int) (record : TaskstatRecord) : Entry where
  process := Process.new pid record.cmd (record.ppid * 1000) time
  madeFor := record.opid
  sources := []

/-- `process.split(writer, pid, cmd, ppid, time)`: the process after a change of
name. -/
def Entry.split (entry : Entry) (time pid : Int) (record : TaskstatRecord) : Entry where
  process := entry.process.split pid record.cmd (record.ppid * 1000) time
  madeFor := record.opid
  sources := []

/-- The state before the first line of the first frame. -/
def TaskstatState.init : TaskstatState where
  processMap := Dict.empty.set 1000 initEntry
  pidRewrites := Dict.empty
  overwritten := []

/-- The key of a pid: `pidRewrites[opid]`, or else the pid in fixed point. -/
def TaskstatState.currentKey (state : TaskstatState) (opid : Int) : Int :=
  (state.pidRewrites.get? (opid * 1000)).getD (opid * 1000)

/-- `processMap[pid] = process`. -/
def TaskstatState.put (state : TaskstatState) (key : Int) (entry : Entry) :
    TaskstatState :=
  { state with
    processMap := state.processMap.set key entry
    overwritten := state.overwritten ++ (state.processMap.get? key).toList }

/-- The key and the process a line is about: the one under the key of the pid, a
new one if there is none, or its split if the name changed. -/
def TaskstatState.lookUp
    (state : TaskstatState)
    (time : Int)
    (record : TaskstatRecord) : Int × Entry × TaskstatState :=
  let pid := state.currentKey record.opid
  match state.processMap.get? pid with
  | some entry =>
      if entry.process.cmd ≠ record.cmd then
        let split := entry.split time (pid + 1) record
        (pid + 1, split,
          { state with
            pidRewrites := state.pidRewrites.set (record.opid * 1000) (pid + 1) }.put
              (pid + 1) split)
      else
        (pid, entry, state)
  | none =>
      let entry := Entry.create time pid record
      (pid, entry, state.put pid entry)

/-- The sample of a line, unless nothing advanced. -/
def taskstatSample (time : Int) (process : Process) (record : TaskstatRecord) :
    Option ProcessSample :=
  let deltaCpuNs : ℚ := record.cpuNs - process.lastCpuNs
  let deltaBlkioDelayNs : ℚ := record.blkioDelayNs - process.lastBlkioDelayNs
  let deltaSwapinDelayNs : ℚ := record.swapinDelayNs - process.lastSwapinDelayNs
  let state :=
    if deltaCpuNs > 0 then ['R']
    else if deltaBlkioDelayNs + deltaSwapinDelayNs > 0 then ['D']
    else ['S']
  if deltaCpuNs + deltaBlkioDelayNs + deltaSwapinDelayNs > 0 then
    some
      { time := time
        state := state
        cpuSample :=
          { time := none
            user := deltaCpuNs
            sys := 0
            io := deltaBlkioDelayNs
            swap := deltaSwapinDelayNs } }
  else
    none

/-- Append the sample of a line and remember its totals. -/
def Entry.advance (entry : Entry) (time : Int) (record : TaskstatRecord) : Entry :=
  let sample := taskstatSample time entry.process record
  { entry with
    process :=
      { entry.process with
        samples := entry.process.samples ++ sample.toList
        lastCpuNs := record.cpuNs
        lastBlkioDelayNs := record.blkioDelayNs
        lastSwapinDelayNs := record.swapinDelayNs }
    sources := entry.sources ++ sample.toList.map fun _ => record.opid }

/-- One round of the loop over the lines. The process is changed in place. -/
def TaskstatState.step
    (state : TaskstatState)
    (time : Int)
    (record : TaskstatRecord) : TaskstatState :=
  let (key, entry, state) := state.lookUp time record
  { state with
    processMap := state.processMap.set key (entry.advance time record) }

/-- One round of the loop over the frames. -/
def TaskstatState.frame
    (state : TaskstatState)
    (frame : Int × List TaskstatRecord) : TaskstatState :=
  frame.2.foldl (fun state record => state.step frame.1 record) state

/-- The state after the frames of a log. -/
def runTaskstats (frames : List (Int × List TaskstatRecord)) : TaskstatState :=
  frames.foldl TaskstatState.frame .init

/-- `_parse_taskstats_log`. The lines are read first, as applying them cannot
fail. -/
def parseTaskstatsLog (file : Bytes) : Except Exception (Option ProcessStats) := do
  let frames ← taskstatRecords file
  match frames.head?, frames.getLast? with
  | some first, some last =>
      if frames.length < 2 then
        return none
      else
        return some
          { processMap := (runTaskstats frames).processMap.mapValues
              fun _ entry => entry.process
            sampleCount := frames.length
            samplePeriod := ((last.1 - first.1 : Int) : ℚ) / (frames.length - 1)
            startTime := first.1
            endTime := last.1 }
  | _, _ => return none

end Parsing
end Bootchart
