import Bootchart.Parsing.TimedBlocks
import Bootchart.Samples

/-!
# The logs of processor times and of memory

`_parse_proc_stat_log` reads the first line of every frame and takes the differences
of the times in neighbouring frames. `_parse_proc_meminfo_log` reads the named values
of every frame.
-/

namespace Bootchart
namespace Parsing

open Library (Text Dict)
open Library.Text (words behind leadingDigits isSpace)

/-- The times of a frame. -/
structure CpuTimes where
  /-- Time in user mode. -/
  user : Int
  /-- Time in user mode with low priority. -/
  nice : Int
  /-- Time in kernel mode. -/
  system : Int
  /-- Idle time. -/
  idle : Int
  /-- Time waiting for devices. -/
  ioWait : Int
  /-- Time in interrupts. -/
  irq : Int
  /-- Time in soft interrupts. -/
  softirq : Int

/-- The times of a frame, unless its first line is too short. -/
def statTimes (block : Block) : Except Exception (Option (Int × CpuTimes)) :=
  match block.2 with
  | [] => .ok none
  | line :: _ =>
      if (words line).length < 8 then .ok none
      else do
        match ← (words line).tail.mapM int with
        | user :: nice :: system :: idle :: ioWait :: irq :: softirq :: _ =>
            return some (block.1,
              { user := user
                nice := nice
                system := system
                idle := idle
                ioWait := ioWait
                irq := irq
                softirq := softirq })
        | _ => return none

/-- The sample of two neighbouring frames. -/
def cpuSample (last frame : Int × CpuTimes) : CPUSample :=
  let (_, ltimes) := last
  let (time, times) := frame
  let user := (times.user + times.nice) - (ltimes.user + ltimes.nice)
  let system := (times.system + times.irq + times.softirq) -
    (ltimes.system + ltimes.irq + ltimes.softirq)
  let idle := times.idle - ltimes.idle
  let iowait := times.ioWait - ltimes.ioWait
  let aSum := max (user + system + idle + iowait) 1
  { time := some (time : ℚ)
    user := (user : ℚ) / aSum
    sys := (system : ℚ) / aSum
    io := (iowait : ℚ) / aSum
    swap := 0 }

/-- `_parse_proc_stat_log`. -/
def parseProcStatLog (file : Bytes) : Except Exception (List CPUSample) := do
  let blocks ← parseTimedBlocks file
  let frames := (← blocks.mapM statTimes).filterMap id
  return List.zipWith cpuSample frames frames.tail

/-- The match of `meminfo_re`: a name and its value. -/
def meminfoMatch (line : Text) : Option (Text × Text) :=
  MemSample.usedValues.findSome? fun name =>
    (behind (name ++ [':']) line).bind fun rest =>
      (leadingDigits (rest.dropWhile isSpace)).map fun (digits, _) => (name, digits)

/-- One line of a frame. -/
def meminfoLine (sample : MemSample) (line : Text) : Except Exception MemSample :=
  match meminfoMatch line with
  | some (name, digits) => (int digits).map (sample.addValue name)
  | none => .ok sample

/-- `_parse_proc_meminfo_log`. -/
def parseProcMeminfoLog (file : Bytes) : Except Exception (List MemSample) := do
  let blocks ← parseTimedBlocks file
  let samples ← blocks.mapM fun (time, lines) =>
    lines.foldlM meminfoLine { time := time, records := Dict.empty }
  return samples.filter MemSample.valid

end Parsing
end Bootchart
