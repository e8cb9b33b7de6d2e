import Bootchart.Library.Dict
import Bootchart.Library.Text
import Mathlib.Data.Rat.Defs
import Mathlib.Algebra.Order.Field.Rat

/-!
# Processes and their samples

The records of `samples.py`. Floating point numbers are exact rationals.
Processes refer to each other by identifiers, which stand for object identity;
child lists are kept by the tree they belong to.
-/

namespace Bootchart

open Library (Text Dict)

/-- `CPUSample`. The parsers of process logs pass the text `'null'` as a time. -/
structure CPUSample where
  /-- The time, unless it is `'null'`. -/
  time : Option ℚ
  /-- Time in user mode. -/
  user : ℚ
  /-- Time in kernel mode. -/
  sys : ℚ
  /-- Time waiting for devices. -/
  io : ℚ
  /-- Time waiting for pages. -/
  swap : ℚ
  deriving DecidableEq

/-- The property `cpu`. -/
def CPUSample.cpu (sample : CPUSample) : ℚ :=
  sample.user + sample.sys

/-- What is counted of a disk: `[rsect, wsect, use]`. -/
structure DiskData where
  /-- Sectors read. -/
  rsect : Int
  /-- Sectors written. -/
  wsect : Int
  /-- Milliseconds spent on input and output. -/
  use : Int
  deriving DecidableEq

/-- `DiskStatSample`. -/
structure DiskStatSample where
  /-- The time of the frame. -/
  time : Int
  /-- The sums over the disks. -/
  diskdata : DiskData
  deriving DecidableEq

/-- `DiskStatSample.__init__`. -/
def DiskStatSample.new (time : Int) : DiskStatSample where
  time := time
  diskdata := { rsect := 0, wsect := 0, use := 0 }

/-- `DiskStatSample.add_diskdata`. -/
def DiskStatSample.addDiskdata (sample : DiskStatSample) (newDiskdata : DiskData) :
    DiskStatSample :=
  { sample with
    diskdata :=
      { rsect := sample.diskdata.rsect + newDiskdata.rsect
        wsect := sample.diskdata.wsect + newDiskdata.wsect
        use := sample.diskdata.use + newDiskdata.use } }

/-- `DiskSample`. -/
structure DiskSample where
  /-- The time of the frame. -/
  time : Int
  /-- The read throughput. -/
  read : ℚ
  /-- The write throughput. -/
  write : ℚ
  /-- The utilisation. -/
  util : ℚ
  deriving DecidableEq

/-- `MemSample`. -/
structure MemSample where
  /-- The time of the frame. -/
  time : Int
  /-- The values by name. -/
  records : Dict Text Int

/-- `MemSample.used_values`. -/
def MemSample.usedValues : List Text :=
  ["MemTotal".toList, "MemFree".toList, "Buffers".toList, "Cached".toList,
    "SwapTotal".toList, "SwapFree".toList]

/-- `MemSample.add_value`. -/
def MemSample.addValue (sample : MemSample) (name : Text) (value : Int) : MemSample :=
  { sample with records := sample.records.set name value }

/-- `MemSample.valid`: incomplete samples are discarded. -/
def MemSample.valid (sample : MemSample) : Bool :=
  usedValues.all fun name => (sample.records.get? name).isSome

/-- `ProcessSample`. -/
structure ProcessSample where
  /-- The time of the frame. -/
  time : ℚ
  /-- The state of the process. -/
  state : Text
  /-- What the process used since the frame before. -/
  cpuSample : CPUSample
  deriving DecidableEq

/-- A process object: the one of the kernel log at an index, or the one of the
process map under a key. -/
inductive ProcessId
  /-- A process of the kernel log. -/
  | kernel (index : Nat)
  /-- A process of the process map. -/
  | mapped (key : Int)
  deriving DecidableEq

/-- `Process`. -/
structure Process where
  /-- The pid, made unique in fixed point. -/
  pid : ℚ
  /-- The command name. -/
  cmd : Text
  /-- The executable. -/
  exe : Text
  /-- The arguments. -/
  args : List Text
  /-- The pid of the parent. -/
  ppid : ℚ
  /-- The time it was first seen. -/
  startTime : ℚ
  /-- How long it was seen. -/
  duration : ℚ
  /-- Its samples. -/
  samples : List ProcessSample
  /-- Its parent. -/
  parent : Option ProcessId
  /-- Whether it was active, once that is known. -/
  active : Option Bool
  /-- The time in user mode logged last. -/
  lastUserCpuTime : Option Int
  /-- The time in kernel mode logged last. -/
  lastSysCpuTime : Option Int
  /-- The time on the processor logged last. -/
  lastCpuNs : Int
  /-- The time waiting for devices logged last. -/
  lastBlkioDelayNs : Int
  /-- The time waiting for pages logged last. -/
  lastSwapinDelayNs : Int
  deriving DecidableEq

namespace Process

/-- `Process.__init__`. -/
def new (pid : ℚ) (cmd : Text) (ppid startTime : ℚ) : Process where
  pid := pid
  cmd := cmd
  exe := cmd
  args := []
  ppid := ppid
  startTime := startTime
  duration := 0
  samples := []
  parent := none
  active := none
  lastUserCpuTime := none
  lastSysCpuTime := none
  lastCpuNs := 0
  lastBlkioDelayNs := 0
  lastSwapinDelayNs := 0

/-- `Process.split`: the run of a process after a change of its name. -/
def split (process : Process) (pid : ℚ) (cmd : Text) (ppid startTime : ℚ) :
    Process :=
  { new pid cmd ppid startTime with
    lastCpuNs := process.lastCpuNs
    lastBlkioDelayNs := process.lastBlkioDelayNs
    lastSwapinDelayNs := process.lastSwapinDelayNs }

/-- `Process.calc_stats`. -/
def calcStats (process : Process) (samplePeriod : ℚ) : Process :=
  let process :=
    match process.samples.head?, process.samples.getLast? with
    | some firstSample, some lastSample =>
        let startTime := min firstSample.time process.startTime
        { process with
          startTime := startTime
          duration := lastSample.time - startTime + samplePeriod }
    | _, _ => process
  let activeCount :=
    process.samples.countP (fun sample =>
      sample.cpuSample.sys + sample.cpuSample.user + sample.cpuSample.io > 0) +
    process.samples.countP (fun sample => sample.state = ['D'])
  { process with active := some (activeCount > 2) }

/-- `Process.calc_load`. -/
def calcLoad
    (lastUserCpuTime lastSysCpuTime userCpu sysCpu : Int)
    (interval : ℚ) : ℚ × ℚ :=
  let userCpuLoad := ((userCpu - lastUserCpuTime : Int) : ℚ) / interval
  let sysCpuLoad := ((sysCpu - lastSysCpuTime : Int) : ℚ) / interval
  let cpuLoad := userCpuLoad + sysCpuLoad
  if cpuLoad > 1 then (userCpuLoad / cpuLoad, sysCpuLoad / cpuLoad)
  else (userCpuLoad, sysCpuLoad)

/-- `Process.get_end_time`. -/
def getEndTime (process : Process) : ℚ :=
  process.startTime + process.duration

end Process

/-- `ProcessStats`. -/
structure ProcessStats where
  /-- The processes. -/
  processMap : Dict Int Process
  /-- The number of frames. -/
  sampleCount : Nat
  /-- The average time between frames. -/
  samplePeriod : ℚ
  /-- The time of the first frame. -/
  startTime : ℚ
  /-- The time of the last frame. -/
  endTime : ℚ

end Bootchart
