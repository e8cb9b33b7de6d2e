import Bootchart.Collector.Output
import Bootchart.Collector.PidScanner
import Bootchart.Library.Text
import Bootchart.Library.Utf8

/-!
# Sampling the processes

`collector.c` asks the kernel for the statistics of every process of a sweep,
adds up those of its threads, and writes a line unless nothing changed since the
last line of the process.
-/

namespace Bootchart
namespace Collector

/-- `struct taskstats`, as far as it is used. -/
structure Taskstats where
  /-- The process or thread. -/
  acPid : Pid
  /-- Its parent. -/
  acPpid : Pid
  /-- Its command name, up to the terminating zero. -/
  acComm : Bytes
  /-- Time on the processor. -/
  cpuRunRealTotal : BitVec 64
  /-- Time waiting for block devices. -/
  blkioDelayTotal : BitVec 64
  /-- Time waiting for pages. -/
  swapinDelayTotal : BitVec 64
  deriving DecidableEq

/-- `PidEntry`: the last line of a process. Its field `pid` is never used. -/
structure PidEntry where
  /-- The parent written last. -/
  ppid : Pid
  /-- The sum of the times written last. -/
  timeTotal : BitVec 64
  deriving DecidableEq

/-- The entries of `get_pid_entry`, all zero before they are first written. -/
abbrev PidEntries := Pid → PidEntry

/-- The entries of a fresh collector. -/
def PidEntries.init : PidEntries :=
  fun _ => { ppid := 0, timeTotal := 0 }

/-- `%d` and `%lld`. -/
def decimal (number : Int) : Bytes :=
  Library.Utf8.encode (Library.Text.decimal number)

/-- The line `dump_taskstat` prints, without its end. The buffer of 1024 bytes
holds it, as names have at most 31 bytes. -/
def taskstatText (ts : Taskstats) (ppid : Pid) : Bytes :=
  decimal ts.acPid ++ 32 :: (decimal ppid ++ 32 :: (ts.acComm ++
    32 :: (decimal ts.cpuRunRealTotal.toInt ++
      32 :: (decimal ts.blkioDelayTotal.toInt ++
        32 :: decimal ts.swapinDelayTotal.toInt))))

/-- The line `dump_taskstat` prints. -/
def taskstatLine (ts : Taskstats) (ppid : Pid) : Bytes :=
  taskstatText ts ppid ++ [10]

/-- What the kernel answers to requests for statistics. -/
abbrev Kernel := Pid → Option Taskstats

/-- `get_taskstats`: only an answer for the requested process is taken. -/
def getTaskstats (kernel : Kernel) (pid : Pid) : Option Taskstats :=
  (kernel pid).filter (·.acPid = pid)

/-- Add the times of a thread. -/
def Taskstats.aggregate (tgits ts : Taskstats) : Taskstats :=
  { tgits with
    cpuRunRealTotal := tgits.cpuRunRealTotal + ts.cpuRunRealTotal
    swapinDelayTotal := tgits.swapinDelayTotal + ts.swapinDelayTotal
    blkioDelayTotal := tgits.blkioDelayTotal + ts.blkioDelayTotal }

/-- Add the times of a thread, if the kernel still knows it. -/
def addTask (kernel : Kernel) (tgits : Taskstats) (tpid : Pid) : Taskstats :=
  ((getTaskstats kernel tpid).map tgits.aggregate).getD tgits

/-- The statistics requested for a process: the leader, then the threads. -/
structure Requests where
  /-- The leader. -/
  leader : Pid
  /-- The other threads. -/
  tasks : List Pid
  deriving DecidableEq

section Sampling

variable {σ : Type} (scanner : PidScanner σ) (kernel : Kernel)

/-- The loop of `get_tgid_taskstats` over the threads, for at most `fuel` rounds:
the sums, the threads requested and the scanner left behind. -/
def tasksLoop : Nat → σ → Taskstats → Option (Taskstats × List Pid × σ)
  | 0, _, _ => none
  | fuel + 1, state, tgits =>
      let (tpid, state) := scanner.getTasksNext state
      if tpid = 0 then
        some (tgits, [], state)
      else
        (tasksLoop fuel state (addTask kernel tgits tpid)).map
          fun (tgits, tasks, state) => (tgits, tpid :: tasks, state)

/-- `get_tgid_taskstats`: the statistics, unless the process is gone, what was
requested, and the scanner left behind. -/
def getTgidTaskstats (fuel : Nat) (state : σ) :
    Option (Option Taskstats × Requests × σ) :=
  let leader := scanner.getCurPid state
  match getTaskstats kernel leader with
  | none => some (none, { leader := leader, tasks := [] }, state)
  | some tgits =>
      (tasksLoop scanner kernel fuel (scanner.getTasksStart state) tgits).map
        fun (tgits, tasks, state) =>
          (some tgits, { leader := leader, tasks := tasks },
            scanner.getTasksStop state)

/-- What a sweep has done so far. -/
structure Sampled (σ : Type) where
  /-- The scanner. -/
  state : σ
  /-- The last line of each process. -/
  entries : PidEntries
  /-- The text appended to the log. -/
  log : Bytes
  /-- The statistics requested. -/
  requests : List Requests

/-- The rest of `dump_taskstat`: write a line if there are statistics and they
differ from those written last. -/
def writeTaskstat (sampled : Sampled σ) : Option Taskstats → Sampled σ
  | none => sampled
  | some ts =>
      let entry := sampled.entries ts.acPid
      let timeTotal :=
        ts.cpuRunRealTotal + ts.blkioDelayTotal + ts.swapinDelayTotal
      if entry.timeTotal = timeTotal ∧ entry.ppid = ts.acPpid then
        sampled
      else
        let curPpid := scanner.getCurPpid sampled.state
        let ppid := if curPpid = 0 then ts.acPpid else curPpid
        { sampled with
          entries := Function.update sampled.entries ts.acPid
            { ppid := ts.acPpid, timeTotal := timeTotal }
          log := sampled.log ++ taskstatLine ts ppid }

/-- `dump_taskstat`. -/
def dumpTaskstat (fuel : Nat) (sampled : Sampled σ) : Option (Sampled σ) :=
  (getTgidTaskstats scanner kernel fuel sampled.state).map
    fun (ts, requested, state) =>
      writeTaskstat scanner
        { sampled with
          state := state
          requests := sampled.requests ++ [requested] } ts

/-- The loop of `main` over the processes, for at most `fuel` rounds. -/
def sampleLoop : Nat → Sampled σ → Option (Sampled σ)
  | 0, _ => none
  | fuel + 1, sampled =>
      let (pid, state) := scanner.next sampled.state
      if pid = 0 then
        some { sampled with state := state }
      else
        (dumpTaskstat scanner kernel fuel { sampled with state := state }).bind
          (sampleLoop fuel)

/-- A sweep of `main`: restart the scanner, sample every process. -/
def sweep (fuel : Nat) (state : σ) (entries : PidEntries) :
    Option (Sampled σ) :=
  sampleLoop scanner kernel fuel
    { state := scanner.restart state
      entries := entries
      log := []
      requests := [] }

/-- Writing a line does not touch the scanner. -/
@[simp] theorem state_writeTaskstat
    (sampled : Sampled σ)
    (ts : Option Taskstats) :
    (writeTaskstat scanner sampled ts).state = sampled.state := by
  cases ts with
  | none => rfl
  | some ts =>
      simp only [writeTaskstat]
      split <;> rfl

/-- Writing a line requests nothing. -/
@[simp] theorem requests_writeTaskstat
    (sampled : Sampled σ)
    (ts : Option Taskstats) :
    (writeTaskstat scanner sampled ts).requests = sampled.requests := by
  cases ts with
  | none => rfl
  | some ts =>
      simp only [writeTaskstat]
      split <;> rfl

end Sampling

end Collector
end Bootchart
