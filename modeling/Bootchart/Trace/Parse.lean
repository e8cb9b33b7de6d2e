import Bootchart.Parsing.Cmdline
import Bootchart.Parsing.DiskStats
import Bootchart.Parsing.Dmesg
import Bootchart.Parsing.Headers
import Bootchart.Parsing.ParentMap
import Bootchart.Parsing.ProcPs
import Bootchart.Parsing.SystemStats
import Bootchart.Parsing.Taskstats

/-!
# Parsing the logs of a trace

`parse_paths` parses one log after the other. `_do_parse` recognises a log by its name
and stores what it holds in one field of the trace; only the log of disk statistics is
parsed with something another log has left there.
-/

namespace Bootchart

open Library (Text Dict)
open Parsing

/-- The logs that are recognised. -/
inductive Log
  /-- The header. -/
  | header
  /-- Disk statistics. -/
  | procDiskstats
  /-- Processes, from the kernel's accounting. -/
  | taskstats
  /-- Processor times. -/
  | procStat
  /-- Memory. -/
  | procMeminfo
  /-- The kernel log. -/
  | dmesg
  /-- Command lines. -/
  | cmdline2
  /-- Parents. -/
  | paternity
  /-- Processes, from their files. -/
  | procPs
  /-- Parents, from process accounting. -/
  | kernelPacct
  deriving DecidableEq

namespace Log

/-- The name of a log. -/
def name : Log → Text
  | header => "header".toList
  | procDiskstats => "proc_diskstats.log".toList
  | taskstats => "taskstats.log".toList
  | procStat => "proc_stat.log".toList
  | procMeminfo => "proc_meminfo.log".toList
  | dmesg => "dmesg".toList
  | cmdline2 => "cmdline2.log".toList
  | paternity => "paternity.log".toList
  | procPs => "proc_ps.log".toList
  | kernelPacct => "kernel_pacct".toList

/-- All logs. -/
def all : List Log :=
  [header, procDiskstats, taskstats, procStat, procMeminfo, dmesg, cmdline2, paternity,
    procPs, kernelPacct]

/-- The log with a name. -/
def ofName (text : Text) : Option Log :=
  all.find? fun log => log.name = text

/-- A log is recognised by its name. -/
theorem ofName_eq_some {text : Text} {log : Log} :
    ofName text = some log ↔ log.name = text := by
  constructor
  · intro found
    have named := List.find?_some (show all.find? _ = some log from found)
    exact of_decide_eq_true named
  · rintro rfl
    cases log <;> decide

end Log

/-- The fields of `Trace` that parsing fills in. -/
structure Trace where
  /-- `headers`. -/
  headers : Option Headers
  /-- `disk_stats`. -/
  diskStats : Option (List DiskSample)
  /-- `ps_stats`. -/
  psStats : Option ProcessStats
  /-- Whether `taskstats` is set. -/
  taskstats : Bool
  /-- `cpu_stats`. -/
  cpuStats : Option (List CPUSample)
  /-- `cmdline`. -/
  cmdline : Option (Dict Int Cmdline)
  /-- `kernel`. -/
  kernel : Option (List Process)
  /-- `parent_map`. -/
  parentMap : Option ParentMap
  /-- `mem_stats`. -/
  memStats : Option (List MemSample)

namespace Trace

/-- Before anything is parsed. -/
def empty : Trace where
  headers := none
  diskStats := none
  psStats := none
  taskstats := false
  cpuStats := none
  cmdline := none
  kernel := none
  parentMap := none
  memStats := none

/-- What a log holds. -/
inductive Contents
  /-- The headers. -/
  | headers (headers : Headers)
  /-- The disk samples. -/
  | diskStats (diskStats : List DiskSample)
  /-- The processes, from the kernel's accounting. -/
  | taskstats (psStats : Option ProcessStats)
  /-- The processor samples. -/
  | cpuStats (cpuStats : List CPUSample)
  /-- The memory samples. -/
  | memStats (memStats : List MemSample)
  /-- The processes of the kernel log. -/
  | kernel (kernel : List Process)
  /-- The command lines. -/
  | cmdline (cmdline : Dict Int Cmdline)
  /-- The parents. -/
  | parentMap (parentMap : Option ParentMap)
  /-- The processes, from their files. -/
  | psStats (psStats : Option ProcessStats)

/-- Store what a log holds. -/
def store (state : Trace) : Contents → Trace
  | .headers headers => { state with headers := some headers }
  | .diskStats diskStats => { state with diskStats := some diskStats }
  | .taskstats psStats => { state with psStats := psStats, taskstats := true }
  | .cpuStats cpuStats => { state with cpuStats := some cpuStats }
  | .memStats memStats => { state with memStats := some memStats }
  | .kernel kernel => { state with kernel := some kernel }
  | .cmdline cmdline => { state with cmdline := some cmdline }
  | .parentMap parentMap => { state with parentMap := parentMap }
  | .psStats psStats => { state with psStats := psStats }

/-- Parse a log, with the headers that are there at the time. -/
def parseLog (headers : Option Headers) (file : Bytes) :
    Log → Except Exception Contents
  | .header => (parseHeaders file).map .headers
  | .procDiskstats => do
      let numCpu ← getNumCpus headers
      return .diskStats (← parseProcDiskStatLog file numCpu)
  | .taskstats => (parseTaskstatsLog file).map .taskstats
  | .procStat => (parseProcStatLog file).map .cpuStats
  | .procMeminfo => (parseProcMeminfoLog file).map .memStats
  | .dmesg => .ok (.kernel (parseDmesg file))
  | .cmdline2 => (parseCmdlineLog file).map .cmdline
  | .paternity => (parsePaternityLog file).map fun parentMap => .parentMap (some parentMap)
  | .procPs => (parseProcPsLog file).map .psStats
  | .kernelPacct => (parsePacct file).map .parentMap

/-- A file: its base name and its contents. -/
abbrev File := Text × Bytes

/-- `_do_parse`. Files with other names are ignored. -/
def doParse (state : Trace) (file : File) : Except Exception Trace :=
  match Log.ofName file.1 with
  | some log => (parseLog state.headers file.2 log).map state.store
  | none => .ok state

/-- `parse_paths`, for files in the order in which they are met. -/
def parsePaths (files : List File) : Except Exception Trace :=
  files.foldlM doParse empty

end Trace
end Bootchart
