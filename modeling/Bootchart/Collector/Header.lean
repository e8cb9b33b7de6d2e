import Bootchart.Collector.Cmdline
import Bootchart.Collector.Taskstat
import Bootchart.Library.CStrings

/-!
# The header

`dump_header` tells what machine was started: lines of names and values, from the names of the
host, `uname`, `lsb_release`, `/proc/cpuinfo` and `/proc/cmdline`.
-/

namespace Bootchart
namespace Collector

open Library (Text pieces findPart cutAtLast)
open Library.Utf8 (encode)

/-- `isgraph`. -/
def isGraph (byte : UInt8) : Bool :=
  33 ≤ byte && byte ≤ 126

/-- `isblank`. -/
def isBlank (byte : UInt8) : Bool :=
  byte = 32 || byte = 9

/-- `rewrite_ascii`. -/
def rewriteAscii (string : Bytes) : Bytes :=
  string.map fun byte => if !isGraph byte && !isBlank byte then 46 else byte

/-- What `dump_header` asks for. -/
structure Machine where
  /-- `VERSION`. -/
  version : Bytes
  /-- The names of the host and of its domain, if both calls succeed. -/
  names : Option (Bytes × Bytes)
  /-- `ctime_r`. -/
  time : Bytes
  /-- The system, its release and version, and the machine, if `uname` succeeds. -/
  uname : Option (Bytes × Bytes × Bytes × Bytes)
  /-- What `lsb_release` prints, if it can be started. -/
  lsb : Option Bytes
  /-- `/proc/cpuinfo`, if it can be read. -/
  cpuinfo : Option Bytes
  /-- `/proc/cmdline`, if it can be read. -/
  cmdline : Option Bytes
  /-- The pid of the process that is forked. -/
  maxpid : Int

/-- `fgets`: the first piece of a file. -/
def fgets (size : Nat) (file : Bytes) : Option Bytes :=
  (pieces 10 size [] file).head?.map cString

/-- A line of the header. -/
def headerText (name : Text) (value : Bytes) : Bytes :=
  encode name ++ encode " = ".toList ++ value

/-- `host_buf`. -/
def hostBuf : Option (Bytes × Bytes) → Bytes
  | some (host, domain) =>
      rewriteAscii (host ++ if domain = [] then [] else 46 :: domain)
  | none => rewriteAscii (encode "unknown".toList)

/-- The quotes around a release are taken off. `memmove` leaves the last byte where it is, so that
it is there twice. -/
def unquote (release : Bytes) : Bytes :=
  let moved :=
    match release with
    | 34 :: rest => rest ++ release.getLast?.toList
    | _ => release
  cutAtLast 34 moved

/-- `release`. -/
def releaseOf (lsb : Option Bytes) : Bytes :=
  match lsb.bind (fgets 4096) with
  | some release => unquote release
  | none => []

/-- What has been found in `/proc/cpuinfo`. -/
structure CpuInfo where
  /-- `cpu_model`. -/
  cpuModel : Bytes
  /-- `cpu_model_alt`. -/
  cpuModelAlt : Bytes
  /-- `cpus`. -/
  cpus : Nat

/-- `strstr (line, ": ") + 2`, which must be there. -/
def behindColon (line : Bytes) : Option Bytes :=
  (findPart [58, 32] line).map (·.drop 2)

/-- `strncmp (line, "model name", 10)` is zero. -/
def isModelName (line : Bytes) : Bool :=
  (encode "model name".toList).isPrefixOf line

/-- `tolower`. -/
def toLower (byte : UInt8) : UInt8 :=
  if 65 ≤ byte && byte ≤ 90 then byte + 32 else byte

/-- `strncasecmp (line, "processor", 9)` is zero. -/
def isProcessor (line : Bytes) : Bool :=
  (encode "processor".toList).isPrefixOf (line.map toLower)

/-- The line of a model; nothing if there is no space behind its colon, as the program then reads
from an address that is none. -/
def tellModel (info : CpuInfo) (line : Bytes) : Option CpuInfo :=
  if isModelName line ∧ 58 ∈ line then
    (behindColon line).map fun model => { info with cpuModel := model }
  else some info

/-- The line of a processor; here the colon may be missing as well. -/
def tellProcessor (info : CpuInfo) (line : Bytes) : Option CpuInfo :=
  if isProcessor line then
    (behindColon line).map fun model =>
      { info with cpuModelAlt := model, cpus := info.cpus + 1 }
  else some info

/-- A turn of the loop over the lines. -/
def cpuinfoLine (info : CpuInfo) (line : Bytes) : Option CpuInfo := do
  tellProcessor (← tellModel info line) line

/-- The loop over the lines. -/
def readCpuinfo (cpuinfo : Option Bytes) : Option CpuInfo :=
  ((cpuinfo.toList.flatMap (pieces 10 4096 [])).map cString).foldlM cpuinfoLine
    { cpuModel := [], cpuModelAlt := [], cpus := 0 }

/-- The model that is told. -/
def CpuInfo.model (info : CpuInfo) : Bytes :=
  cutAtLast 10 (if info.cpuModel = [] then info.cpuModelAlt else info.cpuModel)

/-- `dump_header`: what it writes to the header. -/
def dumpHeader (machine : Machine) : Option Bytes := do
  let info ← readCpuinfo machine.cpuinfo
  let uname :=
    match machine.uname with
    | some (sysname, release, version, machine) =>
        headerText "system.uname".toList
          (sysname ++ 32 :: release ++ 32 :: version ++ 32 :: machine ++ [10])
    | none => []
  -- A command line of which nothing can be read fails the assertion.
  let options ←
    match machine.cmdline with
    | some cmdline => (fgets 4096 cmdline).map (headerText "system.kernel.options".toList)
    | none => some []
  return headerText "version".toList (machine.version ++ [10]) ++
    headerText "title".toList (encode "Boot chart for ".toList ++ hostBuf machine.names ++
      encode " (".toList ++ cutAtLast 10 machine.time ++ encode ")\n".toList) ++
    uname ++
    headerText "system.release".toList (releaseOf machine.lsb ++ [10]) ++
    headerText "system.cpu".toList (info.model ++ 32 :: decimal info.cpus ++ [10]) ++
    headerText "system.cpu.num".toList (decimal info.cpus ++ [10]) ++
    options ++
    headerText "system.maxpid".toList (decimal machine.maxpid ++ [10])

end Collector
end Bootchart
