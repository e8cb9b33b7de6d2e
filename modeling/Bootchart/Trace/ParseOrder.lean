import Bootchart.Library.Run
import Bootchart.Trace.Parse

/-!
# The order of the files

Logs that fill in different series can be parsed in any order, but for the header and
the log of disk statistics: if the header comes first, the utilisation is divided by
the number of processors it gives.
-/

namespace Bootchart
namespace Trace

open Library (Text Dict run)
open Parsing

/-- The series of a trace. -/
inductive Series
  /-- `headers`. -/
  | headers
  /-- `disk_stats`. -/
  | diskStats
  /-- `ps_stats`. -/
  | psStats
  /-- `cpu_stats`. -/
  | cpuStats
  /-- `mem_stats`. -/
  | memStats
  /-- `cmdline`. -/
  | cmdline
  /-- `parent_map`. -/
  | parentMap
  /-- `kernel`. -/
  | kernel
  deriving DecidableEq

/-- The series some contents belong to. -/
def Contents.series : Contents → Series
  | headers _ => .headers
  | diskStats _ => .diskStats
  | taskstats _ => .psStats
  | cpuStats _ => .cpuStats
  | memStats _ => .memStats
  | kernel _ => .kernel
  | cmdline _ => .cmdline
  | parentMap _ => .parentMap
  | psStats _ => .psStats

/-- The series a log fills in. -/
def logSeries : Log → Series
  | .header => .headers
  | .procDiskstats => .diskStats
  | .taskstats => .psStats
  | .procStat => .cpuStats
  | .procMeminfo => .memStats
  | .dmesg => .kernel
  | .cmdline2 => .cmdline
  | .paternity => .parentMap
  | .procPs => .psStats
  | .kernelPacct => .parentMap

/-- The names of some files. -/
def names (files : List File) : List Text :=
  files.map Prod.fst

/-- Files with distinct names, among them one log of processes at most and one log of
parents at most. -/
structure OneTrace (files : List File) : Prop where
  /-- The names are distinct. -/
  distinct : (names files).Nodup
  /-- There is one log of processes at most. -/
  oneProcessLog : ¬(Log.taskstats.name ∈ names files ∧ Log.procPs.name ∈ names files)
  /-- There is one log of parents at most. -/
  oneParentLog : ¬(Log.paternity.name ∈ names files ∧ Log.kernelPacct.name ∈ names files)

/-- The series are the same in whatever order the files are parsed; there are none if
an exception is raised. -/
def OrderIndependent (files : List File) : Prop :=
  ∀ other : List File, other.Perm files →
    (parsePaths other).toOption = (parsePaths files).toOption

/-- A file can be parsed by itself. -/
def Parses (file : File) : Prop :=
  ∀ log, Log.ofName file.1 = some log → ∃ contents,
    parseLog none file.2 log = .ok contents

/-- If all files can be parsed and a header and disk statistics are among them, the
header gives a number of processors that makes no difference. -/
def HeaderIrrelevant (files : List File) : Prop :=
  (∀ file ∈ files, Parses file) →
    ∀ header diskstats, (Log.header.name, header) ∈ files →
      (Log.procDiskstats.name, diskstats) ∈ files →
        ∀ headers samples, parseHeaders header = .ok headers →
          diskStatSamples diskstats = .ok samples →
            ∃ numCpu, getNumCpus (some headers) = .ok numCpu ∧
              CpusIrrelevant numCpu samples

/-! ## One file -/

section File

variable {state next : Trace} {headers : Option Headers} {file : Bytes} {log : Log}

/-- Contents of different series are stored in either order. -/
theorem store_comm
    {first second : Contents}
    (different : first.series ≠ second.series)
    (state : Trace) :
    (state.store first).store second = (state.store second).store first := by
  cases first <;> cases second <;> first
    | rfl
    | exact absurd rfl different

/-- A log holds contents of its series. -/
theorem series_eq_of_parseLog
    {contents : Contents}
    (parsed : parseLog headers file log = .ok contents) :
    contents.series = logSeries log := by
  cases log with
  | procDiskstats =>
      obtain ⟨numCpu, -, isDisk⟩ := Library.bind_eq_ok.mp parsed
      obtain ⟨samples, -, isContents⟩ := Library.bind_eq_ok.mp isDisk
      rw [← Except.ok.inj isContents]
      rfl
  | dmesg =>
      rw [← Except.ok.inj parsed]
      rfl
  | _ =>
      obtain ⟨value, -, rfl⟩ := Library.map_eq_ok.mp parsed
      rfl

/-- Only disk statistics are parsed with the headers. -/
theorem parseLog_eq (notDisk : log ≠ .procDiskstats) (headers : Option Headers) :
    parseLog headers file log = parseLog none file log := by
  cases log with
  | procDiskstats => exact absurd rfl notDisk
  | _ => rfl

/-- Disk statistics are parsed for the number of processors. -/
theorem parseLog_procDiskstats
    {numCpu : Int}
    (known : getNumCpus headers = .ok numCpu) :
    parseLog headers file .procDiskstats = (diskStatSamples file).map fun samples =>
      .diskStats (Parsing.diskStats numCpu samples) := by
  rw [parseLog, known]
  simp only [parseProcDiskStatLog]
  cases diskStatSamples file <;> rfl

/-- Without headers they are parsed for one processor. -/
theorem parseLog_none_procDiskstats (file : Bytes) :
    parseLog none file .procDiskstats = (diskStatSamples file).map fun samples =>
      .diskStats (Parsing.diskStats 1 samples) :=
  parseLog_procDiskstats rfl

/-- What cannot be parsed without headers cannot be parsed with any. -/
theorem parses_of_parseLog
    {contents : Contents}
    (parsed : parseLog headers file log = .ok contents) :
    ∃ contents, parseLog none file log = .ok contents := by
  by_cases isDisk : log = .procDiskstats
  · subst isDisk
    obtain ⟨numCpu, known, -⟩ := Library.bind_eq_ok.mp parsed
    rw [parseLog_procDiskstats known] at parsed
    obtain ⟨samples, areSamples, -⟩ := Library.map_eq_ok.mp parsed
    rw [parseLog_none_procDiskstats, areSamples]
    exact ⟨_, rfl⟩
  · rw [parseLog_eq isDisk] at parsed
    exact ⟨contents, parsed⟩

end File

/-! ## All files -/

/-- Parse a file, with some headers. -/
def parseStep (headers : Option Headers) (state : Trace) (file : File) : Option Trace :=
  match Log.ofName file.1 with
  | some log => ((parseLog headers file.2 log).map state.store).toOption
  | none => some state

section Files

variable {files other : List File} {state next : Trace} {headers : Option Headers}

/-- Parsing files is a run of the steps with the headers that are there. -/
theorem toOption_parsePaths (files : List File) :
    (parsePaths files).toOption =
      run (fun state file => parseStep state.headers state file) empty files := by
  have fromState : ∀ state : Trace, (files.foldlM doParse state).toOption =
      run (fun state file => parseStep state.headers state file) state files := by
    induction files with
    | nil => exact fun _ => rfl
    | cons file files inductionHypothesis =>
        intro state
        have step : (doParse state file).toOption =
            parseStep state.headers state file := by
          unfold doParse parseStep
          cases Log.ofName file.1 <;> rfl
        rw [List.foldlM_cons, Library.run_cons, ← step]
        cases doParse state file with
        | error exception => rfl
        | ok next => exact inductionHypothesis next
  exact fromState empty

/-- A step for a log of a known name. -/
theorem parseStep_eq_some
    {file : File}
    {log : Log}
    (isLog : Log.ofName file.1 = some log) :
    parseStep headers state file = some next ↔
      ∃ contents, parseLog headers file.2 log = .ok contents ∧
        state.store contents = next := by
  have step : parseStep headers state file =
      ((parseLog headers file.2 log).map state.store).toOption := by
    rw [parseStep, isLog]
  rw [step]
  cases parseLog headers file.2 log with
  | error exception => simp [Except.map, Except.toOption]
  | ok contents => simp [Except.map, Except.toOption]

/-- Different files of one trace fill in different series. -/
theorem OneTrace.logSeries_ne
    (oneTrace : OneTrace files)
    {first second : File}
    (isFirst : first ∈ files)
    (isSecond : second ∈ files)
    (different : first ≠ second)
    {log other : Log}
    (isLog : Log.ofName first.1 = some log)
    (isOther : Log.ofName second.1 = some other) :
    logSeries log ≠ logSeries other := by
  have isNamed := Log.ofName_eq_some.mp isLog
  have otherNamed := Log.ofName_eq_some.mp isOther
  have firstName : log.name ∈ names files := isNamed ▸ List.mem_map_of_mem isFirst
  have secondName : other.name ∈ names files := otherNamed ▸ List.mem_map_of_mem isSecond
  have unequal : log ≠ other := by
    rintro rfl
    exact different (List.inj_on_of_nodup_map oneTrace.distinct isFirst isSecond
      (isNamed.symm.trans otherNamed))
  intro same
  have conflict : (log = .taskstats ∧ other = .procPs) ∨
      (log = .procPs ∧ other = .taskstats) ∨
      (log = .paternity ∧ other = .kernelPacct) ∨
      (log = .kernelPacct ∧ other = .paternity) := by
    revert unequal same
    cases log <;> cases other <;> decide
  rcases conflict with ⟨rfl, rfl⟩ | ⟨rfl, rfl⟩ | ⟨rfl, rfl⟩ | ⟨rfl, rfl⟩
  · exact oneTrace.oneProcessLog ⟨firstName, secondName⟩
  · exact oneTrace.oneProcessLog ⟨secondName, firstName⟩
  · exact oneTrace.oneParentLog ⟨firstName, secondName⟩
  · exact oneTrace.oneParentLog ⟨secondName, firstName⟩

/-- With fixed headers, files of one trace can be parsed in any order. -/
theorem run_parseStep_perm
    (oneTrace : OneTrace files)
    (perm : other.Perm files)
    (headers : Option Headers)
    (state : Trace) :
    run (parseStep headers) state other = run (parseStep headers) state files := by
  refine (Library.run_perm ?_ perm.symm state).symm
  intro first isFirst second isSecond different state
  ext result
  simp only [Option.bind_eq_some_iff]
  cases isLog : Log.ofName first.1 with
  | none => simp [parseStep, isLog]
  | some log =>
      cases isOther : Log.ofName second.1 with
      | none => simp [parseStep, isOther]
      | some other =>
          have series := oneTrace.logSeries_ne isFirst isSecond different isLog isOther
          simp only [parseStep_eq_some isLog, parseStep_eq_some isOther]
          constructor
          · rintro ⟨_, ⟨contents, parsed, rfl⟩, more, parsedMore, rfl⟩
            refine ⟨_, ⟨more, parsedMore, rfl⟩, contents, parsed, store_comm ?_ state⟩
            rw [series_eq_of_parseLog parsed, series_eq_of_parseLog parsedMore]
            exact series.symm
          · rintro ⟨_, ⟨more, parsedMore, rfl⟩, contents, parsed, rfl⟩
            refine ⟨_, ⟨contents, parsed, rfl⟩, more, parsedMore, store_comm ?_ state⟩
            rw [series_eq_of_parseLog parsed, series_eq_of_parseLog parsedMore]
            exact series

/-- A file that cannot be parsed by itself cannot be parsed at all. -/
theorem parseStep_eq_none
    {file : File}
    (unreadable : ¬Parses file)
    (headers : Option Headers)
    (state : Trace) :
    parseStep headers state file = none := by
  rw [Option.eq_none_iff_forall_ne_some]
  intro next stepped
  apply unreadable
  intro log isLog
  obtain ⟨contents, parsed, -⟩ := (parseStep_eq_some isLog).mp stepped
  exact parses_of_parseLog parsed

/-- Contents of another series leave the headers as they are. -/
theorem headers_store
    {contents : Contents}
    (notHeaders : contents.series ≠ .headers)
    (state : Trace) :
    (state.store contents).headers = state.headers := by
  cases contents with
  | headers => exact absurd rfl notHeaders
  | _ => rfl

/-- Contents of another series leave the disk samples as they are. -/
theorem diskStats_store
    {contents : Contents}
    (notDisk : contents.series ≠ .diskStats)
    (state : Trace) :
    (state.store contents).diskStats = state.diskStats := by
  cases contents with
  | diskStats => exact absurd rfl notDisk
  | _ => rfl

/-- The headers of a trace come from a file, if they are there. -/
def HeadersFrom (files : List File) (state : Trace) : Prop :=
  ∀ headers, state.headers = some headers → ∃ header,
    (Log.header.name, header) ∈ files ∧ parseHeaders header = .ok headers

/-- Parsing one of the files keeps this. -/
theorem headersFrom_parseStep
    {file : File}
    (member : file ∈ files)
    (fromFile : HeadersFrom files state)
    (stepped : parseStep headers state file = some next) :
    HeadersFrom files next := by
  cases isLog : Log.ofName file.1 with
  | none =>
      rw [parseStep, isLog] at stepped
      exact Option.some.inj stepped ▸ fromFile
  | some log =>
      obtain ⟨contents, parsed, rfl⟩ := (parseStep_eq_some isLog).mp stepped
      by_cases isHeader : log = .header
      · subst isHeader
        obtain ⟨value, areHeaders, rfl⟩ := Library.map_eq_ok.mp parsed
        rintro _ ⟨⟩
        exact ⟨file.2, Log.ofName_eq_some.mp isLog ▸ member, areHeaders⟩
      · have notHeaders : contents.series ≠ .headers := by
          rw [series_eq_of_parseLog parsed]
          cases log with
          | header => exact absurd rfl isHeader
          | _ => exact nofun
        rw [HeadersFrom, headers_store notHeaders]
        exact fromFile

/-- If the header makes no difference, a file is parsed as without headers. -/
theorem parseStep_eq
    (irrelevant : HeaderIrrelevant files)
    (readable : ∀ file ∈ files, Parses file)
    {file : File}
    (member : file ∈ files)
    (fromFile : HeadersFrom files state) :
    parseStep state.headers state file = parseStep none state file := by
  cases isLog : Log.ofName file.1 with
  | none => simp [parseStep, isLog]
  | some log =>
      have same : parseLog state.headers file.2 log = parseLog none file.2 log := by
        by_cases isDisk : log = .procDiskstats
        · subst isDisk
          cases areHeaders : state.headers with
          | none => rfl
          | some headers =>
              obtain ⟨contents, parsed⟩ := readable file member _ isLog
              rw [parseLog_none_procDiskstats] at parsed
              obtain ⟨samples, areSamples, -⟩ := Library.map_eq_ok.mp parsed
              obtain ⟨header, isHeader, fromHeader⟩ := fromFile headers areHeaders
              obtain ⟨numCpu, known, noDifference⟩ := irrelevant readable header file.2
                isHeader (Log.ofName_eq_some.mp isLog ▸ member) headers samples fromHeader
                areSamples
              have sameStats := (diskStats_eq_iff (one_le_numCpu known) samples).mpr
                noDifference
              rw [parseLog_procDiskstats known, parseLog_none_procDiskstats, areSamples]
              simp only [Except.map, sameStats]
        · exact parseLog_eq isDisk _
      simp only [parseStep, isLog, same]

/-- If the header makes no difference, files are parsed as without headers. -/
theorem parsePaths_eq_run
    (irrelevant : HeaderIrrelevant files)
    (perm : other.Perm files) :
    (parsePaths other).toOption = run (parseStep none) empty other := by
  rw [toOption_parsePaths]
  by_cases readable : ∀ file ∈ files, Parses file
  · refine Library.run_congr (HeadersFrom files) ?_ ?_ nofun
    · intro file member state fromFile
      exact parseStep_eq irrelevant readable (perm.mem_iff.mp member) fromFile
    · intro file member state next fromFile stepped
      exact headersFrom_parseStep (perm.mem_iff.mp member) fromFile stepped
  · push Not at readable
    obtain ⟨file, member, unreadable⟩ := readable
    have isOther := perm.mem_iff.mpr member
    rw [Library.run_eq_none isOther fun state => parseStep_eq_none unreadable _ state,
      Library.run_eq_none isOther (parseStep_eq_none unreadable none)]

/-- Files that can be parsed, without disk statistics among them, leave the disk samples
as they are. -/
theorem exists_run_of_parses
    (readable : ∀ file ∈ files, Parses file)
    (noDisk : Log.procDiskstats.name ∉ names files)
    (state : Trace) :
    ∃ next, run (fun state file => parseStep state.headers state file) state files =
      some next ∧ next.diskStats = state.diskStats := by
  induction files generalizing state with
  | nil => exact ⟨state, rfl, rfl⟩
  | cons file files inductionHypothesis =>
      obtain ⟨parses, readable⟩ := List.forall_mem_cons.mp readable
      rw [names, List.map_cons, List.mem_cons, not_or] at noDisk
      have step : ∃ middle, parseStep state.headers state file = some middle ∧
          middle.diskStats = state.diskStats := by
        cases isLog : Log.ofName file.1 with
        | none => exact ⟨state, by rw [parseStep, isLog], rfl⟩
        | some log =>
            have notDisk : log ≠ .procDiskstats := by
              rintro rfl
              exact noDisk.1 (Log.ofName_eq_some.mp isLog)
            obtain ⟨contents, parsed⟩ := parses log isLog
            have parsedHere := (parseLog_eq notDisk state.headers).trans parsed
            refine ⟨state.store contents,
              (parseStep_eq_some isLog).mpr ⟨contents, parsedHere, rfl⟩,
              diskStats_store ?_ state⟩
            rw [series_eq_of_parseLog parsed]
            cases log with
            | procDiskstats => exact absurd rfl notDisk
            | _ => exact nofun
      obtain ⟨middle, stepped, unchanged⟩ := step
      obtain ⟨next, ran, same⟩ := inductionHypothesis readable noDisk.2 middle
      exact ⟨next, by rw [Library.run_cons, stepped]; exact ran, same.trans unchanged⟩

end Files

/-! ## Any order -/

/-- Files of one trace can be ordered with the header and the disk statistics first;
there are no other disk statistics. -/
theorem OneTrace.exists_perm_header
    {files : List File}
    (oneTrace : OneTrace files)
    {header diskstats : Bytes}
    (isHeader : (Log.header.name, header) ∈ files)
    (isDisk : (Log.procDiskstats.name, diskstats) ∈ files) :
    ∃ rest, files.Perm
        ((Log.header.name, header) :: (Log.procDiskstats.name, diskstats) :: rest) ∧
      Log.procDiskstats.name ∉ names rest := by
  have namesDiffer : Log.procDiskstats.name ≠ Log.header.name := by decide
  have different : (Log.procDiskstats.name, diskstats) ≠ (Log.header.name, header) :=
    fun same => namesDiffer (congrArg Prod.fst same)
  have diskBehind := List.perm_cons_erase ((List.mem_erase_of_ne different).mpr isDisk)
  have perm := (List.perm_cons_erase isHeader).trans (diskBehind.cons _)
  have distinct := (perm.map Prod.fst).nodup_iff.mp oneTrace.distinct
  exact ⟨_, perm, (List.nodup_cons.mp (List.nodup_cons.mp distinct).2).1⟩

/-- If the series do not depend on the order, the header makes no difference: the disk
statistics are the same behind the header as before it. -/
theorem headerIrrelevant_of_orderIndependent
    {files : List File}
    (oneTrace : OneTrace files)
    (independent : OrderIndependent files) :
    HeaderIrrelevant files := by
  intro readable header diskstats isHeader isDisk headers samples areHeaders areSamples
  obtain ⟨rest, headerFirst, noDisk⟩ := oneTrace.exists_perm_header isHeader isDisk
  have restReadable : ∀ file ∈ rest, Parses file := fun file member =>
    readable file (headerFirst.mem_iff.mpr (by simp [member]))
  have headerStep : ∀ state : Trace, parseStep state.headers state
      (Log.header.name, header) = some (state.store (.headers headers)) := fun state =>
    (parseStep_eq_some rfl).mpr ⟨_, by rw [parseLog, areHeaders]; rfl, rfl⟩
  have diskStep : ∀ (state : Trace) numCpu, getNumCpus state.headers = .ok numCpu →
      parseStep state.headers state (Log.procDiskstats.name, diskstats) =
        some (state.store (.diskStats (Parsing.diskStats numCpu samples))) :=
    fun state numCpu known => (parseStep_eq_some rfl).mpr
      ⟨_, by rw [parseLog_procDiskstats known, areSamples]; rfl, rfl⟩
  have sameSeries := (independent _ headerFirst.symm).trans
    (independent _ ((List.Perm.swap _ _ rest).trans headerFirst.symm)).symm
  simp only [toOption_parsePaths, Library.run_cons, headerStep, diskStep empty 1 rfl,
    Option.bind_some] at sameSeries
  obtain ⟨last, ranLast, lastStats⟩ := exists_run_of_parses restReadable noDisk
    ((empty.store (.diskStats (Parsing.diskStats 1 samples))).store (.headers headers))
  obtain ⟨middle, stepped, ranFirst⟩ :=
    Option.bind_eq_some_iff.mp (sameSeries.trans ranLast)
  obtain ⟨contents, parsed, -⟩ := (parseStep_eq_some rfl).mp stepped
  obtain ⟨numCpu, known, -⟩ := Library.bind_eq_ok.mp parsed
  rw [diskStep _ numCpu known] at stepped
  obtain rfl := Option.some.inj stepped
  obtain ⟨first, ranAgain, firstStats⟩ := exists_run_of_parses restReadable noDisk
    ((empty.store (.headers headers)).store
      (.diskStats (Parsing.diskStats numCpu samples)))
  obtain rfl := Option.some.inj (ranAgain.symm.trans ranFirst)
  have sameStats := Option.some.inj (firstStats.symm.trans lastStats)
  exact ⟨numCpu, known, (diskStats_eq_iff (one_le_numCpu known) samples).mp sameStats⟩

/-- The series of a trace do not depend on the order of its files if and only if the
header makes no difference for the disk statistics. -/
theorem orderIndependent_iff
    {files : List File}
    (oneTrace : OneTrace files) :
    OrderIndependent files ↔ HeaderIrrelevant files := by
  constructor
  · exact headerIrrelevant_of_orderIndependent oneTrace
  · intro irrelevant other perm
    rw [parsePaths_eq_run irrelevant perm, parsePaths_eq_run irrelevant (List.Perm.refl _)]
    exact run_parseStep_perm oneTrace perm none empty

/-- A header that gives two processors. -/
def twoCpus : Bytes :=
  Library.Utf8.encode "system.cpu.num = 2\n".toList

/-- Two frames of one disk, a tenth of a second apart. -/
def oneDisk (use : Text) : Bytes :=
  Library.Utf8.encode ("0\n8 0 sda 0 0 0 0 0 0 0 0 0 0 0\n\n".toList ++
    "10\n8 0 sda 0 0 0 0 0 0 0 0 0 ".toList ++ use ++ " 0\n\n".toList)

/-- A trace of these two files. -/
def twoFiles (use : Text) : List File :=
  [(Log.header.name, twoCpus), (Log.procDiskstats.name, oneDisk use)]

/-- They are files of one trace. -/
theorem oneTrace_twoFiles (use : Text) : OneTrace (twoFiles use) where
  distinct := show [Log.header.name, Log.procDiskstats.name].Nodup by decide
  oneProcessLog := show ¬(_ ∈ [Log.header.name, Log.procDiskstats.name] ∧
    _ ∈ [Log.header.name, Log.procDiskstats.name]) by decide
  oneParentLog := show ¬(_ ∈ [Log.header.name, Log.procDiskstats.name] ∧
    _ ∈ [Log.header.name, Log.procDiskstats.name]) by decide

/-- The header gives two processors. -/
theorem getNumCpus_twoCpus :
    (parseHeaders twoCpus).bind (fun headers => getNumCpus (some headers)) = .ok 2 := by
  rw [twoCpus, parseHeaders, decodeUtf8, Library.Utf8.decode_encode]
  decide +kernel

/-- The samples of a disk that was not in use. -/
theorem diskStatSamples_idle :
    diskStatSamples (oneDisk "0".toList) = .ok [.new 0, .new 10] := by
  rw [oneDisk, diskStatSamples, parseTimedBlocks, decodeUtf8, Library.Utf8.decode_encode]
  decide +kernel

/-- The samples of a disk that was in use all the time. -/
theorem diskStatSamples_busy :
    diskStatSamples (oneDisk "100".toList) = .ok
      [.new 0, { time := 10, diskdata := { rsect := 0, wsect := 0, use := 100 } }] := by
  rw [oneDisk, diskStatSamples, parseTimedBlocks, decodeUtf8, Library.Utf8.decode_encode]
  decide +kernel

/-- If the disk was not in use, the files can be parsed in any order. -/
theorem orderIndependent_idle : OrderIndependent (twoFiles "0".toList) := by
  apply (orderIndependent_iff (oneTrace_twoFiles _)).mpr
  intro _ header diskstats isHeader isDisk headers samples areHeaders areSamples
  have namesDiffer : Log.header.name ≠ Log.procDiskstats.name := by decide
  have isTwoCpus : header = twoCpus := by
    rcases List.mem_pair.mp isHeader with same | same
    · exact (Prod.mk.inj same).2
    · exact absurd (Prod.mk.inj same).1 namesDiffer
  have isIdle : diskstats = oneDisk "0".toList := by
    rcases List.mem_pair.mp isDisk with same | same
    · exact absurd (Prod.mk.inj same).1 namesDiffer.symm
    · exact (Prod.mk.inj same).2
  rw [isIdle, diskStatSamples_idle] at areSamples
  obtain ⟨found, areFound, known⟩ := Library.bind_eq_ok.mp getNumCpus_twoCpus
  rw [isTwoCpus, areFound] at areHeaders
  rw [← Except.ok.inj areHeaders, ← Except.ok.inj areSamples]
  exact ⟨2, known, by simp [CpusIrrelevant, diskUse, DiskStatSample.new]⟩

/-- If it was in use all the time, the order makes a difference: its utilisation is one
half if the header comes first, and one otherwise. -/
theorem not_orderIndependent_busy :
    OneTrace (twoFiles "100".toList) ∧ ¬OrderIndependent (twoFiles "100".toList) := by
  refine ⟨oneTrace_twoFiles _, fun independent => ?_⟩
  obtain ⟨headers, areHeaders, known⟩ := Library.bind_eq_ok.mp getNumCpus_twoCpus
  have readable : ∀ file ∈ twoFiles "100".toList, Parses file := by
    simp only [twoFiles, List.forall_mem_cons]
    refine ⟨?_, ?_, by simp⟩
    · intro log isLog
      obtain rfl := Option.some.inj (isLog.symm.trans (show _ = some Log.header from rfl))
      exact ⟨.headers headers, by rw [parseLog, areHeaders]; rfl⟩
    · intro log isLog
      obtain rfl := Option.some.inj
        (isLog.symm.trans (show _ = some Log.procDiskstats from rfl))
      rw [parseLog_none_procDiskstats, diskStatSamples_busy]
      exact ⟨_, rfl⟩
  obtain ⟨numCpu, same, noDifference⟩ := headerIrrelevant_of_orderIndependent
    (oneTrace_twoFiles _) independent readable twoCpus (oneDisk "100".toList)
    (by simp [twoFiles]) (by simp [twoFiles]) headers _ areHeaders diskStatSamples_busy
  obtain rfl := Except.ok.inj (same.symm.trans known)
  have allUsed : diskUse (.new 0)
      { time := 10, diskdata := { rsect := 0, wsect := 0, use := 100 } } = 1 := by
    decide +kernel
  rw [CpusIrrelevant, List.isChain_pair, allUsed] at noDifference
  norm_num at noDifference

end Trace
end Bootchart
