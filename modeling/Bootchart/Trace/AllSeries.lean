import Bootchart.Parsing.Chronology
import Bootchart.Trace.Crop

/-!
# Cropping all series

`Trace.crop` works on a whole trace and tells the writer what it does. It leaves the
samples of the memory alone; and if no process has one of the names that are given, it
goes on with the last process of the map.
-/

namespace Bootchart

open Library (Text Dict)

namespace Trace

/-- The series that are drawn. -/
structure AllSeries where
  /-- `ps_stats`, `cpu_stats` and `disk_stats`. -/
  stats : Stats
  /-- `mem_stats`. -/
  memStats : Option (List MemSample)

/-- What the writer is told. -/
inductive Message
  /-- `writer.info`. -/
  | info (text : Text)
  /-- `writer.warn`. -/
  | warn (text : Text)
  deriving DecidableEq

/-- `"%d" % number`. -/
def truncated (number : ℚ) : Text :=
  Library.Text.decimal (number.num.tdiv number.den)

/-- The process is selected. -/
def selectedProc (proc : Process) : Message :=
  .info ("selected proc '".toList ++ proc.cmd ++ "' from list (start ".toList ++
    truncated proc.startTime ++ ")".toList)

/-- There is no idle time. -/
def notIdleAfterProc (cropAfter : Text) : Message :=
  .warn ("not idle after proc '".toList ++ cropAfter ++ "'".toList)

/-- The time to crop at. -/
def croppingAtTime (cropAt : ℚ) : Message :=
  .info ("cropping at time ".toList ++ truncated cropAt)

/-- The process that is selected. -/
def selectProcess (cropAfter : Text) (processes : List Process) : Option Process :=
  let names := shortNames cropAfter
  processes.find? fun proc => names.any fun name => name = proc.cmd || name = proc.exe

namespace AllSeries

/-- How `crop` ends. -/
structure Outcome where
  /-- What the writer has been told. -/
  messages : List Message
  /-- The series. -/
  series : AllSeries
  /-- The time that is returned. -/
  idle : Option ℚ

/-- `Trace.crop`, nothing if `proc` is not bound. As `proc` is never `None`, there is no
warning that no process is selected. -/
def crop (series : AllSeries) (cropAfter : Text) : Option Outcome :=
  let processes := series.stats.psStats.processMap.values
  let selected := selectProcess cropAfter processes
  let messages := (selected.map selectedProc).toList
  (selected.or processes.getLast?).map fun proc =>
    match findIdle proc.startTime series.stats.diskUtil series.stats.cpuUtil with
    | none =>
        { messages := messages ++ [notIdleAfterProc cropAfter]
          series := series
          idle := none }
    | some idle =>
        { messages := messages ++ [croppingAtTime (idle + idlePeriod)]
          series := { series with stats := series.stats.cropTo (idle + idlePeriod) }
          idle := some idle }

/-- At a sample of the processors, at or behind the start of a process, the processors and
the disks are idle; the sample is the first of those that are given. -/
def IdleFrom (startTime : ℚ) (diskUtil : Utilisation) (samples : Utilisation) (time : ℚ) :
    Prop :=
  ∃ load rest, samples = (time, load) :: rest ∧ startTime ≤ time ∧
    isIdleAt time samples = true ∧ isIdle diskUtil time = true

/-- The samples of every series are in the order of time. -/
structure Chronological (series : AllSeries) : Prop where
  /-- `cpu_stats`. -/
  cpuStats : series.stats.cpuStats.Pairwise fun first second =>
    first.time.getD 0 ≤ second.time.getD 0
  /-- `disk_stats`. -/
  diskStats : series.stats.diskStats.Pairwise fun first second => first.time ≤ second.time
  /-- `mem_stats`. -/
  memStats : ∀ memStats, series.memStats = some memStats →
    memStats.Pairwise fun first second => first.time ≤ second.time
  /-- The samples of the processes. -/
  processes : ∀ key process, series.stats.psStats.processMap.get? key = some process →
    process.Chronological

/-- The series after cropping are those before up to a time. -/
structure CroppedAt (cropAt : ℚ) (before after : AllSeries) : Prop where
  /-- `cpu_stats`. -/
  cpuStats : after.stats.cpuStats =
    before.stats.cpuStats.filter fun sample => sample.time.getD 0 ≤ cropAt
  /-- `disk_stats`. -/
  diskStats : after.stats.diskStats =
    before.stats.diskStats.filter fun sample => sample.time ≤ cropAt
  /-- `mem_stats`. -/
  memStats : after.memStats =
    before.memStats.map fun samples => samples.filter fun sample => sample.time ≤ cropAt
  /-- No process starts or ends later. -/
  ends : ∀ key process, after.stats.psStats.processMap.get? key = some process →
    process.startTime ≤ cropAt ∧ process.getEndTime ≤ cropAt
  /-- The processes that started by then stay, with their samples up to then, and there
  are no others. -/
  processes : ∀ key,
    (after.stats.psStats.processMap.get? key).map
        (fun process => (process.startTime, process.samples)) =
      ((before.stats.psStats.processMap.get? key).filter
        fun process => process.startTime ≤ cropAt).map fun process =>
          (process.startTime, process.samples.filter fun sample => sample.time ≤ cropAt)

/-- No sample of the memory is later than the margin behind any idle time at or behind the
start of a process. -/
def MemoryEnds (startTime : ℚ) (series : AllSeries) : Prop :=
  ∀ memStats, series.memStats = some memStats → ∀ sample ∈ memStats,
    ∀ samples, samples <:+ series.stats.cpuUtil → ∀ time,
      IdleFrom startTime series.stats.diskUtil samples time →
        (sample.time : ℚ) ≤ time + idlePeriod

/-- No process has one of the names. -/
def Unselected (cropAfter : Text) (series : AllSeries) : Prop :=
  ∀ proc ∈ series.stats.psStats.processMap.values, ∀ name ∈ shortNames cropAfter,
    name ≠ proc.cmd ∧ name ≠ proc.exe

/-- `crop` warns, returns `None` and changes nothing. -/
def Refuses (cropAfter : Text) (series : AllSeries) : Prop :=
  ∃ outcome, series.crop cropAfter = some outcome ∧
    (∃ text, .warn text ∈ outcome.messages) ∧ outcome.idle = none ∧
      outcome.series = series

section Idle

variable {startTime : ℚ} {diskUtil cpuUtil : Utilisation}

variable (startTime diskUtil) in
/-- The search for an idle time goes on at samples that are not idle. -/
theorem findIdle_cons (sample : ℚ × ℚ) (rest : Utilisation) :
    (IdleFrom startTime diskUtil (sample :: rest) sample.1 ∧
        findIdle startTime diskUtil (sample :: rest) = some sample.1) ∨
      ((∀ time, ¬IdleFrom startTime diskUtil (sample :: rest) time) ∧
        findIdle startTime diskUtil (sample :: rest) = findIdle startTime diskUtil rest) := by
  obtain ⟨time, load⟩ := sample
  rw [findIdle]
  split
  next early =>
    refine .inr ⟨?_, rfl⟩
    rintro other ⟨otherLoad, otherRest, same, starts, -⟩
    obtain ⟨⟨rfl, -⟩, -⟩ := by simpa using same
    exact absurd starts (not_le.mpr early)
  next notEarly =>
    split
    next idle =>
      obtain ⟨cpuIdle, diskIdle⟩ := Bool.and_eq_true_iff.mp idle
      exact .inl ⟨⟨load, rest, rfl, not_lt.mp notEarly, cpuIdle, diskIdle⟩, rfl⟩
    next notIdle =>
      refine .inr ⟨?_, rfl⟩
      rintro other ⟨otherLoad, otherRest, same, -, cpuIdle, diskIdle⟩
      obtain ⟨⟨rfl, -⟩, -⟩ := by simpa using same
      exact notIdle (Bool.and_eq_true_iff.mpr ⟨cpuIdle, diskIdle⟩)

/-- There is no idle time if and only if there is none at any sample. -/
theorem findIdle_eq_none :
    findIdle startTime diskUtil cpuUtil = none ↔
      ∀ samples, samples <:+ cpuUtil → ∀ time, ¬IdleFrom startTime diskUtil samples time := by
  induction cpuUtil with
  | nil =>
      simp only [findIdle, true_iff, List.suffix_nil]
      rintro samples rfl time ⟨load, rest, same, -⟩
      contradiction
  | cons sample rest inductionHypothesis =>
      simp only [List.suffix_cons_iff, forall_eq_or_imp]
      rcases findIdle_cons startTime diskUtil sample rest with
        ⟨isIdle, found⟩ | ⟨notIdle, found⟩
      · rw [found]
        exact iff_of_false nofun fun none => none.1 sample.1 isIdle
      · rw [found, inductionHypothesis]
        exact ⟨fun others => ⟨notIdle, others⟩, And.right⟩

/-- The idle time that is found is the earliest. -/
theorem findIdle_eq_some
    {idle : ℚ}
    (inOrder : cpuUtil.Pairwise fun first second => first.1 ≤ second.1)
    (found : findIdle startTime diskUtil cpuUtil = some idle) :
    (∃ samples, samples <:+ cpuUtil ∧ IdleFrom startTime diskUtil samples idle) ∧
      ∀ samples, samples <:+ cpuUtil → ∀ time, IdleFrom startTime diskUtil samples time →
        idle ≤ time := by
  induction cpuUtil with
  | nil => contradiction
  | cons sample rest inductionHypothesis =>
      obtain ⟨isFirst, restInOrder⟩ := List.pairwise_cons.mp inOrder
      rcases findIdle_cons startTime diskUtil sample rest with
        ⟨isIdle, isFound⟩ | ⟨notIdle, isFound⟩
      · obtain rfl := Option.some.inj (isFound.symm.trans found)
        refine ⟨⟨_, List.suffix_rfl, isIdle⟩, ?_⟩
        rintro samples isSuffix time ⟨load, others, rfl, -⟩
        rcases List.mem_cons.mp (isSuffix.subset List.mem_cons_self) with same | later
        · rw [← same]
        · exact isFirst _ later
      · obtain ⟨⟨samples, isSuffix, isIdle⟩, earliest⟩ :=
          inductionHypothesis restInOrder (isFound.symm.trans found)
        refine ⟨⟨samples, isSuffix.trans (List.suffix_cons _ _), isIdle⟩, ?_⟩
        intro others areSuffix time othersIdle
        rcases List.suffix_cons_iff.mp areSuffix with rfl | inRest
        · exact absurd othersIdle (notIdle time)
        · exact earliest others inRest time othersIdle

end Idle

section Crop

variable {series : AllSeries} {cropAfter : Text} {outcome : Outcome}

/-- The other series are cropped as without those of the memory. -/
theorem crop_stats (series : AllSeries) (cropAfter : Text) :
    (series.crop cropAfter).map (fun outcome => (outcome.series.stats, outcome.idle)) =
      series.stats.crop cropAfter := by
  rw [crop, Stats.crop, Option.map_map]
  refine congrArg (Option.map · _) (funext fun proc => ?_)
  cases found : findIdle proc.startTime series.stats.diskUtil series.stats.cpuUtil with
  | none => simp only [Function.comp_apply, found]
  | some idle => simp only [Function.comp_apply, found]

/-- There is an idle time after the process or not. -/
theorem crop_cases (isOutcome : series.crop cropAfter = some outcome) :
    ∃ proc, cropProcess cropAfter series.stats.psStats.processMap.values = some proc ∧
      ((findIdle proc.startTime series.stats.diskUtil series.stats.cpuUtil = none ∧
          notIdleAfterProc cropAfter ∈ outcome.messages ∧ outcome.series = series ∧
            outcome.idle = none) ∨
        ∃ idle, findIdle proc.startTime series.stats.diskUtil series.stats.cpuUtil =
            some idle ∧
          outcome.series =
            { series with stats := series.stats.cropTo (idle + idlePeriod) } ∧
          outcome.idle = some idle) := by
  obtain ⟨proc, isProc, rfl⟩ := Option.map_eq_some_iff.mp isOutcome
  refine ⟨proc, isProc, ?_⟩
  cases found : findIdle proc.startTime series.stats.diskUtil series.stats.cpuUtil with
  | none => exact .inl ⟨rfl, by simp, rfl, rfl⟩
  | some idle => exact .inr ⟨idle, rfl, rfl, rfl⟩

/-- `crop` ends if there is a process. -/
theorem exists_crop
    {proc : Process}
    (isProc : cropProcess cropAfter series.stats.psStats.processMap.values = some proc) :
    ∃ outcome, series.crop cropAfter = some outcome := by
  refine Option.isSome_iff_exists.mp ?_
  rw [crop, Option.isSome_map]
  exact Option.isSome_of_eq_some isProc

/-- The samples of the processors are in the order of time. -/
theorem Chronological.cpuUtil (chronological : series.Chronological) :
    series.stats.cpuUtil.Pairwise fun first second => first.1 ≤ second.1 :=
  List.pairwise_map.mpr chronological.cpuStats

/-- What `cropTo` does to the series: everything but the samples of the memory is
cropped. -/
theorem croppedAt_cropTo_iff
    (chronological : series.Chronological)
    (cropAt : ℚ) :
    CroppedAt cropAt series { series with stats := series.stats.cropTo cropAt } ↔
      ∀ memStats, series.memStats = some memStats →
        ∀ sample ∈ memStats, (sample.time : ℚ) ≤ cropAt := by
  constructor
  · intro cropped memStats isMemory sample member
    have isFiltered := cropped.memStats
    simp only [isMemory, Option.map_some, Option.some.injEq] at isFiltered
    rw [isFiltered] at member
    exact of_decide_eq_true (List.mem_filter.mp member).2
  · intro early
    refine ⟨?_, ?_, ?_, ?_, ?_⟩
    · exact popLate_eq_filter chronological.cpuStats
    · exact popLate_eq_filter (chronological.diskStats.imp Int.cast_le.mpr)
    · cases isMemory : series.memStats with
      | none => rfl
      | some memStats =>
          rw [Option.map_some, List.filter_eq_self.mpr]
          exact fun sample member => decide_eq_true (early memStats isMemory sample member)
    · intro key process isProcess
      rw [Stats.cropTo, Dict.get?_filterMapValues, Option.bind_eq_some_iff] at isProcess
      obtain ⟨original, -, isKept⟩ := isProcess
      split at isKept
      next starts =>
        obtain rfl := Option.some.inj isKept
        refine ⟨starts, ?_⟩
        rw [Process.getEndTime, cropped]
        linarith [min_le_right original.duration (cropAt - original.startTime)]
      next => contradiction
    · intro key
      rw [Stats.cropTo, Dict.get?_filterMapValues]
      cases isProcess : series.stats.psStats.processMap.get? key with
      | none => rfl
      | some process =>
          have inOrder := chronological.processes key process isProcess
          rw [Option.bind_some, Option.filter_some]
          split
          next starts =>
            rw [decide_eq_true starts, if_pos rfl, Option.map_some, Option.map_some, cropped,
              popLate_eq_filter inOrder]
          next late =>
            rw [decide_eq_false late, if_neg (by simp), Option.map_none, Option.map_none]

/-- If `crop` returns a time, all series are cropped a margin behind it if and only if the
samples of the memory end by then. -/
theorem croppedAt_crop_iff
    (chronological : series.Chronological)
    {proc : Process}
    (isProc : cropProcess cropAfter series.stats.psStats.processMap.values = some proc)
    (isOutcome : series.crop cropAfter = some outcome)
    {idle : ℚ}
    (isIdle : outcome.idle = some idle) :
    CroppedAt (idle + idlePeriod) series outcome.series ↔
      MemoryEnds proc.startTime series := by
  obtain ⟨other, isOther, cases⟩ := crop_cases isOutcome
  obtain rfl := Option.some.inj (isProc.symm.trans isOther)
  rcases cases with ⟨-, -, -, notIdle⟩ | ⟨time, found, isCropped, isTime⟩
  · exact absurd (notIdle.symm.trans isIdle) nofun
  · obtain rfl := Option.some.inj (isTime.symm.trans isIdle)
    obtain ⟨⟨samples, isSuffix, idleFrom⟩, earliest⟩ :=
      findIdle_eq_some chronological.cpuUtil found
    rw [isCropped, croppedAt_cropTo_iff chronological]
    refine forall₂_congr fun memStats _ => forall₂_congr fun sample _ => ⟨?_, ?_⟩
    · intro early others areSuffix later laterIdle
      have isEarliest := earliest others areSuffix later laterIdle
      linarith
    · exact fun ends => ends samples isSuffix time idleFrom

/-- If no process has one of the names, the last process of the map is taken. -/
theorem cropProcess_of_unselected (unselected : Unselected cropAfter series) :
    cropProcess cropAfter series.stats.psStats.processMap.values =
      series.stats.psStats.processMap.values.getLast? := by
  rw [cropProcess, List.find?_eq_none.mpr, Option.none_or]
  intro proc member isSelected
  obtain ⟨name, isName, same⟩ := List.any_eq_true.mp isSelected
  obtain ⟨notCmd, notExe⟩ := unselected proc member name isName
  rcases Bool.or_eq_true_iff.mp same with isCmd | isExe
  · exact notCmd (of_decide_eq_true isCmd)
  · exact notExe (of_decide_eq_true isExe)

/-- If no process has one of the names, `crop` warns, returns `None` and changes nothing if
and only if there is a process, and there is no idle time at or behind the start of the last
one. -/
theorem refuses_iff (unselected : Unselected cropAfter series) :
    Refuses cropAfter series ↔
      ∃ last, series.stats.psStats.processMap.values.getLast? = some last ∧
        ∀ samples, samples <:+ series.stats.cpuUtil → ∀ time,
          ¬IdleFrom last.startTime series.stats.diskUtil samples time := by
  rw [← cropProcess_of_unselected unselected]
  constructor
  · rintro ⟨outcome, isOutcome, -, notIdle, -⟩
    obtain ⟨last, isLast, cases⟩ := crop_cases isOutcome
    refine ⟨last, isLast, findIdle_eq_none.mp ?_⟩
    rcases cases with ⟨isNone, -⟩ | ⟨idle, -, -, isIdle⟩
    · exact isNone
    · exact absurd (isIdle.symm.trans notIdle) nofun
  · rintro ⟨last, isLast, notIdle⟩
    obtain ⟨outcome, isOutcome⟩ := exists_crop isLast
    obtain ⟨other, isOther, cases⟩ := crop_cases isOutcome
    obtain rfl := Option.some.inj (isLast.symm.trans isOther)
    rw [← findIdle_eq_none] at notIdle
    rcases cases with ⟨-, warns, unchanged, isNone⟩ | ⟨idle, found, -⟩
    · exact ⟨outcome, isOutcome, ⟨_, warns⟩, isNone, unchanged⟩
    · exact absurd (notIdle.symm.trans found) nofun

end Crop

/-- One process, and samples at two times with a load of the processors. -/
def twoTimes (load : ℚ) (memoryTime : Int) : AllSeries where
  stats :=
    { psStats :=
        { processMap := Dict.empty.set 1000 (Process.new 1000 ['a'] 0 0)
          sampleCount := 2
          samplePeriod := 500
          startTime := 0
          endTime := 500 }
      cpuStats :=
        [{ time := some 0, user := load, sys := 0, io := 0, swap := 0 },
          { time := some 500, user := load, sys := 0, io := 0, swap := 0 }]
      diskStats :=
        [{ time := 0, read := 0, write := 0, util := 0 },
          { time := 500, read := 0, write := 0, util := 0 }] }
  memStats := some [{ time := 0, records := Dict.empty },
    { time := memoryTime, records := Dict.empty }]

/-- These samples are in the order of time. -/
theorem chronological_twoTimes
    (load : ℚ)
    {memoryTime : Int}
    (notNegative : 0 ≤ memoryTime) : (twoTimes load memoryTime).Chronological where
  cpuStats := by simp [twoTimes]
  diskStats := by simp [twoTimes]
  memStats := by
    rintro memStats ⟨⟩
    simpa using notNegative
  processes := by
    intro key process isProcess
    rw [twoTimes, Dict.get?_set, Dict.get?_empty] at isProcess
    split at isProcess
    · obtain rfl := Option.some.inj isProcess
      exact List.Pairwise.nil
    · contradiction

/-- A sample of the memory behind the margin stays. -/
theorem not_croppedAt_twoTimes :
    (twoTimes 0 500).Chronological ∧ ∃ outcome,
      (twoTimes 0 500).crop ['a'] = some outcome ∧ outcome.idle = some 0 ∧
        ¬CroppedAt (0 + idlePeriod) (twoTimes 0 500) outcome.series := by
  have values : ((twoTimes 0 500).crop ['a']).map (fun outcome =>
      (outcome.idle, outcome.series.memStats.map List.length)) = some (some 0, some 2) := by
    decide +kernel
  obtain ⟨outcome, isOutcome, isValues⟩ := Option.map_eq_some_iff.mp values
  obtain ⟨isIdle, stays⟩ := Prod.mk.inj isValues
  refine ⟨chronological_twoTimes 0 (by decide), outcome, isOutcome, isIdle, fun cropped => ?_⟩
  have few : ((twoTimes 0 500).memStats.map fun samples => samples.filter fun sample =>
      (sample.time : ℚ) ≤ 0 + idlePeriod).map List.length = some 1 := by
    decide +kernel
  rw [← cropped.memStats, stays] at few
  exact absurd few (by decide)

/-- A sample of the memory within the margin may stay. -/
theorem croppedAt_twoTimes :
    ∃ outcome, (twoTimes 0 100).crop ['a'] = some outcome ∧
      CroppedAt (0 + idlePeriod) (twoTimes 0 100) outcome.series := by
  have idleAtStart : ((twoTimes 0 100).crop ['a']).map Outcome.idle = some (some 0) := by
    decide +kernel
  obtain ⟨outcome, isOutcome, isIdle⟩ := Option.map_eq_some_iff.mp idleAtStart
  have isProc : cropProcess ['a'] (twoTimes 0 100).stats.psStats.processMap.values =
      some (Process.new 1000 ['a'] 0 0) := by
    decide +kernel
  refine ⟨outcome, isOutcome, (croppedAt_crop_iff (chronological_twoTimes 0 (by decide))
    isProc isOutcome isIdle).mpr ?_⟩
  rintro memStats ⟨⟩ sample member samples - time ⟨load, rest, -, starts, -⟩
  have early : sample.time ≤ 100 := by
    simp only [List.mem_cons, List.not_mem_nil, or_false] at member
    rcases member with rfl | rfl <;> decide
  have earlyTime : (sample.time : ℚ) ≤ 100 := by exact_mod_cast early
  have notNegative : (0 : ℚ) ≤ time := starts
  rw [idlePeriod]
  linarith

/-- If the processors are idle, the series are cropped although no process is selected. -/
theorem not_refuses_twoTimes :
    Unselected ['z'] (twoTimes 0 100) ∧ ¬Refuses ['z'] (twoTimes 0 100) := by
  refine ⟨by unfold Unselected; decide +kernel, ?_⟩
  have idleAtStart : ((twoTimes 0 100).crop ['z']).map Outcome.idle = some (some 0) := by
    decide +kernel
  rintro ⟨outcome, isOutcome, -, notIdle, -⟩
  rw [isOutcome, Option.map_some, notIdle] at idleAtStart
  exact absurd idleAtStart (by decide)

/-- If they never are, nothing is cropped. -/
theorem refuses_twoTimes : Refuses ['z'] (twoTimes 1 100) := by
  have unselected : Unselected ['z'] (twoTimes 1 100) := by
    unfold Unselected
    decide +kernel
  have noIdleTime : findIdle 0 (twoTimes 1 100).stats.diskUtil
      (twoTimes 1 100).stats.cpuUtil = none := by
    decide +kernel
  exact (refuses_iff unselected).mpr ⟨Process.new 1000 ['a'] 0 0, by decide +kernel,
    findIdle_eq_none.mp noIdleTime⟩

end AllSeries

end Trace
end Bootchart
