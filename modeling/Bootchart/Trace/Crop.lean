import Bootchart.Samples
import Mathlib.Data.List.DropRight

/-!
# Cropping a trace

`Trace.crop` looks for the first time after the start of a process at which processors
and disks are idle for a while, and cuts off what comes later than a margin behind it.
-/

namespace Bootchart

open Library (Text Dict)

namespace Trace

/-- The utilisation at some times. -/
abbrev Utilisation := List (ℚ × ℚ)

/-- The time an idle period is looked at, and the margin that is kept behind it. -/
def idlePeriod : ℚ := 300

/-- `is_idle_at`, for the samples from the one that is looked at on. The average is
taken up to the first sample behind the period, or to the last one. -/
def isIdleAt (start : ℚ) : Utilisation → Bool
  | [] => false
  | first :: rest =>
      let within (sample : ℚ × ℚ) : Bool := sample.1 < start + idlePeriod
      let window := first :: (rest.takeWhile within ++ (rest.dropWhile within).take 1)
      if 1 / 4 ≤ first.2 then false
      else (window.map Prod.snd).sum / window.length < 1 / 4

/-- `is_idle`: the first sample at or behind a time is looked at. -/
def isIdle (util : Utilisation) (start : ℚ) : Bool :=
  isIdleAt start (util.dropWhile fun sample => sample.1 < start)

/-- The first time, at or behind the start of a process, at which processors and disks
are idle. -/
def findIdle (startTime : ℚ) (diskUtil : Utilisation) : Utilisation → Option ℚ
  | [] => none
  | sample :: cpuUtil =>
      if sample.1 < startTime then findIdle startTime diskUtil cpuUtil
      else if isIdleAt sample.1 (sample :: cpuUtil) && isIdle diskUtil sample.1 then
        some sample.1
      else findIdle startTime diskUtil cpuUtil

/-- `[x[:15] for x in text.split(",")]`. -/
def shortNames (text : Text) : List Text :=
  (text.splitOn ',').map (·.take 15)

/-- The variable `proc` behind the loop that looks for the process to crop after: the
process that is found, or else the last one. -/
def cropProcess (cropAfter : Text) (processes : List Process) : Option Process :=
  let names := shortNames cropAfter
  (processes.find? fun proc => names.any fun name => name = proc.cmd || name = proc.exe).or
    processes.getLast?

/-- Take what is late off the end of a list. -/
def popLate {α : Type*} (time : α → ℚ) (cropAt : ℚ) (samples : List α) : List α :=
  samples.rdropWhile fun sample => cropAt < time sample

/-- What is left of a process. -/
def cropped (cropAt : ℚ) (proc : Process) : Process :=
  { proc with
    duration := min proc.duration (cropAt - proc.startTime)
    samples := popLate ProcessSample.time cropAt proc.samples }

/-- The statistics that are cropped. -/
structure Stats where
  /-- `ps_stats`. -/
  psStats : ProcessStats
  /-- `cpu_stats`. Their samples have times. -/
  cpuStats : List CPUSample
  /-- `disk_stats`. -/
  diskStats : List DiskSample

namespace Stats

/-- `cpu_util`. -/
def cpuUtil (stats : Stats) : Utilisation :=
  stats.cpuStats.map fun sample =>
    (sample.time.getD 0, sample.user + sample.sys + sample.io)

/-- `disk_util`. -/
def diskUtil (stats : Stats) : Utilisation :=
  stats.diskStats.map fun sample => (sample.time, sample.util)

/-- What is left up to a time. -/
def cropTo (stats : Stats) (cropAt : ℚ) : Stats where
  psStats :=
    { stats.psStats with
      endTime := cropAt
      processMap := stats.psStats.processMap.filterMapValues fun _ proc =>
        if proc.startTime ≤ cropAt then some (cropped cropAt proc) else none }
  cpuStats := popLate (fun sample => sample.time.getD 0) cropAt stats.cpuStats
  diskStats := popLate (fun sample => sample.time) cropAt stats.diskStats

/-- `Trace.crop`: the cropped statistics and the time it returns, nothing if there is no
process at all, so that `proc` is not bound. -/
def crop (stats : Stats) (cropAfter : Text) : Option (Stats × Option ℚ) :=
  (cropProcess cropAfter stats.psStats.processMap.values).map fun proc =>
    match findIdle proc.startTime stats.diskUtil stats.cpuUtil with
    | none => (stats, none)
    | some idle => (stats.cropTo (idle + idlePeriod), some idle)

end Stats

/-! ## Lists in the order of time -/

/-- What is left of a list in the order of time is what is not late. -/
theorem popLate_eq_filter
    {α : Type*}
    {time : α → ℚ}
    {cropAt : ℚ}
    {samples : List α}
    (inOrder : samples.Pairwise fun first second => time first ≤ time second) :
    popLate time cropAt samples = samples.filter fun sample => time sample ≤ cropAt := by
  induction samples using List.reverseRecOn with
  | nil => rfl
  | append_singleton samples last inductionHypothesis =>
      obtain ⟨rest, -, beforeLast⟩ := List.pairwise_append.mp inOrder
      unfold popLate at inductionHypothesis ⊢
      rw [List.rdropWhile_concat]
      split
      next late =>
        have isLate : ¬time last ≤ cropAt := not_le.mpr (of_decide_eq_true late)
        rw [inductionHypothesis rest, List.filter_append, List.filter_singleton,
          decide_eq_false isLate, cond_false, List.append_nil]
      next notLate =>
        have last_le : time last ≤ cropAt := by simpa using notLate
        refine (List.filter_eq_self.mpr fun sample member => decide_eq_true ?_).symm
        rcases List.mem_append.mp member with before | isLast
        · exact (beforeLast sample before last (by simp)).trans last_le
        · exact List.mem_singleton.mp isLast ▸ last_le

end Trace
end Bootchart
