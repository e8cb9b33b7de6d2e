import Bootchart.Parsing.ProcPs
import Bootchart.Parsing.Taskstats
import Mathlib.Data.Rat.Cast.Order
import Mathlib.Tactic.Linarith
import Mathlib.Tactic.Positivity

/-!
# Logs in the order of time

If the times of a process log never decrease, every process that is read from it has
its samples in the order of time, and the average time between frames is not negative.
-/

namespace Bootchart

open Library (Text Dict)

/-- The samples of a process are in the order of time. -/
def Process.Chronological (process : Process) : Prop :=
  process.samples.Pairwise fun first second => first.time ≤ second.time

/-- The samples of a process are in the order of time, and none is late. -/
def Process.SampledUntil (time : ℚ) (process : Process) : Prop :=
  process.Chronological ∧ ∀ sample ∈ process.samples, sample.time ≤ time

/-- Statistics with processes whose samples are in the order of time. -/
structure ProcessStats.Chronological (psStats : ProcessStats) : Prop where
  /-- Every process has its samples in the order of time. -/
  processes : ∀ key process, psStats.processMap.get? key = some process →
    process.Chronological
  /-- The average time between frames is not negative. -/
  samplePeriod : 0 ≤ psStats.samplePeriod

namespace Process

/-- A process without samples. -/
theorem sampledUntil_of_nil
    {process : Process}
    (time : ℚ)
    (none : process.samples = []) : process.SampledUntil time := by
  simp [SampledUntil, Chronological, none]

/-- Time goes on. -/
theorem SampledUntil.mono
    {process : Process}
    {time later : ℚ}
    (sampled : process.SampledUntil time)
    (isLater : time ≤ later) : process.SampledUntil later :=
  ⟨sampled.1, fun sample member => (sampled.2 sample member).trans isLater⟩

/-- Samples of the present time are put behind the others. -/
theorem SampledUntil.append
    {process next : Process}
    {time : ℚ}
    {samples : List ProcessSample}
    (sampled : process.SampledUntil time)
    (present : ∀ sample ∈ samples, sample.time = time)
    (appended : next.samples = process.samples ++ samples) :
    next.SampledUntil time := by
  unfold SampledUntil Chronological
  rw [appended, List.pairwise_append]
  refine ⟨⟨sampled.1, ?_, fun first before second isNew => ?_⟩, fun sample member => ?_⟩
  · apply List.pairwise_of_forall_mem_list
    intro first isFirst second isSecond
    rw [present first isFirst, present second isSecond]
  · rw [present second isNew]
    exact sampled.2 first before
  · rcases List.mem_append.mp member with before | isNew
    · exact sampled.2 sample before
    · exact (present sample isNew).le

end Process

namespace Parsing

section Taskstats

/-- Every process in the map is sampled up to a time. -/
def TaskstatState.SampledUntil (time : ℚ) (state : TaskstatState) : Prop :=
  ∀ key entry, state.processMap.get? key = some entry → entry.process.SampledUntil time

variable {state : TaskstatState} {time : ℚ}

/-- Putting a process into the map. -/
theorem TaskstatState.SampledUntil.set
    {processMap : Dict Int Entry}
    (sampled : ∀ key entry, processMap.get? key = some entry →
      entry.process.SampledUntil time)
    {entry : Entry}
    (isSampled : entry.process.SampledUntil time)
    (key : Int) :
    ∀ other found, (processMap.set key entry).get? other = some found →
      found.process.SampledUntil time := by
  intro other found isFound
  rw [Dict.get?_set] at isFound
  split at isFound
  · obtain rfl := Option.some.inj isFound
    exact isSampled
  · exact sampled other found isFound

/-- The process a line is about is sampled as the others are, or not at all. -/
theorem TaskstatState.SampledUntil.lookUp
    (sampled : state.SampledUntil time)
    (now : Int)
    (record : TaskstatRecord) :
    (state.lookUp now record).2.1.process.SampledUntil time ∧
      (state.lookUp now record).2.2.SampledUntil time := by
  unfold TaskstatState.lookUp
  cases found : state.processMap.get? (state.currentKey record.opid) with
  | none =>
      have isSampled : (Entry.create now (state.currentKey record.opid)
          record).process.SampledUntil time :=
        Process.sampledUntil_of_nil time rfl
      simp only [found]
      exact ⟨isSampled, SampledUntil.set sampled isSampled _⟩
  | some entry =>
      by_cases renamed : entry.process.cmd ≠ record.cmd
      · have isSampled : (entry.split now (state.currentKey record.opid + 1)
            record).process.SampledUntil time :=
          Process.sampledUntil_of_nil time rfl
        simp only [found, if_pos renamed]
        exact ⟨isSampled, SampledUntil.set sampled isSampled _⟩
      · simp only [found, if_neg renamed]
        exact ⟨sampled _ entry found, sampled⟩

/-- The sample of a line has the time of its frame. -/
theorem time_taskstatSample
    {now : Int}
    {process : Process}
    {record : TaskstatRecord}
    {sample : ProcessSample}
    (isSample : sample ∈ (taskstatSample now process record).toList) :
    sample.time = now := by
  unfold taskstatSample at isSample
  simp only at isSample
  split at isSample
  · obtain rfl := List.mem_singleton.mp isSample
    rfl
  · contradiction

/-- One line. -/
theorem TaskstatState.SampledUntil.step
    {now : Int}
    (sampled : state.SampledUntil now)
    (record : TaskstatRecord) : (state.step now record).SampledUntil now := by
  obtain ⟨isSampled, others⟩ := sampled.lookUp now record
  refine SampledUntil.set others ?_ _
  exact isSampled.append (fun _ => time_taskstatSample) rfl

/-- One frame. -/
theorem TaskstatState.SampledUntil.frame
    {frame : Int × List TaskstatRecord}
    (sampled : state.SampledUntil frame.1) :
    (state.frame frame).SampledUntil frame.1 := by
  unfold TaskstatState.frame
  generalize frame.2 = records
  induction records generalizing state with
  | nil => exact sampled
  | cons record records inductionHypothesis =>
      exact inductionHypothesis (sampled.step record)

end Taskstats

/-! ## The process status log -/

section ProcPs

/-- Every process in a map is sampled up to a time. -/
def SampledUntil (time : ℚ) (processMap : Dict Int Process) : Prop :=
  ∀ key process, processMap.get? key = some process → process.SampledUntil time

variable {processMap : Dict Int Process} {time : ℚ}

/-- The sample of a line has the time of its frame. -/
theorem time_statSample
    {now ltime : Int}
    {process : Process}
    {record : StatRecord}
    {sample : ProcessSample}
    (isSample : sample ∈ (statSample now ltime process record).toList) :
    sample.time = now := by
  unfold statSample at isSample
  split at isSample
  · obtain rfl := List.mem_singleton.mp isSample
    rfl
  · contradiction

/-- One line. -/
theorem SampledUntil.applyStat
    {now : Int}
    (sampled : SampledUntil now processMap)
    (ltime : Int)
    (record : StatRecord) : SampledUntil now (applyStat now ltime processMap record) := by
  intro key process isProcess
  unfold Parsing.applyStat at isProcess
  rw [Dict.get?_set] at isProcess
  split at isProcess
  · obtain rfl := Option.some.inj isProcess
    refine Process.SampledUntil.append ?_ (fun _ => time_statSample) rfl
    split
    next known isKnown => exact sampled _ known isKnown
    next => exact Process.sampledUntil_of_nil _ rfl
  · exact sampled key process isProcess

end ProcPs

end Parsing
end Bootchart
