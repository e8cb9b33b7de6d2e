import Bootchart.Draw.Render
import Bootchart.Trace.Covering

/-!
# The time axis

Charts scale times by the largest time of their samples, annotations and processes by the
duration of the tree. A time is at the same place in both only if these are the same.
-/

namespace Bootchart
namespace Draw

open Library (Text)
open Trace (Made)

/-- A chart, an annotation and a process are drawn, and have a time at the same place. -/
structure OneTimeAxis
    (scene : Scene)
    (color : Color)
    (fill : Bool)
    (data : List Point)
    (dataRange : Option (ℚ × ℚ))
    (point : Point)
    (proc : ProcessId) : Prop where
  /-- The chart is drawn. -/
  chart : ¬(drawChart color fill scene.rect data scene.procTree dataRange).Raises
  /-- The annotation is drawn. -/
  annotation : ¬(drawAnnotations scene.procTree [some point.1] scene.rect).Raises
  /-- The chart has the time where the annotation has it. -/
  chart_eq : (chartPoint scene.rect data scene.procTree dataRange point).1 =
    scene.rect.x + scene.procTree.timeX scene.rect point.1
  /-- The process begins there. -/
  process_eq : scene.processX proc = scene.rect.x + scene.procTree.timeX scene.rect point.1

/-- Where a chart has a time. -/
theorem chartPoint_fst
    (rect : Rect)
    (data : List Point)
    (procTree : ProcTree)
    (dataRange : Option (ℚ × ℚ))
    (point : Point) :
    (chartPoint rect data procTree dataRange point).1 =
      (point.1 - procTree.startTime) * (rect.width / maxX data) + rect.x := by
  cases dataRange <;> rfl

/-- A chart is not drawn if it has no samples, if their largest time is zero, or if no
values are between the bounds. -/
theorem raises_drawChart
    (color : Color)
    (fill : Bool)
    (rect : Rect)
    (data : List Point)
    (procTree : ProcTree)
    (dataRange : Option (ℚ × ℚ)) :
    (drawChart color fill rect data procTree dataRange).Raises ↔
      data = [] ∨ maxX data = 0 ∨ ∃ range ∈ dataRange, range.2 - range.1 = 0 := by
  unfold Drawing.Raises drawChart
  cases dataRange with
  | none => cases fill <;> simp [Event.Fails]
  | some range => cases fill <;> simp [Event.Fails]

/-- An annotation is not drawn if the tree has no duration. -/
theorem raises_drawAnnotations_singleton
    (procTree : ProcTree)
    (time : ℚ)
    (rect : Rect) :
    (drawAnnotations procTree [some time] rect).Raises ↔ procTree.duration = 0 := by
  simp [raises_drawAnnotations]

/-- Two scales put a distance at the same place. -/
theorem scaled_eq_iff
    {distance width first second : ℚ}
    (firstNonzero : first ≠ 0)
    (secondNonzero : second ≠ 0) :
    distance * (width / first) = distance * width / second ↔
      distance = 0 ∨ width = 0 ∨ first = second := by
  rw [← mul_div_assoc, div_eq_div_iff firstNonzero secondNonzero, mul_eq_mul_left_iff,
    mul_eq_zero, eq_comm (a := second)]
  tauto

/-- A chart and the processes have one time axis if and only if the chart can be drawn and
the time is the start of the tree, or the chart has no width, or the largest time of its
samples is the duration of the tree. -/
theorem oneTimeAxis_iff
    {scene : Scene}
    {color : Color}
    {fill : Bool}
    {data : List Point}
    {dataRange : Option (ℚ × ℚ)}
    {point : Point}
    {proc : ProcessId}
    (starts : (scene.process proc).startTime = point.1) :
    OneTimeAxis scene color fill data dataRange point proc ↔
      (data ≠ [] ∧ maxX data ≠ 0 ∧ (∀ range ∈ dataRange, range.2 - range.1 ≠ 0) ∧
        scene.procTree.duration ≠ 0) ∧
      (point.1 = scene.procTree.startTime ∨ scene.rect.width = 0 ∨
        maxX data = scene.procTree.duration) := by
  have isProcess : scene.processX proc =
      scene.rect.x + scene.procTree.timeX scene.rect point.1 := by
    rw [Scene.processX, starts]
  constructor
  · intro oneAxis
    have chart := oneAxis.chart
    have annotation := oneAxis.annotation
    have same := oneAxis.chart_eq
    rw [raises_drawChart, not_or, not_or] at chart
    rw [raises_drawAnnotations_singleton] at annotation
    obtain ⟨someData, nonzero, someRange⟩ := chart
    rw [chartPoint_fst, add_comm, add_right_inj, ProcTree.timeX,
      scaled_eq_iff nonzero annotation, sub_eq_zero] at same
    exact ⟨⟨someData, nonzero, fun range isRange zero => someRange ⟨range, isRange, zero⟩,
      annotation⟩, same⟩
  · rintro ⟨⟨someData, nonzero, someRange, someDuration⟩, same⟩
    refine ⟨?_, ?_, ?_, isProcess⟩
    · rw [raises_drawChart, not_or, not_or]
      exact ⟨someData, nonzero, fun ⟨range, isRange, zero⟩ => someRange range isRange zero⟩
    · rwa [raises_drawAnnotations_singleton]
    · rw [chartPoint_fst, add_comm, add_right_inj, ProcTree.timeX,
        scaled_eq_iff nonzero someDuration, sub_eq_zero]
      exact same

/-- A scene in which one process starts with the tree. -/
def oneProcess : Scene where
  canvas := fixedWidth
  options := { showPid := false, showAll := false }
  procTree :=
    { objects := fun _ => Process.new 1000 ['a'] 0 1
      processTree := .cons (.mapped 1000) .nil .nil
      startTime := 1
      duration := 4
      samplePeriod := 2
      numProc := 1
      idle := none
      taskstats := false }
  rect := ⟨10, 40, 100, 55⟩

/-- The start of the tree is at one place. -/
theorem oneTimeAxis_start :
    OneTimeAxis oneProcess cpuColor true [(1, 0), (3, 1)] none (1, 0) (.mapped 1000) := by
  apply (oneTimeAxis_iff rfl).mpr
  refine ⟨⟨List.cons_ne_nil _ _, ?_, by simp, ?_⟩, .inl rfl⟩
  · norm_num [maxX, largest]
  · norm_num [oneProcess]

/-- A log of processor times in two frames. -/
def cpuFrames : Parsing.Bytes :=
  Parsing.logBytes [(1, [Library.Utf8.encode "cpu 0 0 0 0 0 0 0".toList]),
    (3, [Library.Utf8.encode "cpu 1 0 0 0 0 0 0".toList])]

/-- A trace of one process and one processor sample. -/
def cpuTrace : List Trace.File :=
  [("header".toList, []), ("proc_diskstats.log".toList, []),
    ("proc_stat.log".toList, cpuFrames), ("paternity.log".toList, []),
    ("proc_ps.log".toList, Trace.twoFrames)]

/-- The charts of a trace do not have the time axis of its processes. -/
theorem chartPoint_cpuTrace :
    ∃ made, Trace.init [] cpuTrace { cropAfter := none, annotate := [], prune := false } =
        .ok made ∧
      ∃ point ∈ cpuData made fun sample => sample.user + sample.sys,
        (chartPoint ⟨10, 40, 100, 55⟩ (cpuData made fun sample => sample.user + sample.sys)
            (mainTree made) none point).1 ≠
          10 + (mainTree made).timeX ⟨10, 40, 100, 55⟩ point.1 := by
  obtain ⟨made, isMade, -, values⟩ := Trace.Made.exists_of_inOrder [] cpuTrace
    { cropAfter := none, annotate := [], prune := false }
    (fun made => (made.procTree.startTime = 1 && made.procTree.duration = 4) &&
      decide (cpuData made (fun sample => sample.user + sample.sys) = [(3, 1)]))
    (by decide +kernel)
  obtain ⟨times, isData⟩ := Bool.and_eq_true_iff.mp values
  have data := of_decide_eq_true isData
  refine ⟨made, isMade, (3, 1), by rw [data]; simp, ?_⟩
  simp only [Bool.and_eq_true, decide_eq_true_eq] at times
  rw [chartPoint_fst, data, ProcTree.timeX, mainTree, times.1, times.2]
  norm_num [maxX, largest]

end Draw
end Bootchart
