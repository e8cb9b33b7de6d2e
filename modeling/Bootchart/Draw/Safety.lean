import Bootchart.Draw.TimeAxis
import Bootchart.Draw.Widget

/-!
# Arithmetic safety

What a picture divides by is positive or at least not zero, what it takes a maximum of is
not empty, and its ticks are at least a point apart, if and only if the trace has what is
drawn, and the page is not contracted too often.
-/

namespace Bootchart
namespace Draw

open Library (Text Forest)
open ProcessTree (Objects)
open Trace (Made)

/-! ## Safe drawings -/

/-- An operation is arithmetically safe. -/
def Event.Safe : Event → Prop
  | .command _ | .perRange _ => True
  | .perDuration duration => 0 < duration
  | .perLargest largest => largest ≠ 0
  | .maximum numbers => numbers ≠ []
  | .steps step => 1 ≤ step

/-- All operations of a drawing are safe. -/
def Drawing.Safe (drawing : Drawing) : Prop :=
  ∀ event ∈ drawing, event.Safe

/-- A safe drawing raises no exception, but for a range of values that is empty. -/
theorem Drawing.Safe.not_raises
    {drawing : Drawing}
    (safe : drawing.Safe)
    (ranges : ∀ range, Event.perRange range ∈ drawing → range ≠ 0) : ¬drawing.Raises := by
  rintro ⟨event, member, fails⟩
  have isSafe := safe event member
  cases event with
  | command command => exact fails
  | perDuration duration => exact isSafe.ne' fails
  | perLargest largest => exact isSafe fails
  | perRange range => exact ranges range member fails
  | maximum numbers => exact isSafe fails
  | steps step =>
      have atLeastOne : 1 ≤ step := isSafe
      have isZero : step = 0 := fails
      omega

@[simp] theorem safe_nil : Drawing.Safe [] := by
  simp [Drawing.Safe]

@[simp] theorem safe_cons (event : Event) (drawing : Drawing) :
    Drawing.Safe (event :: drawing) ↔ event.Safe ∧ drawing.Safe := by
  simp [Drawing.Safe]

@[simp] theorem safe_append (first second : Drawing) :
    Drawing.Safe (first ++ second) ↔ first.Safe ∧ second.Safe := by
  simp [Drawing.Safe, or_imp, forall_and]

@[simp] theorem safe_command (command : Command) : (Event.command command).Safe :=
  trivial

/-- What is drawn under a condition. -/
theorem safe_ite (condition : Prop) [Decidable condition] (drawing : Drawing) :
    Drawing.Safe (if condition then drawing else []) ↔ (condition → drawing.Safe) := by
  split
  next holds => simp [holds]
  next fails => simp [fails]

/-! ## Axes and charts -/

@[simp] theorem safe_drawLegendBox (label : Text) (fillColor : Color) (x y s : ℚ) :
    (drawLegendBox label fillColor x y s).Safe := by
  simp [drawLegendBox]

@[simp] theorem safe_drawLegendLine (label : Text) (fillColor : Color) (x y s : ℚ) :
    (drawLegendLine label fillColor x y s).Safe := by
  simp [drawLegendLine]

/-- Ticks. -/
@[simp] theorem safe_drawBoxTicks (rect : Rect) (secW : ℤ) :
    (drawBoxTicks rect secW).Safe ↔ 1 ≤ secW :=
  forall_mem_drawBoxTicks safe_command rect secW

/-- Labels of ticks. -/
@[simp] theorem safe_drawSecLabels
    (canvas : Canvas)
    (rect : Rect)
    (secW : ℤ)
    (nsecs : Nat) :
    (drawSecLabels canvas rect secW nsecs).Safe ↔ 1 ≤ secW :=
  forall_mem_drawSecLabels safe_command canvas rect secW nsecs

/-- Annotations. -/
@[simp] theorem safe_drawAnnotations
    (procTree : ProcTree)
    (times : List (Option ℚ))
    (rect : Rect) :
    (drawAnnotations procTree times rect).Safe ↔
      ((∃ time, some time ∈ times) → 0 < procTree.duration) :=
  forall_mem_drawAnnotations safe_command procTree times rect

/-- What holds of a maximum if it holds of both numbers holds of the largest of some numbers if it
holds of all of them. -/
theorem largest_iff
    (holds : ℚ → Prop)
    (holds_max : ∀ first second, holds (max first second) ↔ holds first ∧ holds second)
    {numbers : List ℚ}
    (nonempty : numbers ≠ []) : holds (largest numbers) ↔ ∀ number ∈ numbers, holds number := by
  obtain ⟨first, rest, rfl⟩ := List.exists_cons_of_ne_nil nonempty
  rw [largest, List.forall_mem_cons]
  clear nonempty
  induction rest generalizing first with
  | nil => simp
  | cons second rest inductionHypothesis =>
      rw [List.foldl_cons, inductionHypothesis, holds_max, List.forall_mem_cons, and_assoc]

/-- The largest of some numbers is less than a bound if all of them are. -/
theorem largest_lt_iff
    {numbers : List ℚ}
    (nonempty : numbers ≠ [])
    (bound : ℚ) : largest numbers < bound ↔ ∀ number ∈ numbers, number < bound :=
  largest_iff (· < bound) (fun _ _ => max_lt_iff) nonempty

/-- The largest of some numbers is at most a bound if all of them are. -/
theorem largest_le_iff
    {numbers : List ℚ}
    (nonempty : numbers ≠ [])
    (bound : ℚ) : largest numbers ≤ bound ↔ ∀ number ∈ numbers, number ≤ bound :=
  largest_iff (· ≤ bound) (fun _ _ => max_le_iff) nonempty

/-- Samples at some times can be drawn in a chart: there are samples, and some time is
positive, or all are negative. -/
def Charted (times : List ℚ) : Prop :=
  times ≠ [] ∧ ((∃ time ∈ times, 0 < time) ∨ ∀ time ∈ times, time < 0)

/-- The largest time of a chart is not zero. -/
theorem charted_iff (times : List ℚ) : Charted times ↔ times ≠ [] ∧ largest times ≠ 0 := by
  refine and_congr_right fun nonempty => ?_
  rw [ne_iff_lt_or_gt, largest_lt_iff nonempty, or_comm, ← not_le,
    largest_le_iff nonempty]
  simp

/-- Charts. -/
@[simp] theorem safe_drawChart
    (color : Color)
    (fill : Bool)
    (rect : Rect)
    (data : List Point)
    (procTree : ProcTree)
    (dataRange : Option (ℚ × ℚ)) :
    (drawChart color fill rect data procTree dataRange).Safe ↔
      Charted (data.map Prod.fst) := by
  rw [charted_iff]
  unfold drawChart
  cases dataRange <;> cases fill <;> simp [Event.Safe, maxX]

/-! ## Processes -/

/-- A drawing that divides by a positive duration only is safe. -/
theorem OnlyPerDuration.safe
    {duration : ℚ}
    {drawing : Drawing}
    (only : OnlyPerDuration duration drawing)
    (positive : 0 < duration) : drawing.Safe := by
  intro event member
  rcases only event member with rfl | ⟨command, rfl⟩
  · exact positive
  · trivial

/-- Trees. -/
theorem Scene.safe_drawRoots
    (scene : Scene)
    (clip : Clip)
    (y : ℚ)
    (forest : Forest ProcessId) :
    (scene.drawRoots clip y forest).Safe ↔
      (forest ≠ .nil → 0 < scene.procTree.duration) := by
  cases forest with
  | nil => simp [drawRoots]
  | cons root childList siblings =>
      constructor
      · intro safe _
        apply safe (.perDuration scene.procTree.duration)
        simp [drawRoots, drawProcessesRecursively, drawRow]
      · intro positive
        exact (scene.onlyPerDuration_drawRoots clip y _).safe (positive (by simp))

/-- Something in a picture is placed by its time. -/
def ShowsTimes (procTree : ProcTree) (times : List (Option ℚ)) : Prop :=
  (∃ time, some time ∈ times) ∨ procTree.processTree ≠ .nil

/-- The chart of the processes. -/
theorem safe_drawProcessBarChart
    (canvas : Canvas)
    (clip : Clip)
    (options : AppOptions)
    (kernelOnly : Bool)
    (procTree : ProcTree)
    (times : List (Option ℚ))
    (currY w h : ℚ)
    (secW : ℤ) :
    (drawProcessBarChart canvas clip options kernelOnly procTree times currY w h secW).Safe ↔
      1 ≤ secW ∧ (ShowsTimes procTree times → 0 < procTree.duration) := by
  have legends : Drawing.Safe (if kernelOnly then []
    else
      drawLegendBox "Running (%cpu)".toList procColorR offset (currY + 45) legS ++
      drawLegendBox "Unint.sleep (I/O)".toList procColorD (offset + 120) (currY + 45) legS ++
      drawLegendBox "Sleeping".toList procColorS (offset + 240) (currY + 45) legS ++
      drawLegendBox "Zombie".toList procColorZ (offset + 360) (currY + 45) legS) := by
    cases kernelOnly <;> simp
  unfold drawProcessBarChart drawFrame
  simp only [safe_append, legends, true_and, safe_drawBoxTicks, safe_drawSecLabels,
    safe_drawAnnotations, Scene.safe_drawRoots, and_self, ShowsTimes, or_imp, and_assoc]

/-! ## The charts of a trace -/

/-- The times of the processor samples. -/
def cpuTimes (trace : Made) : List ℚ :=
  trace.stats.cpuStats.map fun sample => sample.time.getD 0

/-- The times of the disk samples. -/
def diskTimes (trace : Made) : List ℚ :=
  trace.stats.diskStats.map fun sample => sample.time

/-- The times of the memory samples. -/
def memTimes (memStats : List MemSample) : List ℚ :=
  memStats.map fun sample => sample.time

/-- Some annotation is shown only if the tree has a duration. -/
def Annotated (procTree : ProcTree) (times : List (Option ℚ)) : Prop :=
  (∃ time, some time ∈ times) → 0 < procTree.duration

section Charts

variable {canvas : Canvas} {clip : Clip} {procTree : ProcTree} {trace : Made}
  {chartRect : Rect} {currY w : ℚ} {secW : ℤ}

@[simp] theorem map_fst_cpuData (value : CPUSample → ℚ) :
    (cpuData trace value).map Prod.fst = cpuTimes trace := by
  simp [cpuData, cpuTimes]

@[simp] theorem map_fst_diskData (value : DiskSample → ℚ) :
    (diskData trace value).map Prod.fst = diskTimes trace := by
  simp [diskData, diskTimes]

@[simp] theorem map_fst_memData (memStats : List MemSample) (value : MemSample → ℚ) :
    (memData memStats value).map Prod.fst = memTimes memStats := by
  simp [memData, memTimes]

/-- Processors. -/
theorem safe_cpuCharts :
    (cpuCharts clip procTree trace chartRect secW).Safe ↔
      (clipVisible clip chartRect → 1 ≤ secW ∧ Annotated procTree trace.times ∧
        Charted (cpuTimes trace)) := by
  rw [cpuCharts, safe_ite]
  refine imp_congr_right fun _ => ?_
  simp [Annotated]

/-- Disks. -/
theorem safe_diskCharts :
    (diskCharts canvas clip procTree trace chartRect currY secW).Safe ↔
      (clipVisible clip chartRect → 1 ≤ secW ∧ Annotated procTree trace.times ∧
        Charted (diskTimes trace)) ∧
      trace.stats.diskStats ≠ [] ∧ 0 < procTree.duration := by
  unfold diskCharts Annotated
  have label : ∀ sample : Option DiskSample, Drawing.Safe (sample.map fun sample =>
      let posX := offset + procTree.timeX chartRect sample.time
      let shift : Point := if posX < offset + 245 then (5, 40) else (-20, 20)
      let label := Library.Text.decimal (canvas.round (tput sample / 1024)) ++ "MB/s".toList
      Event.command (.showText label diskTputColor (posX + shift.1)
        (currY + shift.2))).toList := by
    intro sample
    cases sample <;> simp
  simp only [safe_append, safe_ite, safe_drawBoxTicks, safe_drawAnnotations, safe_drawChart,
    map_fst_diskData, safe_cons, safe_nil, and_true, label, Event.Safe, List.map_eq_nil_iff,
    ne_eq]
  tauto

/-- Memory. -/
theorem safe_memCharts
    {memStats : List MemSample}
    (nonempty : memStats ≠ []) :
    (memCharts procTree trace memStats chartRect currY secW).Safe ↔
      1 ≤ secW ∧ Annotated procTree trace.times ∧ Charted (memTimes memStats) := by
  unfold memCharts Annotated
  simp [Event.Safe, nonempty]

/-- All charts. -/
theorem safe_renderCharts :
    (renderCharts canvas clip procTree trace currY w secW).1.Safe ↔
      (clipVisible clip ⟨offset, currY + 30, w, barH⟩ → 1 ≤ secW ∧
        Annotated procTree trace.times ∧ Charted (cpuTimes trace)) ∧
      ((clipVisible clip ⟨offset, currY + 30 + barH + 30, w, barH⟩ → 1 ≤ secW ∧
        Annotated procTree trace.times ∧ Charted (diskTimes trace)) ∧
        trace.stats.diskStats ≠ [] ∧ 0 < procTree.duration) ∧
      (trace.memStats.getD [] ≠ [] ∧
        clipVisible clip ⟨offset, currY + 30 + barH + 30 + barH + 30, w, meminfoBarH⟩ →
          1 ≤ secW ∧ Annotated procTree trace.times ∧
            Charted (memTimes (trace.memStats.getD []))) := by
  unfold renderCharts
  simp only [safe_append, safe_drawLegendBox, safe_drawLegendLine, true_and, and_true,
    safe_cpuCharts, safe_diskCharts, safe_ite, and_assoc]
  refine and_congr_right fun _ => and_congr_right fun _ => and_congr_right fun _ =>
    and_congr_right fun _ => imp_congr_right fun shown => ?_
  rw [safe_memCharts shown.1]

end Charts

/-! ## The duration of a tree -/

/-- Some process of a tree starts before some process of it ends. The sentinels count as
times too: `100000000` as a start, and `-100000000` as an end. -/
def Spans (objects : Objects) (forest : Forest ProcessId) : Prop :=
  ∃ starts ∈ 100000000 :: forest.toList.map fun proc => (objects proc).startTime,
    ∃ ends ∈ -100000000 :: forest.toList.map fun proc => (objects proc).getEndTime,
      starts < ends

/-- These are the trees with a duration. -/
theorem spans_iff (objects : Objects) (forest : Forest ProcessId) :
    Spans objects forest ↔
      0 < ProcessTree.getEndTime objects forest -
        ProcessTree.getStartTime objects forest := by
  rw [sub_pos, ← not_iff_not, not_lt, ProcessTree.getEndTime_le]
  simp only [ProcessTree.le_getStartTime, Spans, not_exists, not_and, not_lt,
    List.forall_mem_cons, List.forall_mem_map]
  exact ⟨fun apart => ⟨⟨apart.1.1, fun proc member => (apart.2 proc member).1⟩,
      fun proc member => ⟨apart.1.2 proc member,
        fun other inTree => (apart.2 other inTree).2 proc member⟩⟩,
    fun apart => ⟨⟨apart.1.1, fun proc member => (apart.2 proc member).1⟩,
      fun proc member => ⟨apart.1.2 proc member,
        fun other inTree => (apart.2 other inTree).2 proc member⟩⟩⟩

/-- The trees of a trace have the durations of their processes. -/
theorem spans_procTree
    {paths : List Text}
    {files : List Trace.File}
    {options : Trace.Options}
    {made : Made}
    (isMade : Trace.init paths files options = .ok made)
    (renderOptions : RenderOptions) :
    Spans (renderOptions.procTree made).objects (renderOptions.procTree made).processTree ↔
      0 < (renderOptions.procTree made).duration := by
  rw [spans_iff]
  unfold RenderOptions.procTree
  split
  · exact Iff.rfl
  · obtain ⟨state, stats, idle, -, -, -, -, -, isTree⟩ := Trace.init_eq_ok isMade
    rw [ProcessTree.init, ProcessTree.finish_eq] at isTree
    obtain ⟨first, -, isFinished⟩ := Option.map_eq_some_iff.mp isTree
    rw [mainTree, ← isFinished]
    exact Iff.rfl

/-! ## The picture of a trace -/

/-- A number that is cut off is positive if and only if it was one at least. -/
theorem truncate_pos (number : ℚ) : 0 < truncate number ↔ 1 ≤ number := by
  unfold truncate
  split
  next negative =>
    refine iff_of_false (not_lt.mpr ?_) (by linarith)
    exact Int.ceil_le.mpr (by simpa using negative.le)
  next => rw [Int.floor_pos]

/-- Nothing without a width is visible. -/
theorem width_pos_of_clipVisible
    {clip : Clip}
    {rect : Rect}
    (visible : clipVisible clip rect) : 0 < rect.width := by
  cases clip with
  | none => exact (of_decide_eq_true visible).1
  | some clip =>
      have overlap := (of_decide_eq_true visible).1
      have inside := (max_lt_iff.mp overlap).2
      have shorter := (lt_min_iff.mp inside).2
      linarith

/-- A trace has what is drawn of it at a scale. -/
structure Renderable (options : RenderOptions) (trace : Made) (xscale : ℚ) : Prop where
  /-- Where times are shown, the tree has a duration. -/
  spans : options.charts ∨ ShowsTimes (options.procTree trace) trace.times →
    Spans (options.procTree trace).objects (options.procTree trace).processTree
  /-- There are disk samples. -/
  disks : options.charts → trace.stats.diskStats ≠ []
  /-- If the charts have a width, their samples can be drawn. -/
  charts : options.charts → 2 ≤ (options.procTree trace).duration * xscale →
    Charted (cpuTimes trace) ∧ Charted (diskTimes trace) ∧
      (trace.memStats.getD [] ≠ [] → Charted (memTimes (trace.memStats.getD [])))

section Render

variable {options : RenderOptions} {trace : Made} {xscale : ℚ}

/-- When the charts have a width. -/
theorem width_pos_iff :
    0 < (extents options xscale trace).1 - 2 * offset ↔
      2 ≤ (options.procTree trace).duration * xscale := by
  rw [extents, add_sub_cancel_right, Int.cast_pos, truncate_pos, secWBase]
  constructor
  · intro wide
    linarith
  · intro long
    linarith

/-- When a second has a width. -/
theorem one_le_secW : 1 ≤ secW xscale ↔ 1 ≤ xscale * secWBase :=
  truncate_pos (xscale * secWBase)

/-- A cumulative graph is safe if the tree has a duration and a second has a width. -/
theorem safe_drawCumlGraph
    {graph : CumlGraph}
    (positive : 0 < graph.procTree.duration)
    {secW : ℤ}
    (wideSeconds : 1 ≤ secW)
    (duration : ℚ) : (graph.drawCumlGraph duration secW).Safe := by
  intro event member
  rcases graph.mem_drawCumlGraph member with rfl | isTick | ⟨color, rect, rfl⟩ |
    ⟨text, color, x, y, rfl⟩ | ⟨text, color, x, y, inLegend⟩
  · exact positive
  · exact (safe_drawBoxTicks _ _).mpr wideSeconds event isTick
  · trivial
  · trivial
  · exact safe_drawLegendBox text color x y legS event inLegend

/-- So are both graphs. -/
theorem safe_cumlGraphs
    (canvas : Canvas)
    (clip : Clip)
    (wideSeconds : 1 ≤ secW xscale)
    (positive : (options.procTree trace).taskstats ∧ options.cumulative →
      0 < (options.procTree trace).duration) :
    (cumlGraphs canvas clip options xscale trace).Safe := by
  unfold cumlGraphs
  rw [safe_ite]
  intro graphs
  rw [safe_append]
  unfold cumlGraph
  constructor
  all_goals
    rw [safe_ite]
    exact fun _ => safe_drawCumlGraph (positive graphs) wideSeconds _

/-- A picture is safe if its parts are. -/
theorem safe_render (canvas : Canvas) (clip : Clip) :
    (render canvas clip options xscale trace).Safe ↔
      (options.charts → (renderCharts canvas clip (options.procTree trace) trace
        (if options.kernelOnly then offset else headerEnd canvas)
        ((extents options xscale trace).1 - 2 * offset) (secW xscale)).1.Safe) ∧
      (1 ≤ xscale * secWBase ∧
        (ShowsTimes (options.procTree trace) trace.times →
          0 < (options.procTree trace).duration)) ∧
      (cumlGraphs canvas clip options xscale trace).Safe := by
  unfold render
  simp only [safe_cons, safe_append, safe_drawProcessBarChart, safe_command, safe_nil,
    and_true, true_and, one_le_secW, and_assoc]
  refine and_congr_left fun _ => ?_
  cases options.charts <;> simp

/-- The picture of a trace is safe in every clip if and only if a second is at least a point
wide, and the trace has what is drawn. -/
theorem safe_render_iff_renderable
    (spansTree : Spans (options.procTree trace).objects
        (options.procTree trace).processTree ↔ 0 < (options.procTree trace).duration)
    (graphs : (options.procTree trace).taskstats ∧ options.cumulative → options.charts)
    (canvas : Canvas) :
    (∀ clip, (render canvas clip options xscale trace).Safe) ↔
      1 ≤ xscale * secWBase ∧ Renderable options trace xscale := by
  simp only [safe_render, safe_renderCharts]
  constructor
  · intro safe
    obtain ⟨charts, ⟨wideSeconds, shown⟩, -⟩ := safe none
    refine ⟨wideSeconds, fun drawn => ?_, fun isDrawn => (charts isDrawn).2.1.2.1,
      fun isDrawn long => ?_⟩
    · rw [spansTree]
      rcases drawn with isDrawn | showsTimes
      · exact (charts isDrawn).2.1.2.2
      · exact shown showsTimes
    · have wide := width_pos_iff.mpr long
      obtain ⟨cpu, ⟨disk, -⟩, memory⟩ := charts isDrawn
      have barVisible (y : ℚ) : clipVisible none
          ⟨offset, y, (extents options xscale trace).1 - 2 * offset, barH⟩ :=
        decide_eq_true ⟨wide, by norm_num [barH]⟩
      have memVisible (y : ℚ) : clipVisible none
          ⟨offset, y, (extents options xscale trace).1 - 2 * offset, meminfoBarH⟩ :=
        decide_eq_true ⟨wide, by norm_num [meminfoBarH, barH]⟩
      exact ⟨(cpu (barVisible _)).2.2, (disk (barVisible _)).2.2,
        fun someMemory => (memory ⟨someMemory, memVisible _⟩).2.2⟩
  · rintro ⟨wideSeconds, renderable⟩ clip
    refine ⟨fun isDrawn => ?_, ⟨wideSeconds,
      fun showsTimes => spansTree.mp (renderable.spans (.inr showsTimes))⟩,
      safe_cumlGraphs canvas clip (one_le_secW.mpr wideSeconds) fun shown =>
        spansTree.mp (renderable.spans (.inl (graphs shown)))⟩
    have positive := spansTree.mp (renderable.spans (.inl isDrawn))
    have steps := one_le_secW.mpr wideSeconds
    have charted (rect : Rect)
        (sameWidth : rect.width = (extents options xscale trace).1 - 2 * offset)
        (visible : clipVisible clip rect) :=
      renderable.charts isDrawn
        (width_pos_iff.mp (sameWidth ▸ width_pos_of_clipVisible visible))
    exact ⟨fun visible => ⟨steps, fun _ => positive, (charted _ rfl visible).1⟩,
      ⟨fun visible => ⟨steps, fun _ => positive, (charted _ rfl visible).2.1⟩,
        renderable.disks isDrawn, positive⟩,
      fun visible => ⟨steps, fun _ => positive,
        (charted _ rfl visible.2).2.2 visible.1⟩⟩

end Render

/-- On every page of a trace, rendering is safe after any presses if and only if the page
was never contracted more than nine times (thirteen for the kernel) more often than
expanded, and the trace has what is drawn. -/
theorem safe_render_iff
    {paths : List Text}
    {files : List Trace.File}
    {options : Trace.Options}
    {made : Made}
    (isMade : Trace.init paths files options = .ok made)
    (canvas : Canvas)
    (appOptions : AppOptions)
    (view : View)
    (presses : List Press) :
    (∀ done, done <+: presses → ∀ clip,
      (render canvas clip (view.options appOptions) (view.scaleAfter done) made).Safe) ↔
    ∀ done, done <+: presses →
      done.count .contract ≤ done.count .expand + view.spare ∧
        Renderable (view.options appOptions) made (view.scaleAfter done) := by
  refine forall₂_congr fun done _ => ?_
  have graphs : ((view.options appOptions).procTree made).taskstats ∧
      (view.options appOptions).cumulative → (view.options appOptions).charts := by
    cases view with
    | fullTree => exact fun _ => rfl
    | kernelBoot => exact fun shown => absurd shown.2 Bool.false_ne_true
  rw [safe_render_iff_renderable (spans_procTree isMade _) graphs, View.one_le_scaleAfter]

/-- A log of disk counters in two frames. -/
def diskFrames : Parsing.Bytes :=
  Parsing.logBytes
    [(1, [Library.Utf8.encode "8 0 sda 0 0 0 0 0 0 0 0 0 0 0".toList]),
      (3, [Library.Utf8.encode "8 0 sda 0 0 8 0 0 0 8 0 0 10 0".toList])]

/-- What is logged of memory with some space that is free. -/
def memLines (free : String) : List Parsing.Bytes :=
  ["MemTotal: 9", "MemFree: " ++ free, "Buffers: 1", "Cached: 2", "SwapTotal: 4",
    "SwapFree: 1"].map fun line => Library.Utf8.encode line.toList

/-- A trace of one process, with samples for all charts. -/
def fullTrace : List Trace.File :=
  [("header".toList, []), ("proc_diskstats.log".toList, diskFrames),
    ("proc_stat.log".toList, cpuFrames),
    ("proc_meminfo.log".toList, Parsing.logBytes [(1, memLines "5"), (3, memLines "4")]),
    ("paternity.log".toList, []), ("proc_ps.log".toList, Trace.twoFrames)]

/-- It is rendered safely, expanded and contracted, but not when it is contracted ten times. -/
theorem safe_render_fullTrace :
    ∃ made, Trace.init [] fullTrace { cropAfter := none, annotate := [], prune := false } =
        .ok made ∧
      (∀ done, done <+: [.expand, .contract] → ∀ clip,
        (render fixedWidth clip (View.fullTree.options { showPid := false, showAll := false })
          (View.fullTree.scaleAfter done) made).Safe) ∧
      ¬∀ done, done <+: List.replicate 10 .contract → ∀ clip,
        (render fixedWidth clip (View.fullTree.options { showPid := false, showAll := false })
          (View.fullTree.scaleAfter done) made).Safe := by
  obtain ⟨made, isMade, -, values⟩ := Trace.Made.exists_of_inOrder [] fullTrace
    { cropAfter := none, annotate := [], prune := false }
    (fun made => decide (0 < made.procTree.duration) &&
      decide (cpuTimes made = [3] ∧ diskTimes made = [3] ∧
        memTimes (made.memStats.getD []) = [1, 3]))
    (by decide +kernel)
  obtain ⟨isLong, values⟩ := Bool.and_eq_true_iff.mp values
  obtain ⟨cpus, disks, memory⟩ := of_decide_eq_true values
  refine ⟨made, isMade, (safe_render_iff isMade _ _ _ _).mpr fun done isPrefix => ?_,
    fun safe => ?_⟩
  · have contracted : done.count .contract ≤ 1 := isPrefix.sublist.count_le .contract
    have spare : 1 ≤ done.count .expand + View.fullTree.spare :=
      le_add_left (by decide)
    refine ⟨contracted.trans spare, ⟨fun _ => ?_, fun _ absent => ?_, fun _ _ => ?_⟩⟩
    · exact (spans_procTree isMade _).mpr (of_decide_eq_true isLong)
    · rw [diskTimes, absent, List.map_nil] at disks
      exact absurd disks (List.cons_ne_nil _ _).symm
    · rw [cpus, disks, memory]
      simp [Charted]
  · have most := ((safe_render_iff isMade _ _ _ _).mp safe _ List.prefix_rfl).1
    exact absurd most (by decide)

/-- A trace without disk samples is accepted, but not rendered safely; and after ten
contractions no trace is. -/
theorem not_safe_render_smallTrace :
    ∃ made, Trace.init [] Trace.smallTrace
        { cropAfter := none, annotate := [], prune := true } = .ok made ∧
      ¬(render fixedWidth none (View.fullTree.options { showPid := false, showAll := false })
        (View.fullTree.scaleAfter []) made).Safe ∧
      ¬(render fixedWidth none (View.fullTree.options { showPid := false, showAll := false })
        (View.fullTree.scaleAfter (List.replicate 10 .contract)) made).Safe := by
  have returns : (Trace.init [] Trace.smallTrace
      { cropAfter := none, annotate := [], prune := true }).toOption.any fun made =>
        made.stats.diskStats = [] := by
    decide +kernel
  cases isMade : Trace.init [] Trace.smallTrace
      { cropAfter := none, annotate := [], prune := true } with
  | error failure =>
      rw [isMade] at returns
      contradiction
  | ok made =>
      rw [isMade] at returns
      have noDisks : made.stats.diskStats = [] := of_decide_eq_true returns
      refine ⟨made, rfl, fun safe => ?_, fun safe => ?_⟩
      · have charts := ((safe_render _ _).mp safe).1 rfl
        exact (safe_renderCharts.mp charts).2.1.2.1 noDisks
      · have wide := ((safe_render _ _).mp safe).2.1.1
        rw [View.one_le_scaleAfter] at wide
        exact absurd wide (by decide)

end Draw
end Bootchart
