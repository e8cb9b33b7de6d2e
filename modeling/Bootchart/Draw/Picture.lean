import Bootchart.Draw.Rows
import Bootchart.Draw.Safety
import Mathlib.Tactic.NormNum
import Mathlib.Tactic.Positivity

/-!
# The place of the rows in the picture

`extents` reserves a height for the header, the charts and one row for each process. The rows
begin where `render_charts` ends; that depends on whether the chart of the memory shows.
-/

namespace Bootchart
namespace Draw

open Library (Text Forest)
open Trace (Made)

/-! ## What has no rows -/

/-- A box of a legend is not as high as a row. -/
theorem rowless_drawLegendBox (label : Text) (color : Color) (x y : ℚ) :
    Rowless (drawLegendBox label color x y legS) := by
  have otherHeight : legS ≠ procH := by
    norm_num [legS, procH]
  simp [drawLegendBox, Command.Rowless, otherHeight, Command.box?, Command.connects]

/-- A line of a legend is a rectangle and a circle. -/
theorem rowless_drawLegendLine (label : Text) (color : Color) (x y s : ℚ) :
    Rowless (drawLegendLine label color x y s) := by
  simp [drawLegendLine, Command.Rowless, Command.box?, Command.connects]

/-- Ticks have colors of their own. -/
theorem rowless_drawBoxTicks (rect : Rect) (secW : ℤ) : Rowless (drawBoxTicks rect secW) := by
  have noBox : Command.box? (.strokeRect borderColor rect) = none := by
    rw [Command.box?, if_neg]
    rintro ⟨sameColor, -⟩
    norm_num [borderColor, procBorderColor] at sameColor
  have noLine : ∀ second : Nat,
      (if second % 5 = 0 then tickColorBold else tickColor) ≠ depColor := by
    intro second
    split
    · norm_num [tickColorBold, depColor]
    · norm_num [tickColor, depColor]
  intro command member
  rcases List.mem_append.mp member with isFirst | isTick
  · rcases List.mem_cons.mp isFirst with same | rest
    · cases same
      exact ⟨noBox, rfl⟩
    · rw [List.mem_singleton] at rest
      cases rest
  · obtain ⟨second, -, same⟩ := List.mem_map.mp isTick
    cases same
    exact ⟨rfl, decide_eq_false (noLine second)⟩

/-- Labels of ticks are texts. -/
theorem rowless_drawSecLabels (canvas : Canvas) (rect : Rect) (secW : ℤ) (nsecs : Nat) :
    Rowless (drawSecLabels canvas rect secW nsecs) := by
  have labels : ∀ seconds prevX,
      Rowless (secLabelsFrom canvas rect secW nsecs prevX seconds) := by
    intro seconds
    induction seconds with
    | nil => exact fun _ => rowless_nil
    | cons second rest inductionHypothesis =>
        intro prevX
        rw [secLabelsFrom]
        split
        · exact (rowless_command _ _).mpr ⟨⟨rfl, rfl⟩, inductionHypothesis _⟩
        · exact inductionHypothesis _
  exact (rowless_steps _ _).mpr (labels _ _)

/-- Annotations have a color of their own. -/
theorem rowless_drawAnnotations
    (procTree : ProcTree)
    (times : List (Option ℚ))
    (rect : Rect) : Rowless (drawAnnotations procTree times rect) := by
  have noLine : annotationColor ≠ depColor := by
    norm_num [annotationColor, depColor]
  intro command member
  obtain ⟨time, -, inTime⟩ := List.mem_flatMap.mp member
  cases time with
  | none => exact absurd inTime List.not_mem_nil
  | some time =>
      rcases List.mem_cons.mp inTime with same | rest
      · cases same
      · rw [List.mem_singleton] at rest
        cases rest
        exact ⟨rfl, decide_eq_false noLine⟩

/-- Charts have colors of their own. -/
theorem rowless_drawChart
    {color : Color}
    (other : color ≠ depColor)
    (fill : Bool)
    (chartBounds : Rect)
    (data : List Point)
    (procTree : ProcTree)
    (dataRange : Option (ℚ × ℚ)) :
    Rowless (drawChart color fill chartBounds data procTree dataRange) := by
  have area : ∀ points, Rowless (if fill then [.command (.fillPath color points)] else []) := by
    intro points
    cases fill <;> simp [Command.Rowless, Command.box?, Command.connects]
  unfold drawChart
  dsimp only
  rw [rowless_append, rowless_append, rowless_command]
  refine ⟨⟨by simp, ?_⟩, ⟨rfl, decide_eq_false other⟩, area _⟩
  cases dataRange <;> simp

/-! ## The charts -/

/-- The colors of the charts. -/
theorem chart_colors :
    cpuColor ≠ depColor ∧ ioColor ≠ depColor ∧ diskTputColor ≠ depColor ∧
      memBuffersColor ≠ depColor := by
  norm_num [cpuColor, ioColor, diskTputColor, memBuffersColor, depColor]

theorem rowless_cpuCharts
    (clip : Clip)
    (procTree : ProcTree)
    (trace : Made)
    (chartRect : Rect)
    (secW : ℤ) : Rowless (cpuCharts clip procTree trace chartRect secW) := by
  rw [cpuCharts]
  split
  · simp only [rowless_append, rowless_drawBoxTicks, rowless_drawAnnotations,
      rowless_drawChart chart_colors.1, rowless_drawChart chart_colors.2.1, and_self]
  · exact rowless_nil

theorem rowless_diskCharts
    (canvas : Canvas)
    (clip : Clip)
    (procTree : ProcTree)
    (trace : Made)
    (chartRect : Rect)
    (currY : ℚ)
    (secW : ℤ) : Rowless (diskCharts canvas clip procTree trace chartRect currY secW) := by
  have first : Rowless (if clipVisible clip chartRect then
      drawBoxTicks chartRect secW ++ drawAnnotations procTree trace.times chartRect ++
        drawChart ioColor true chartRect (diskData trace DiskSample.util) procTree none
      else []) := by
    split
    · simp only [rowless_append, rowless_drawBoxTicks, rowless_drawAnnotations,
        rowless_drawChart chart_colors.2.1, and_self]
    · exact rowless_nil
  have second : Rowless (if clipVisible clip chartRect then
      drawChart diskTputColor false chartRect (diskData trace tput) procTree none
      else []) := by
    split
    · exact rowless_drawChart chart_colors.2.2.1 _ _ _ _ _
    · exact rowless_nil
  rw [diskCharts, rowless_append, rowless_append, rowless_append, rowless_append]
  refine ⟨⟨⟨⟨first, by simp⟩, second⟩, by simp⟩, ?_⟩
  cases maxSample trace.stats.diskStats with
  | none => exact rowless_nil
  | some sample => exact (rowless_command _ _).mpr ⟨⟨rfl, rfl⟩, rowless_nil⟩

theorem rowless_memCharts
    (procTree : ProcTree)
    (trace : Made)
    (memStats : List MemSample)
    (chartRect : Rect)
    (currY : ℚ)
    (secW : ℤ) : Rowless (memCharts procTree trace memStats chartRect currY secW) := by
  rw [memCharts]
  simp only [rowless_maximum, rowless_append, rowless_drawLegendBox, rowless_drawLegendLine,
    rowless_drawBoxTicks, rowless_drawAnnotations, memUsedColor, memCachedColor, memSwapColor,
    rowless_drawChart chart_colors.1,
    rowless_drawChart chart_colors.2.1, rowless_drawChart chart_colors.2.2.1,
    rowless_drawChart chart_colors.2.2.2, and_self]

theorem rowless_renderCharts
    (canvas : Canvas)
    (clip : Clip)
    (procTree : ProcTree)
    (trace : Made)
    (currY w : ℚ)
    (secW : ℤ) : Rowless (renderCharts canvas clip procTree trace currY w secW).1 := by
  rw [renderCharts]
  simp only [rowless_append, rowless_drawLegendBox, rowless_drawLegendLine, rowless_cpuCharts,
    rowless_diskCharts, true_and]
  split
  · exact rowless_memCharts _ _ _ _ _ _
  · exact rowless_nil

theorem rowless_drawFrame
    (canvas : Canvas)
    (kernelOnly : Bool)
    (procTree : ProcTree)
    (times : List (Option ℚ))
    (currY : ℚ)
    (rect : Rect)
    (secW : ℤ) : Rowless (drawFrame canvas kernelOnly procTree times currY rect secW) := by
  rw [drawFrame]
  simp only [rowless_append, rowless_drawBoxTicks, rowless_drawSecLabels,
    rowless_drawAnnotations, and_true]
  split
  · exact rowless_nil
  · simp only [rowless_append, rowless_drawLegendBox, and_self]

/-- The cumulative graphs have no rows. -/
theorem rowless_drawCumlGraph (graph : CumlGraph) (duration : ℚ) (secW : ℤ) :
    Rowless (graph.drawCumlGraph duration secW) := by
  intro command member
  rcases graph.mem_drawCumlGraph member with isDivision | isTick | ⟨color, rect, isRect⟩ |
    ⟨text, color, x, y, isText⟩ | ⟨text, color, x, y, inLegend⟩
  · cases isDivision
  · exact rowless_drawBoxTicks _ _ command isTick
  · cases isRect
    exact ⟨rfl, rfl⟩
  · cases isText
    exact ⟨rfl, rfl⟩
  · exact rowless_drawLegendBox text color x y command inLegend

theorem rowless_cumlGraphs
    (canvas : Canvas)
    (clip : Clip)
    (options : RenderOptions)
    (xscale : ℚ)
    (trace : Made) : Rowless (cumlGraphs canvas clip options xscale trace) := by
  unfold cumlGraphs
  dsimp only
  split
  · rw [rowless_append]
    unfold cumlGraph
    dsimp only
    constructor
    all_goals
      split
      · exact rowless_drawCumlGraph _ _ _
      · exact rowless_nil
  · exact rowless_nil

/-! ## The rows of a picture -/

variable (canvas : Canvas) (clip : Clip) (options : RenderOptions) (xscale : ℚ) (trace : Made)

/-- Where the chart of the memory is drawn. -/
def memoryRect : Rect :=
  ⟨offset, (if options.kernelOnly then offset else headerEnd canvas) + 2 * (30 + barH) + 30,
    (extents options xscale trace).1 - 2 * offset, meminfoBarH⟩

/-- Whether the charts end with one of the memory. -/
def ShowsMemory : Prop :=
  options.charts = true ∧ trace.memStats.getD [] ≠ [] ∧
    clipVisible clip (memoryRect canvas options xscale trace) = true

instance : Decidable (ShowsMemory canvas clip options xscale trace) :=
  inferInstanceAs (Decidable (_ ∧ _ ∧ _))

/-- Where the first row begins. -/
def rowsTop : ℚ :=
  (if options.kernelOnly then offset else headerEnd canvas) +
    (if options.charts then 2 * (30 + barH) else 0) +
    (if ShowsMemory canvas clip options xscale trace then meminfoBarH else 0) + 60

/-- What the rows are drawn with, but for the height of the chart. -/
def rowScene : Scene where
  canvas := canvas
  options := options.appOptions
  procTree := options.procTree trace
  rect := ⟨offset, 0, (extents options xscale trace).1 - 2 * offset, 0⟩

/-- The height of a chart does not matter for its rows. -/
theorem rowBox_congr
    (first second : Scene)
    (sameTree : first.procTree = second.procTree)
    (sameX : first.rect.x = second.rect.x)
    (sameWidth : first.rect.width = second.rect.width) (y : ℚ) :
    first.rowBox y = second.rowBox y := by
  funext row
  rw [Scene.rowBox, Scene.rowBox, Scene.processX, Scene.processX, Scene.processW,
    Scene.processW, Scene.process, Scene.process, ProcTree.timeX, ProcTree.timeX, sameTree,
    sameX, sameWidth]

/-- The boxes of a picture are those of its rows. -/
theorem allBoxes_render :
    (render canvas clip options xscale trace).allBoxes =
      (((options.procTree trace).processTree.numbered 0).toList.filter fun row =>
        row ∈ ((options.procTree trace).processTree.numbered 0).roots ∨
          Scene.reaches clip (rowsTop canvas clip options xscale trace) row).map
        ((rowScene canvas options xscale trace).rowBox
          (rowsTop canvas clip options xscale trace)) := by
  have places : ∀ (scene : Scene) (top : ℚ),
      scene.procTree = options.procTree trace → scene.rect.x = offset →
      scene.rect.width = (extents options xscale trace).1 - 2 * offset →
      top = rowsTop canvas clip options xscale trace →
      (scene.drawRoots clip top (options.procTree trace).processTree).allBoxes =
        (((options.procTree trace).processTree.numbered 0).toList.filter fun row =>
          row ∈ ((options.procTree trace).processTree.numbered 0).roots ∨
            Scene.reaches clip (rowsTop canvas clip options xscale trace) row).map
          ((rowScene canvas options xscale trace).rowBox
            (rowsTop canvas clip options xscale trace)) := by
    rintro scene top sameTree sameX sameWidth rfl
    rw [scene.allBoxes_drawRoots clip,
      rowBox_congr scene (rowScene canvas options xscale trace) sameTree sameX sameWidth]
  have ends : Rowless [.command (.showText signature sigColor (offset + 5)
      ((extents options xscale trace).2 - (if (options.procTree trace).taskstats ∧
        options.cumulative then cumlHeight else 0) - 8))] := by
    simp [Command.Rowless, Command.box?, Command.connects]
  rw [render, allBoxes_command ⟨rfl, rfl⟩, allBoxes_append, allBoxes_append, allBoxes_append,
    ends.allBoxes_eq, (rowless_cumlGraphs _ _ _ _ _).allBoxes_eq, List.append_nil,
    List.append_nil, drawProcessBarChart, allBoxes_append,
    (rowless_drawFrame _ _ _ _ _ _ _).allBoxes_eq, List.nil_append]
  cases isCharts : options.charts with
  | true =>
      rw [if_pos rfl, (rowless_renderCharts _ _ _ _ _ _ _).allBoxes_eq, List.nil_append]
      apply places _ _ rfl rfl rfl
      rw [rowsTop, if_pos isCharts]
      have sameRect : ∀ top : ℚ, top + 30 + barH + 30 + barH = top + 2 * (30 + barH) := fun top => by
        ring
      have isShown : ShowsMemory canvas clip options xscale trace ↔
          trace.memStats.getD [] ≠ [] ∧
            clipVisible clip (memoryRect canvas options xscale trace) = true := by
        rw [ShowsMemory, and_iff_right isCharts]
      simp only [renderCharts, sameRect, isShown, memoryRect]
  | false =>
      rw [if_neg Bool.false_ne_true]
      apply places _ _ rfl rfl rfl
      have hidden : ¬ShowsMemory canvas clip options xscale trace := by
        rw [ShowsMemory, isCharts]
        exact fun shows => Bool.false_ne_true shows.1
      rw [rowsTop, isCharts, if_neg Bool.false_ne_true, if_neg hidden, add_zero, add_zero]

/-- Without a clip all rows are drawn. -/
theorem allBoxes_render_none :
    (render canvas none options xscale trace).allBoxes =
      ((options.procTree trace).processTree.numbered 0).toList.map
        ((rowScene canvas options xscale trace).rowBox
          (rowsTop canvas none options xscale trace)) := by
  rw [allBoxes_render, List.filter_eq_self.mpr]
  intro row _
  exact decide_eq_true (Or.inr rfl)

/-! ## The full tree -/

/-- A tree lies between its start and its end, and its processes are counted. -/
structure Fits (procTree : ProcTree) : Prop where
  /-- No process starts before the tree. -/
  starts : ∀ proc ∈ procTree.processTree.toList,
    procTree.startTime ≤ (procTree.objects proc).startTime
  /-- No process ends behind the tree. -/
  ends : ∀ proc ∈ procTree.processTree.toList,
    (procTree.objects proc).startTime + (procTree.objects proc).duration ≤
      procTree.startTime + procTree.duration
  /-- Each process is counted once. -/
  counts : procTree.numProc = procTree.processTree.size

/-- The tree of a trace that is accepted. -/
theorem fits_mainTree
    {paths : List Text}
    {files : List Trace.File}
    {traceOptions : Trace.Options}
    {trace : Made}
    (isMade : Trace.init paths files traceOptions = .ok trace) : Fits (mainTree trace) := by
  obtain ⟨state, stats, idle, -, -, -, -, -, isTree⟩ := Trace.init_eq_ok isMade
  have spans : trace.procTree.startTime + trace.procTree.duration = trace.procTree.endTime ∧
      trace.procTree.numProc = trace.procTree.processTree.size := by
    obtain ⟨first, -, isFinished⟩ := Option.map_eq_some_iff.mp isTree
    rw [← isFinished]
    exact ⟨add_sub_cancel _ _, rfl⟩
  refine ⟨fun proc member => (ProcessTree.within_finish isTree member).1, ?_, spans.2⟩
  intro proc member
  exact ((ProcessTree.within_finish isTree member).2).trans_eq spans.1.symm

/-- A row is the row of a process of the tree, and its number is less than the number of
processes. -/
theorem bounds_of_row
    {procTree : ProcTree}
    (fits : Fits procTree)
    {row : ProcessId × Nat}
    (member : row ∈ (procTree.processTree.numbered 0).toList) :
    row.1 ∈ procTree.processTree.toList ∧ row.2 + 1 ≤ procTree.numProc := by
  have bounds := Forest.bounds_of_mem_numbered member
  rw [Forest.toList_numbered] at member
  rw [fits.counts]
  exact ⟨List.fst_mem_of_mem_zipIdx member, by omega⟩

/-- A box lies between the sides of its chart. -/
theorem sides_of_box
    (scene : Scene)
    (fits : Fits scene.procTree)
    (long : 0 < scene.procTree.duration)
    (wide : 0 ≤ scene.rect.width)
    {proc : ProcessId}
    (member : proc ∈ scene.procTree.processTree.toList) :
    scene.rect.x ≤ scene.processX proc ∧
      scene.processX proc + scene.processW proc ≤ scene.rect.x + scene.rect.width := by
  have starts := fits.starts proc member
  have ends := fits.ends proc member
  rw [Scene.processX, Scene.processW, ProcTree.timeX, Scene.process, add_assoc, ← add_div,
    ← add_mul]
  constructor
  · have ahead : 0 ≤ (scene.procTree.objects proc).startTime - scene.procTree.startTime := by
      linarith
    linarith [div_nonneg (mul_nonneg ahead wide) long.le]
  · have within : (scene.procTree.objects proc).startTime - scene.procTree.startTime +
        (scene.procTree.objects proc).duration ≤ scene.procTree.duration := by
      linarith
    have scaled := mul_le_mul_of_nonneg_right within wide
    rw [add_le_add_iff_left, div_le_iff₀ long]
    linarith

/-- The first row begins no lower than behind a chart of the memory. -/
theorem rowsTop_bounds :
    (if options.kernelOnly then offset else headerEnd canvas) + 60 ≤
        rowsTop canvas clip options xscale trace ∧
      rowsTop canvas clip options xscale trace ≤
        (if options.kernelOnly then offset else headerEnd canvas) +
          (if options.charts then 2 * (30 + barH) + meminfoBarH else 0) + 60 := by
  have positive : 0 ≤ barH ∧ 0 ≤ meminfoBarH := by
    norm_num [barH, meminfoBarH]
  rw [rowsTop]
  by_cases shows : ShowsMemory canvas clip options xscale trace
  · rw [if_pos shows, shows.1, if_pos rfl, if_pos rfl]
    constructor <;> linarith
  · rw [if_neg shows]
    cases options.charts with
    | false => norm_num
    | true =>
        rw [if_pos rfl, if_pos rfl]
        constructor <;> linarith

/-- The height that is reserved for the header, the charts and the rows. -/
def reservedHeight : ℚ :=
  (extents options xscale trace).2 -
    if (options.procTree trace).taskstats ∧ options.cumulative then cumlHeight else 0

/-- What is reserved besides the rows. -/
theorem reservedHeight_eq :
    reservedHeight options xscale trace =
      procH * (options.procTree trace).numProc + 2 * offset +
        (if options.charts then headerH else 0) +
        if (options.procTree trace).taskstats ∧ options.cumulative then 4 * offset else 0 := by
  rw [reservedHeight, extents]
  by_cases graphs : (options.procTree trace).taskstats = true ∧ options.cumulative = true
  · rw [if_pos graphs, if_pos graphs, if_pos graphs]
    ring
  · rw [if_neg graphs, if_neg graphs, if_neg graphs]
    ring

/-- If the lines of the header are not too high, every box of the full tree lies within the
picture, above the graphs below it, however the picture is scaled and clipped. -/
theorem boxes_inside
    {paths : List Text}
    {files : List Trace.File}
    {traceOptions : Trace.Options}
    {trace : Made}
    (isMade : Trace.init paths files traceOptions = .ok trace)
    (appOptions : AppOptions)
    (long : 0 < trace.procTree.duration)
    (scaled : 0 ≤ xscale)
    (high : 0 ≤ headerEnd canvas)
    (low : headerEnd canvas ≤ 100) :
    ∀ box ∈ (render canvas clip (RenderOptions.new appOptions) xscale trace).allBoxes,
      (offset ≤ box.x ∧
        box.x + box.width ≤ (extents (RenderOptions.new appOptions) xscale trace).1 - offset) ∧
      0 ≤ box.y ∧
        box.y + box.height ≤ reservedHeight (RenderOptions.new appOptions) xscale trace := by
  intro box member
  rw [allBoxes_render, List.mem_map] at member
  obtain ⟨row, isRow, rfl⟩ := member
  have fits := fits_mainTree isMade
  obtain ⟨inTree, counted⟩ := bounds_of_row fits (List.mem_filter.mp isRow).1
  have wide : 0 ≤ (extents (RenderOptions.new appOptions) xscale trace).1 - 2 * offset := by
    rw [extents, add_sub_cancel_right, Int.cast_nonneg_iff, truncate,
      if_neg (not_lt.mpr (by unfold secWBase; exact div_nonneg (by positivity) (by norm_num)))]
    exact Int.floor_nonneg.mpr (by unfold secWBase; positivity)
  have sides := sides_of_box (rowScene canvas (RenderOptions.new appOptions) xscale trace) fits
    long wide inTree
  have top := rowsTop_bounds canvas clip (RenderOptions.new appOptions) xscale trace
  have bottom := reservedHeight_eq (RenderOptions.new appOptions) xscale trace
  have charts : (RenderOptions.new appOptions).charts = true := rfl
  rw [charts, if_pos rfl] at bottom
  refine ⟨⟨sides.1, ?_⟩, ?_, ?_⟩
  · apply sides.2.trans_eq
    rw [rowScene]
    ring
  · have first : headerEnd canvas + 60 ≤ _ := top.1
    have below : (0 : ℚ) ≤ procH * row.2 := mul_nonneg (by norm_num [procH]) (Nat.cast_nonneg _)
    change 0 ≤ rowsTop canvas clip (RenderOptions.new appOptions) xscale trace + procH * row.2
    linarith
  · have last : _ ≤ headerEnd canvas + (2 * (30 + barH) + meminfoBarH) + 60 := top.2
    have counted' : (row.2 : ℚ) + 1 ≤ (mainTree trace).numProc := by
      exact_mod_cast counted
    have graphs : (0 : ℚ) ≤ if ((RenderOptions.new appOptions).procTree trace).taskstats = true ∧
        (RenderOptions.new appOptions).cumulative = true then 4 * offset else 0 := by
      split
      · norm_num [offset]
      · exact le_rfl
    have charted : 2 * (30 + barH) + meminfoBarH + 60 + 100 = 2 * offset + headerH := by
      norm_num [barH, meminfoBarH, offset, headerH]
    have rows := mul_le_mul_of_nonneg_left counted' (show 0 ≤ procH by norm_num [procH])
    change rowsTop canvas clip (RenderOptions.new appOptions) xscale trace + procH * row.2 +
      procH ≤ _
    rw [bottom]
    change _ ≤ procH * (mainTree trace).numProc + 2 * offset + headerH + _
    linarith

/-- A trace that is drawn in full. -/
theorem boxes_inside_fullTrace :
    ∃ trace, Trace.init [] fullTrace { cropAfter := none, annotate := [], prune := false } =
        .ok trace ∧
      ∀ box ∈ (render fixedWidth none (RenderOptions.new ⟨false, false⟩) 1 trace).allBoxes,
        (offset ≤ box.x ∧
          box.x + box.width ≤ (extents (RenderOptions.new ⟨false, false⟩) 1 trace).1 - offset) ∧
        0 ≤ box.y ∧
          box.y + box.height ≤ reservedHeight (RenderOptions.new ⟨false, false⟩) 1 trace := by
  obtain ⟨made, isMade, -, isLong⟩ := Trace.Made.exists_of_inOrder [] fullTrace
    { cropAfter := none, annotate := [], prune := false }
    (fun made => made.procTree.duration = 4) (by decide +kernel)
  have long : made.procTree.duration = 4 := of_decide_eq_true isLong
  have fonts : headerEnd fixedWidth = 80 := by
    norm_num [headerEnd, fixedWidth]
  exact ⟨made, isMade, boxes_inside fixedWidth none 1 isMade ⟨false, false⟩
    (by rw [long]; norm_num) zero_le_one (by rw [fonts]; norm_num) (by rw [fonts]; norm_num)⟩

/-! ## The page of the kernel -/

/-- The page of the kernel: what is drawn before the trees has no rows, and nothing fails
behind them. -/
theorem render_kernelBoot_eq (appOptions : AppOptions) :
    ∃ (first : Drawing) (scene : Scene) (y : ℚ) (last : Drawing),
      Rowless first ∧ ¬last.Raises ∧
        render canvas none (View.kernelBoot.options appOptions) xscale trace =
          first ++ (scene.drawRoots none y (kernelTree trace).processTree ++ last) := by
  let options := View.kernelBoot.options appOptions
  let size := extents options xscale trace
  let w := size.1 - 2 * offset
  let frame := drawFrame canvas true (kernelTree trace) trace.times offset
    (chartRect true offset w size.2) (secW xscale)
  let white : Event := .command (.fillRect white ⟨0, 0, max size.1 minImgW, size.2⟩)
  let text : Event := .command (.showText signature sigColor (offset + 5) (size.2 - 8))
  have noGraphs : cumlGraphs canvas none options xscale trace = [] := by
    unfold cumlGraphs
    exact if_neg fun shown => Bool.false_ne_true shown.2
  have noHeight : (if (kernelTree trace).taskstats ∧ options.cumulative then cumlHeight
      else 0) = 0 :=
    if_neg fun shown => Bool.false_ne_true shown.2
  refine ⟨white :: frame, chartScene canvas appOptions true (kernelTree trace) offset w size.2,
    offset + 60, [text], ?_, ?_, ?_⟩
  · exact (rowless_command _ _).mpr ⟨⟨rfl, rfl⟩, rowless_drawFrame _ _ _ _ _ _ _⟩
  · rintro ⟨event, member, fails⟩
    obtain rfl := List.mem_singleton.mp member
    exact fails
  · have opened : render canvas none options xscale trace =
        white :: ([] ++ drawProcessBarChart canvas none appOptions true (kernelTree trace)
          trace.times offset w (size.2 - if (kernelTree trace).taskstats ∧ options.cumulative
            then cumlHeight else 0) (secW xscale) ++
          [.command (.showText signature sigColor (offset + 5) (size.2 -
            (if (kernelTree trace).taskstats ∧ options.cumulative then cumlHeight else 0) -
              8))] ++
          cumlGraphs canvas none options xscale trace) := rfl
    rw [opened, noGraphs, noHeight, sub_zero, List.append_nil, List.nil_append,
      drawProcessBarChart_eq, List.append_assoc]
    rfl

/-- Of rows that begin at 70, the last four do not fit into the height of the rows and the
margins. -/
theorem row_fits_iff (rows number : Nat) :
    70 + 16 * (number : ℚ) + 16 ≤ 16 * (rows : ℚ) + 20 ↔ number + 4 < rows := by
  have whole : 70 + 16 * number + 16 ≤ 16 * rows + 20 ↔ number + 4 < rows := by omega
  exact_mod_cast whole

/-- The last three begin below it. -/
theorem row_hidden_iff (rows number : Nat) :
    16 * (rows : ℚ) + 20 ≤ 70 + 16 * (number : ℚ) ↔ rows ≤ number + 3 := by
  have whole : 16 * rows + 20 ≤ 70 + 16 * number ↔ rows ≤ number + 3 := by omega
  exact_mod_cast whole

/-- On the page of the kernel, unless something fails and no row is drawn, the height is that
of the rows, but the first of them begins below what is left out: the last four do not fit,
and the last three do not show. -/
theorem boxes_kernelBoot (appOptions : AppOptions) :
    let picture := render canvas none (View.kernelBoot.options appOptions) xscale trace
    let height := (extents (View.kernelBoot.options appOptions) xscale trace).2
    (picture.Raises ∧ picture.boxes = [] ∨
        ¬picture.Raises ∧ picture.boxes.length = (kernelTree trace).processTree.size) ∧
      ∀ (number : Nat) (box : Rect), picture.boxes[number]? = some box →
        (box.y + box.height ≤ height ↔ number + 4 < picture.boxes.length) ∧
        (height ≤ box.y ↔ picture.boxes.length ≤ number + 3) := by
  intro picture height
  by_cases raises : picture.Raises
  · obtain ⟨first, scene, y, last, rowless, returns, opened⟩ :=
      render_kernelBoot_eq canvas xscale trace appOptions
    have noBox : picture.boxes = [] := by
      change (render canvas none (View.kernelBoot.options appOptions) xscale trace).boxes = []
      change (render canvas none (View.kernelBoot.options appOptions) xscale
        trace).Raises at raises
      rw [opened] at raises ⊢
      exact scene.boxes_of_raises none rowless returns raises
    refine ⟨.inl ⟨raises, noBox⟩, fun number box isBox => ?_⟩
    rw [noBox] at isBox
    contradiction
  have boxes : picture.boxes =
      ((kernelTree trace).processTree.numbered 0).toList.map
        ((rowScene canvas (View.kernelBoot.options appOptions) xscale trace).rowBox
          (rowsTop canvas none (View.kernelBoot.options appOptions) xscale trace)) :=
    (boxes_eq_allBoxes (issued_of_not_raises raises)).trans
      (allBoxes_render_none canvas (View.kernelBoot.options appOptions) xscale trace)
  have top : rowsTop canvas none (View.kernelBoot.options appOptions) xscale trace = 70 := by
    have hidden : ¬ShowsMemory canvas none (View.kernelBoot.options appOptions) xscale trace :=
      fun shows => Bool.false_ne_true shows.1
    rw [rowsTop, if_neg hidden]
    change offset + 0 + 0 + 60 = 70
    norm_num [offset]
  have isHeight : height = 16 * ((kernelTree trace).processTree.size : ℚ) + 20 := by
    change procH * ((kernelTree trace).processTree.size : ℚ) + 2 * offset + 0 + 0 = _
    norm_num [procH, offset]
  have count : picture.boxes.length = (kernelTree trace).processTree.size := by
    rw [boxes, List.length_map, Forest.toList_numbered, List.length_zipIdx, Forest.length_toList]
  refine ⟨.inr ⟨raises, count⟩, fun number box isBox => ?_⟩
  rw [count]
  rw [boxes, List.getElem?_map, Forest.toList_numbered, List.getElem?_zipIdx,
    Option.map_map] at isBox
  obtain ⟨proc, -, rfl⟩ := Option.map_eq_some_iff.mp isBox
  have isY : ((rowScene canvas (View.kernelBoot.options appOptions) xscale trace).rowBox
      (rowsTop canvas none (View.kernelBoot.options appOptions) xscale trace)
        (proc, 0 + number)).y = 70 + 16 * (number : ℚ) := by
    rw [Scene.rowBox, top, Nat.zero_add, procH]
  have isH : ((rowScene canvas (View.kernelBoot.options appOptions) xscale trace).rowBox
      (rowsTop canvas none (View.kernelBoot.options appOptions) xscale trace)
        (proc, 0 + number)).height = 16 := rfl
  rw [Function.comp_apply, isY, isH, isHeight]
  exact ⟨row_fits_iff _ _, row_hidden_iff _ _⟩

/-! ## Scrolling -/

/-- What shows in a clip shows without one. -/
theorem showsMemory_none {rect : Rect}
    (shows : ShowsMemory canvas (some rect) options xscale trace) :
    ShowsMemory canvas none options xscale trace := by
  have visible := shows.2.2
  refine ⟨shows.1, shows.2.1, decide_eq_true ⟨width_pos_of_clipVisible visible, ?_⟩⟩
  norm_num [memoryRect, meminfoBarH, barH]

/-- What is visible in a clip is visible without one. -/
theorem clipVisible_none
    {rect shown : Rect}
    (positive : 0 < shown.height)
    (visible : clipVisible (some rect) shown = true) : clipVisible none shown = true :=
  decide_eq_true ⟨width_pos_of_clipVisible visible, positive⟩

/-- What fails in a clip fails without one: less is drawn. The charts of the processors. -/
theorem raises_cpuCharts_none
    {rect shown : Rect}
    {procTree : ProcTree}
    {secW : ℤ}
    (positive : 0 < shown.height) :
    (cpuCharts (some rect) procTree trace shown secW).Raises →
      (cpuCharts none procTree trace shown secW).Raises := by
  unfold cpuCharts
  rw [raises_ite, raises_ite]
  exact And.imp_left (clipVisible_none positive)

/-- The charts of the disks. -/
theorem raises_diskCharts_none
    {rect shown : Rect}
    {procTree : ProcTree}
    {currY : ℚ}
    {secW : ℤ}
    (positive : 0 < shown.height) :
    (diskCharts canvas (some rect) procTree trace shown currY secW).Raises →
      (diskCharts canvas none procTree trace shown currY secW).Raises := by
  have visible : clipVisible (some rect) shown = true → clipVisible none shown = true :=
    clipVisible_none positive
  unfold diskCharts
  simp only [raises_append, raises_ite]
  exact Or.imp_left (Or.imp_left (Or.imp (Or.imp_left (And.imp_left visible))
    (And.imp_left visible)))

/-- All charts. -/
theorem raises_renderCharts_none
    {rect : Rect}
    {procTree : ProcTree}
    {currY w : ℚ}
    {secW : ℤ} :
    (renderCharts canvas (some rect) procTree trace currY w secW).1.Raises →
      (renderCharts canvas none procTree trace currY w secW).1.Raises := by
  have bars : 0 < barH := by
    norm_num [barH]
  have memory : 0 < meminfoBarH := by
    norm_num [meminfoBarH, barH]
  unfold renderCharts
  simp only [raises_append, raises_ite]
  exact Or.imp (Or.imp (Or.imp_left (Or.imp_left (Or.imp_right
    (raises_cpuCharts_none trace bars)))) (raises_diskCharts_none canvas trace bars))
    (And.imp_left (And.imp_right (clipVisible_none memory)))

/-- A cumulative graph. -/
theorem raises_cumlGraph_none
    {rect : Rect}
    {procTree : ProcTree}
    {currY w : ℚ}
    {secW : ℤ}
    {statType : ProcessTree.Statistic} :
    (cumlGraph canvas (some rect) procTree trace currY w secW statType).Raises →
      (cumlGraph canvas none procTree trace currY w secW statType).Raises := by
  unfold cumlGraph
  dsimp only
  rw [raises_ite, raises_ite]
  exact And.imp_left (clipVisible_none (by norm_num [cumlHeight, offset]))

/-- And so does the whole picture. -/
theorem raises_render_none
    {rect : Rect}
    (raises : (render canvas (some rect) options xscale trace).Raises) :
    (render canvas none options xscale trace).Raises := by
  have inCharts : ∀ (charts : Bool) (procTree : ProcTree) (headerY w : ℚ) (secW : ℤ),
      Drawing.Raises (if charts then
        renderCharts canvas (some rect) procTree trace headerY w secW else ([], headerY)).1 →
      Drawing.Raises (if charts then
        renderCharts canvas none procTree trace headerY w secW else ([], headerY)).1 := by
    intro charts procTree headerY w secW
    cases charts with
    | false => exact id
    | true => exact raises_renderCharts_none canvas trace
  revert raises
  unfold render cumlGraphs
  simp only [raises_cons, raises_append, raises_ite, drawProcessBarChart_eq, raises_drawFrame,
    Scene.raises_drawRoots]
  exact Or.imp_right (Or.imp (Or.imp_left (Or.imp_left (inCharts _ _ _ _ _)))
    (And.imp_right (Or.imp (raises_cumlGraph_none canvas trace)
      (raises_cumlGraph_none canvas trace))))

/-- If the whole picture raises no exception, the boxes in a clip are at their places in it if
and only if the chart of the memory shows in the clip or is not drawn at all; else they are too
high by the height of the chart. -/
theorem boxes_in_clip_iff
    (rect : Rect)
    (returns : ¬(render canvas none options xscale trace).Raises) :
    (∀ box ∈ (render canvas (some rect) options xscale trace).boxes,
        box ∈ (render canvas none options xscale trace).boxes) ↔
      (options.procTree trace).processTree = .nil ∨
        (ShowsMemory canvas none options xscale trace →
          ShowsMemory canvas (some rect) options xscale trace) := by
  have inClip : ¬(render canvas (some rect) options xscale trace).Raises := fun raises =>
    returns (raises_render_none canvas options xscale trace raises)
  rw [boxes_eq_allBoxes (issued_of_not_raises inClip),
    boxes_eq_allBoxes (issued_of_not_raises returns), allBoxes_render, allBoxes_render_none]
  constructor
  · intro same
    cases isTree : (options.procTree trace).processTree with
    | nil => exact Or.inl rfl
    | cons root children siblings =>
        refine Or.inr fun showsAll => ?_
        by_contra hidden
        rw [isTree] at same
        -- The box of the first root is higher than any box of the whole picture.
        have first := same _ (List.mem_map_of_mem (List.mem_filter.mpr
          ⟨List.mem_cons_self, decide_eq_true (Or.inl List.mem_cons_self)⟩))
        obtain ⟨row, -, equal⟩ := List.mem_map.mp first
        have sameY := congrArg Rect.y equal
        have higher : rowsTop canvas none options xscale trace =
            rowsTop canvas (some rect) options xscale trace + meminfoBarH := by
          rw [rowsTop, rowsTop, if_pos showsAll, if_neg hidden]
          ring
        have below : (0 : ℚ) ≤ procH * row.2 :=
          mul_nonneg (by norm_num [procH]) (Nat.cast_nonneg _)
        have positive : 0 < meminfoBarH := by
          norm_num [meminfoBarH, barH]
        simp only [Scene.rowBox, Nat.cast_zero, mul_zero] at sameY
        linarith
  · rintro (isTree | shows) box member
    · rw [isTree] at member
      exact absurd member List.not_mem_nil
    · have sameTop : rowsTop canvas (some rect) options xscale trace =
          rowsTop canvas none options xscale trace := by
        have equivalent : ShowsMemory canvas (some rect) options xscale trace ↔
            ShowsMemory canvas none options xscale trace :=
          ⟨showsMemory_none canvas options xscale trace, shows⟩
        simp only [rowsTop, equivalent]
      obtain ⟨row, isRow, rfl⟩ := List.mem_map.mp member
      rw [sameTop]
      exact List.mem_map_of_mem (List.mem_filter.mp isRow).1

/-- In a clip that shows the chart of the memory the boxes are at their places; in one below it
they are not. -/
theorem boxes_in_clip_fullTrace :
    ∃ trace, Trace.init [] fullTrace { cropAfter := none, annotate := [], prune := false } =
        .ok trace ∧
      (∀ box ∈ (render fixedWidth (some ⟨0, 0, 100, 500⟩)
          (RenderOptions.new ⟨false, false⟩) 1 trace).boxes,
        box ∈ (render fixedWidth none (RenderOptions.new ⟨false, false⟩) 1 trace).boxes) ∧
      ¬∀ box ∈ (render fixedWidth (some ⟨0, 400, 100, 100⟩)
          (RenderOptions.new ⟨false, false⟩) 1 trace).boxes,
        box ∈ (render fixedWidth none (RenderOptions.new ⟨false, false⟩) 1 trace).boxes := by
  let options := RenderOptions.new ⟨false, false⟩
  obtain ⟨trace, isMade, -, values⟩ := Trace.Made.exists_of_inOrder [] fullTrace
    { cropAfter := none, annotate := [], prune := false }
    (fun trace =>
      decide (∀ event ∈ render fixedWidth none options 1 trace, ¬event.Fails) &&
        decide (trace.procTree.processTree.toList ≠ [] ∧
          ShowsMemory fixedWidth none options 1 trace ∧
          ShowsMemory fixedWidth (some ⟨0, 0, 100, 500⟩) options 1 trace ∧
          ¬ShowsMemory fixedWidth (some ⟨0, 400, 100, 100⟩) options 1 trace))
    (by decide +kernel)
  obtain ⟨nothingFails, values⟩ := Bool.and_eq_true_iff.mp values
  obtain ⟨nonempty, shown, inFirst, notInSecond⟩ := of_decide_eq_true values
  have returns : ¬(render fixedWidth none options 1 trace).Raises :=
    (not_raises_iff _).mpr (of_decide_eq_true nothingFails)
  refine ⟨trace, isMade,
    (boxes_in_clip_iff fixedWidth options 1 trace _ returns).mpr (.inr fun _ => inFirst),
    fun same => ?_⟩
  rcases (boxes_in_clip_iff fixedWidth options 1 trace _ returns).mp same with isTree | shows
  · have isNil : trace.procTree.processTree = .nil := isTree
    rw [isNil] at nonempty
    exact nonempty rfl
  · exact notInSecond (shows shown)

end Draw
end Bootchart
