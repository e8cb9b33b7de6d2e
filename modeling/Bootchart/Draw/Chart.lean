import Bootchart.Draw.Canvas
import Bootchart.ProcessTree.Init

/-!
# Axes and charts

The parts of a picture that show times without showing processes: boxes with ticks and
labels, annotations, and charts of samples.
-/

namespace Bootchart
namespace Draw

open Library (Text Forest)
open ProcessTree (Objects)

/-! ## Colors -/

/-- `WHITE`. -/
def white : Color := ⟨1, 1, 1, 1⟩

/-- `BORDER_COLOR`. -/
def borderColor : Color := ⟨63 / 100, 63 / 100, 63 / 100, 1⟩

/-- `TICK_COLOR`. -/
def tickColor : Color := ⟨92 / 100, 92 / 100, 92 / 100, 1⟩

/-- `TICK_COLOR_BOLD`. -/
def tickColorBold : Color := ⟨86 / 100, 86 / 100, 86 / 100, 1⟩

/-- `ANNOTATION_COLOR`. -/
def annotationColor : Color := ⟨63 / 100, 0, 0, 1 / 2⟩

/-- `TEXT_COLOR`. -/
def textColor : Color := ⟨0, 0, 0, 1⟩

/-- `PROC_BORDER_COLOR`. -/
def procBorderColor : Color := ⟨71 / 100, 71 / 100, 71 / 100, 1⟩

/-! ## Legends -/

/-- `draw_legend_box`. -/
def drawLegendBox (label : Text) (fillColor : Color) (x y s : ℚ) : Drawing :=
  [.command (.fillRect fillColor ⟨x, y - s, s, s⟩),
    .command (.strokeRect procBorderColor ⟨x, y - s, s, s⟩),
    .command (.showText label textColor (x + s + 5) y)]

/-- `draw_legend_line`. -/
def drawLegendLine (label : Text) (fillColor : Color) (x y s : ℚ) : Drawing :=
  [.command (.fillRect fillColor ⟨x, y - s / 2, s + 1, 3⟩),
    .command (.fillCircle fillColor (x + (s + 1) / 2) (y - (s - 3) / 2) (5 / 2)),
    .command (.showText label textColor (x + s + 5) y)]

/-! ## The axis -/

/-- What drawing reads of a `ProcessTree`. -/
structure ProcTree where
  /-- The process objects. -/
  objects : Objects
  /-- `process_tree`. -/
  processTree : Forest ProcessId
  /-- `start_time`. -/
  startTime : ℚ
  /-- `duration`. -/
  duration : ℚ
  /-- `sample_period`. -/
  samplePeriod : ℚ
  /-- `num_proc`. -/
  numProc : Nat
  /-- `idle`. -/
  idle : Option ℚ
  /-- Whether `taskstats` is set. -/
  taskstats : Bool

/-- Where `draw_annotations` and the bars of processes put a time. -/
def ProcTree.timeX (procTree : ProcTree) (rect : Rect) (time : ℚ) : ℚ :=
  (time - procTree.startTime) * rect.width / procTree.duration

/-- `range(first * sec_w, rect[2] + 1, sec_w)`, divided by the step: the numbers of the
seconds that fit into a width, which is an integer. -/
def seconds (first : Nat) (rect : Rect) (secW : ℤ) : List Nat :=
  (List.range (⌊rect.width⌋ / secW + 1).toNat).drop first

/-- `draw_box_ticks`. -/
def drawBoxTicks (rect : Rect) (secW : ℤ) : Drawing :=
  [.command (.strokeRect borderColor rect), .steps secW] ++
    (seconds 1 rect secW).map fun second : Nat =>
      let x := rect.x + second * secW
      .command (.strokePath (if second % 5 = 0 then tickColorBold else tickColor) []
        [(x, rect.y + 1), (x, rect.y + rect.height - 1)])

/-- The label of a second. -/
def secondLabel (second : Nat) : Text :=
  Library.Text.decimal second ++ ['s']

/-- The loop of `draw_sec_labels`, with the end of the last label. -/
def secLabelsFrom
    (canvas : Canvas)
    (rect : Rect)
    (secW : ℤ)
    (nsecs : Nat)
    (prevX : ℚ) : List Nat → Drawing
  | [] => []
  | second :: rest =>
      let labelW := (canvas.textExtents (secondLabel second)).width
      let x := rect.x + second * secW - labelW / 2
      if second % nsecs = 0 ∧ prevX ≤ x then
        .command (.showText (secondLabel second) textColor x (rect.y - 2)) ::
          secLabelsFrom canvas rect secW nsecs (x + labelW) rest
      else secLabelsFrom canvas rect secW nsecs prevX rest

/-- `draw_sec_labels`. -/
def drawSecLabels (canvas : Canvas) (rect : Rect) (secW : ℤ) (nsecs : Nat) : Drawing :=
  .steps secW :: secLabelsFrom canvas rect secW nsecs 0 (seconds 0 rect secW)

/-- `draw_annotations`. -/
def drawAnnotations (procTree : ProcTree) (times : List (Option ℚ)) (rect : Rect) :
    Drawing :=
  times.flatMap fun time =>
    match time with
    | none => []
    | some time =>
        let x := procTree.timeX rect time
        [.perDuration procTree.duration,
          .command (.strokePath annotationColor [4, 4]
            [(rect.x + x, rect.y + 1), (rect.x + x, rect.y + rect.height - 1)])]

/-! ### What is done for an axis

Whatever holds of all commands holds of all that is done if it holds of what may fail.
-/

section Forall

variable {holds : Event → Prop} (commands : ∀ command, holds (.command command))

include commands

/-- Ticks have a distance. -/
theorem forall_mem_drawBoxTicks (rect : Rect) (secW : ℤ) :
    (∀ event ∈ drawBoxTicks rect secW, holds event) ↔ holds (.steps secW) := by
  simp only [drawBoxTicks, List.cons_append, List.nil_append, List.forall_mem_cons,
    List.forall_mem_map, commands, true_and, implies_true, and_true]

/-- Labels of ticks have a distance. -/
theorem forall_mem_drawSecLabels
    (canvas : Canvas)
    (rect : Rect)
    (secW : ℤ)
    (nsecs : Nat) :
    (∀ event ∈ drawSecLabels canvas rect secW nsecs, holds event) ↔
      holds (.steps secW) := by
  have labels : ∀ seconds prevX,
      ∀ event ∈ secLabelsFrom canvas rect secW nsecs prevX seconds, holds event := by
    intro seconds
    induction seconds with
    | nil => simp [secLabelsFrom]
    | cons second rest inductionHypothesis =>
        intro prevX
        rw [secLabelsFrom]
        split
        · exact List.forall_mem_cons.mpr ⟨commands _, inductionHypothesis _⟩
        · exact inductionHypothesis _
  rw [drawSecLabels, List.forall_mem_cons]
  exact and_iff_left (labels _ _)

/-- The places of annotations are divided by the duration. -/
theorem forall_mem_drawAnnotations
    (procTree : ProcTree)
    (times : List (Option ℚ))
    (rect : Rect) :
    (∀ event ∈ drawAnnotations procTree times rect, holds event) ↔
      ((∃ time, some time ∈ times) → holds (.perDuration procTree.duration)) := by
  induction times with
  | nil => simp [drawAnnotations]
  | cons time times inductionHypothesis =>
      unfold drawAnnotations at inductionHypothesis ⊢
      rw [List.flatMap_cons, List.forall_mem_append, inductionHypothesis]
      cases time with
      | none => simp
      | some time =>
          rw [List.forall_mem_cons, List.forall_mem_singleton, and_iff_left (commands _)]
          have annotated : ∃ other, some other ∈ some time :: times :=
            ⟨time, List.mem_cons_self⟩
          rw [forall_prop_of_true annotated]
          exact and_iff_left_of_imp fun holdsAlways _ => holdsAlways

end Forall

/-- Ticks cannot be drawn if they have no distance. -/
theorem raises_drawBoxTicks (rect : Rect) (secW : ℤ) :
    (drawBoxTicks rect secW).Raises ↔ secW = 0 := by
  rw [← not_iff_not, not_raises_iff, forall_mem_drawBoxTicks not_fails_command, fails_steps]

/-- Labels of ticks cannot be drawn if the ticks have no distance. -/
theorem raises_drawSecLabels
    (canvas : Canvas)
    (rect : Rect)
    (secW : ℤ)
    (nsecs : Nat) : (drawSecLabels canvas rect secW nsecs).Raises ↔ secW = 0 := by
  rw [← not_iff_not, not_raises_iff, forall_mem_drawSecLabels not_fails_command, fails_steps]

/-- Lines for annotations cannot be drawn if the tree has no duration. -/
theorem raises_drawAnnotations
    (procTree : ProcTree)
    (times : List (Option ℚ))
    (rect : Rect) :
    (drawAnnotations procTree times rect).Raises ↔
      (∃ time, some time ∈ times) ∧ procTree.duration = 0 := by
  rw [← not_iff_not, not_raises_iff, forall_mem_drawAnnotations not_fails_command,
    fails_perDuration, not_and]

/-! ## Charts -/

/-- The largest of some numbers, zero if there is none. -/
def largest : List ℚ → ℚ
  | [] => 0
  | first :: rest => rest.foldl max first

/-- `max_x`. -/
def maxX (data : List Point) : ℚ :=
  largest (data.map Prod.fst)

/-- `max_y`, one instead of zero. -/
def maxY (data : List Point) : ℚ :=
  if largest (data.map Prod.snd) = 0 then 1 else largest (data.map Prod.snd)

/-- `transform_point_coords`. -/
def transformPointCoords
    (chartBounds : Rect)
    (point : Point)
    (xBase yBase xscale yscale xTrans yTrans : ℚ) : Point :=
  ((point.1 - xBase) * xscale + xTrans,
    (point.2 - yBase) * -yscale + yTrans + chartBounds.height)

/-- Where `draw_chart` puts a point, for the range of values that is shown. -/
def chartPoint
    (chartBounds : Rect)
    (data : List Point)
    (procTree : ProcTree)
    (dataRange : Option (ℚ × ℚ))
    (point : Point) : Point :=
  let xscale := chartBounds.width / maxX data
  match dataRange with
  | some (low, high) =>
      transformPointCoords chartBounds point procTree.startTime low xscale
        (chartBounds.height / (high - low)) chartBounds.x chartBounds.y
  | none =>
      transformPointCoords chartBounds point procTree.startTime 0 xscale
        (chartBounds.height / maxY data) chartBounds.x chartBounds.y

/-- `draw_chart`. -/
def drawChart
    (color : Color)
    (fill : Bool)
    (chartBounds : Rect)
    (data : List Point)
    (procTree : ProcTree)
    (dataRange : Option (ℚ × ℚ)) : Drawing :=
  let points := data.map (chartPoint chartBounds data procTree dataRange)
  let first := points.headD (0, 0)
  let last := points.getLastD (0, 0)
  let bottom := chartBounds.y + chartBounds.height
  [.maximum (data.map Prod.fst), .maximum (data.map Prod.snd),
    .perLargest (maxX data)] ++
  (match dataRange with
    | some (low, high) => [.perRange (high - low)]
    | none => []) ++
  .command (.strokePath color [] (first :: points)) ::
  (if fill then
    [.command (.fillPath color
      (first :: points ++ [(last.1, bottom), (first.1, bottom), (first.1, first.2)]))]
  else [])

end Draw
end Bootchart
