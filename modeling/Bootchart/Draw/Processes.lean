import Bootchart.Draw.Chart

/-!
# The bars of processes

Every process has a row of its own: a box as long as it ran, bars for what it did, and a
label; a line connects it to its parent. Rows and bars that do not show in the clip are
left out.
-/

namespace Bootchart
namespace Draw

open Library (Text Forest)

/-! ## States -/

/-- `PROC_COLOR_R`. -/
def procColorR : Color := ⟨40 / 100, 55 / 100, 70 / 100, 1⟩

/-- `PROC_COLOR_S`. -/
def procColorS : Color := ⟨94 / 100, 94 / 100, 94 / 100, 1⟩

/-- `PROC_COLOR_D`. -/
def procColorD : Color := ⟨76 / 100, 48 / 100, 48 / 100, 1 / 2⟩

/-- `PROC_COLOR_T`. -/
def procColorT : Color := ⟨94 / 100, 50 / 100, 50 / 100, 1⟩

/-- `PROC_COLOR_Z`. -/
def procColorZ : Color := ⟨71 / 100, 71 / 100, 71 / 100, 1⟩

/-- `PROC_COLOR_X`. -/
def procColorX : Color := ⟨71 / 100, 71 / 100, 71 / 100, 125 / 1000⟩

/-- `PROC_COLOR_W`. -/
def procColorW : Color := ⟨71 / 100, 71 / 100, 71 / 100, 125 / 1000⟩

/-- `PROC_TEXT_COLOR`. -/
def procTextColor : Color := ⟨19 / 100, 19 / 100, 19 / 100, 1⟩

/-- `DEP_COLOR`. -/
def depColor : Color := ⟨75 / 100, 75 / 100, 75 / 100, 1⟩

/-- `STATE_COLORS`. -/
def stateColors : List Color :=
  [⟨0, 0, 0, 0⟩, procColorR, procColorS, procColorD, procColorT, procColorZ, procColorX,
    procColorW]

/-- `get_proc_state`: the first place at which a flag stands in `"RSDTZXW"`, counted from
one, or zero. -/
def getProcState (flag : Text) : Nat :=
  let flags := "RSDTZXW".toList
  ((List.range (flags.length + 1)).find? fun place =>
    flag.isPrefixOf (flags.drop place)).elim 0 (· + 1)

/-- The color of the bar of a sample; a process that sleeps has no bar. -/
def sampleColor (sample : ProcessSample) : Option Color :=
  match getProcState sample.state with
  | 1 => some { procColorR with
      alpha := min (sample.cpuSample.user + sample.cpuSample.sys) 1 }
  | 2 => none
  | state => some (stateColors.getD state procColorS)

/-! ## The row of a process -/

/-- `proc_h`. -/
def procH : ℚ := 16

/-- The options that the labels depend on. -/
structure AppOptions where
  /-- `show_pid`. -/
  showPid : Bool
  /-- `show_all`. -/
  showAll : Bool

/-- What the rows of processes are drawn with. -/
structure Scene where
  /-- What drawing does not determine itself. -/
  canvas : Canvas
  /-- `OPTIONS`. -/
  options : AppOptions
  /-- The tree. -/
  procTree : ProcTree
  /-- `rect`. -/
  rect : Rect

/-- Something lies below the clip. -/
def isBelow (clip : Clip) (y : ℚ) : Bool :=
  clip.any fun clip => clip.y + clip.height < y

/-- Something lies above the clip. -/
def isAbove (clip : Clip) (y : ℚ) : Bool :=
  clip.any fun clip => y < clip.y

/-- Something lies to the left of the clip. -/
def isLeft (clip : Clip) (x : ℚ) : Bool :=
  clip.any fun clip => x < clip.x

/-- Something lies to the right of the clip. -/
def isRight (clip : Clip) (x : ℚ) : Bool :=
  clip.any fun clip => clip.x + clip.width < x

namespace Scene

variable (scene : Scene)

/-- The process object. -/
def process (proc : ProcessId) : Process :=
  scene.procTree.objects proc

/-- Where a process starts. -/
def processX (proc : ProcessId) : ℚ :=
  scene.rect.x + scene.procTree.timeX scene.rect (scene.process proc).startTime

/-- How long the box of a process is. -/
def processW (proc : ProcessId) : ℚ :=
  (scene.process proc).duration * scene.rect.width / scene.procTree.duration

/-- `tx`, before it is joined to the sample before. -/
def sampleX (sample : ProcessSample) : ℚ :=
  scene.rect.x + scene.canvas.round (scene.procTree.timeX scene.rect sample.time)

/-- `tw`, before it is joined to the sample before. -/
def sampleW : ℚ :=
  scene.canvas.round
    (scene.procTree.samplePeriod * scene.rect.width / scene.procTree.duration)

/-- `tx` and `tw`: a bar is joined to the end of the last one, if that is near. -/
def bar (lastTx tx : ℚ) : ℚ × ℚ :=
  if lastTx ≠ -1 ∧ |lastTx - tx| ≤ scene.sampleW then
    (lastTx, max (scene.sampleW - (lastTx - tx)) 1)
  else (tx, max scene.sampleW 1)

/-- The command for a bar. -/
def barCommand (y : ℚ) (bar : ℚ × ℚ) (color : Color) : Command :=
  .fillRect color ⟨bar.1, y, bar.2, procH⟩

/-- The loop of `draw_process_activity_colors`, with `last_tx`. -/
def activityFrom (clip : Clip) (y lastTx : ℚ) : List ProcessSample → Drawing
  | [] => []
  | sample :: samples =>
      let tx := scene.sampleX sample
      .perDuration scene.procTree.duration ::
        if isLeft clip tx then activityFrom clip y lastTx samples
        else if isRight clip tx then []
        else
          let bar := scene.bar lastTx tx
          .perDuration scene.procTree.duration ::
            (((sampleColor sample).map fun color =>
              Event.command (barCommand y bar color)).toList ++
                activityFrom clip y (bar.1 + bar.2) samples)

/-- `draw_process_activity_colors`. -/
def drawProcessActivityColors (clip : Clip) (proc : ProcessId) (y : ℚ) : Drawing :=
  if isBelow clip y || isAbove clip (y + procH + 2) then []
  else
    .command (.fillRect procColorS ⟨scene.processX proc, y, scene.processW proc, procH⟩) ::
      scene.activityFrom clip y (-1) (scene.process proc).samples

/-- `draw_label_in_box`. -/
def drawLabelInBox (color : Color) (label : Text) (x y w maxx : ℚ) : Drawing :=
  let labelW := (scene.canvas.textExtents label).width
  let inBox := x + w / 2 - labelW / 2
  let besideBox := if w < labelW + 10 then x + w + 5 else inBox
  let labelX := if maxx < besideBox + labelW then x - labelW - 5 else besideBox
  [.command (.showText label color labelX y)]

/-- `cmdString`. -/
def cmdString (proc : ProcessId) : Text :=
  let process := scene.process proc
  let options := scene.options
  let ipid : ℤ := if process.pid < 0 then ⌈process.pid⌉ else ⌊process.pid⌋
  (if options.showAll then [] else process.cmd) ++
  (if (options.showPid || options.showAll) && ipid ≠ 0 then
    " [".toList ++ Library.Text.decimal (ipid / 1000) ++ "]".toList
  else []) ++
  if options.showAll then
    if process.args = [] then ' ' :: process.exe
    else " '".toList ++ "' '".toList.intercalate process.args ++ "'".toList
  else []

/-- What `draw_processes_recursively` draws of a process itself. -/
def drawRow (clip : Clip) (proc : ProcessId) (y : ℚ) : Drawing :=
  let x := scene.processX proc
  let w := scene.processW proc
  [.perDuration scene.procTree.duration, .perDuration scene.procTree.duration] ++
    scene.drawProcessActivityColors clip proc y ++
    [.command (.strokeRect procBorderColor ⟨x, y, w, procH⟩)] ++
    scene.drawLabelInBox procTextColor (scene.cmdString proc) x (y + procH - 4) w
      (scene.rect.x + scene.rect.width)

/-- `draw_process_connecting_lines`. -/
def connectingLines (px py x y : ℚ) : Command :=
  .strokePath depColor [2, 2]
    (if |px - x| < 3 then
      [(x, y + procH / 2), (px - 3, y + procH / 2), (px - 3, py - procH / 4),
        (px, py - procH / 4)]
    else [(x, y + procH / 2), (px, y + procH / 2), (px, py)])

/-- The loop of `draw_processes_recursively` over the children of a process at a point,
from a row on. A child that lies below the clip ends it. -/
def drawChildren (clip : Clip) (px py nextY : ℚ) : Forest ProcessId → Drawing
  | .nil => []
  | .cons child childList siblings =>
      if isBelow clip nextY then []
      else
        let x := scene.processX child
        scene.drawRow clip child nextY ++
          drawChildren clip x nextY (nextY + procH) childList ++
          .command (connectingLines px py x nextY) ::
            drawChildren clip px py (nextY + procH * (childList.size + 1)) siblings

/-- `draw_processes_recursively`. -/
def drawProcessesRecursively
    (clip : Clip)
    (proc : ProcessId)
    (childList : Forest ProcessId)
    (y : ℚ) : Drawing :=
  scene.drawRow clip proc y ++
    scene.drawChildren clip (scene.processX proc) y (y + procH) childList

/-- The loop of `draw_process_bar_chart` over the roots. -/
def drawRoots (clip : Clip) (y : ℚ) : Forest ProcessId → Drawing
  | .nil => []
  | .cons root childList siblings =>
      scene.drawProcessesRecursively clip root childList y ++
        drawRoots clip (y + procH * (childList.size + 1)) siblings

end Scene

/-! ## The chart -/

/-- `off_x` and `off_y`. -/
def offset : ℚ := 10

/-- `leg_s`. -/
def legS : ℚ := 10

/-- `chart_rect`. -/
def chartRect (kernelOnly : Bool) (currY w h : ℚ) : Rect :=
  let top := currY + (if kernelOnly then 0 else 45) + 15
  ⟨offset, top, w, h - 2 * offset - top + procH⟩

/-- What `draw_process_bar_chart` draws before the processes. -/
def drawFrame
    (canvas : Canvas)
    (kernelOnly : Bool)
    (procTree : ProcTree)
    (times : List (Option ℚ))
    (currY : ℚ)
    (rect : Rect)
    (secW : ℤ) : Drawing :=
  (if kernelOnly then []
  else
    drawLegendBox "Running (%cpu)".toList procColorR offset (currY + 45) legS ++
    drawLegendBox "Unint.sleep (I/O)".toList procColorD (offset + 120) (currY + 45) legS ++
    drawLegendBox "Sleeping".toList procColorS (offset + 240) (currY + 45) legS ++
    drawLegendBox "Zombie".toList procColorZ (offset + 360) (currY + 45) legS) ++
  drawBoxTicks rect secW ++
  drawSecLabels canvas rect secW (if 100 < secW then 1 else 5) ++
  drawAnnotations procTree times rect

/-- `draw_process_bar_chart`. -/
def drawProcessBarChart
    (canvas : Canvas)
    (clip : Clip)
    (options : AppOptions)
    (kernelOnly : Bool)
    (procTree : ProcTree)
    (times : List (Option ℚ))
    (currY w h : ℚ)
    (secW : ℤ) : Drawing :=
  let rect := chartRect kernelOnly currY w h
  let scene : Scene :=
    { canvas := canvas, options := options, procTree := procTree, rect := rect }
  drawFrame canvas kernelOnly procTree times currY rect secW ++
    scene.drawRoots clip (currY + 60) procTree.processTree

/-! ## What is done for processes -/

/-- A drawing issues commands, and divides by a duration only. -/
def OnlyPerDuration (duration : ℚ) (drawing : Drawing) : Prop :=
  ∀ event ∈ drawing, event = .perDuration duration ∨ ∃ command, event = .command command

section OnlyPerDuration

variable {duration : ℚ}

@[simp] theorem onlyPerDuration_nil : OnlyPerDuration duration [] := by
  simp [OnlyPerDuration]

@[simp] theorem onlyPerDuration_perDuration (drawing : Drawing) :
    OnlyPerDuration duration (.perDuration duration :: drawing) ↔
      OnlyPerDuration duration drawing := by
  simp [OnlyPerDuration]

@[simp] theorem onlyPerDuration_command (command : Command) (drawing : Drawing) :
    OnlyPerDuration duration (.command command :: drawing) ↔
      OnlyPerDuration duration drawing := by
  simp [OnlyPerDuration]

@[simp] theorem onlyPerDuration_append (first second : Drawing) :
    OnlyPerDuration duration (first ++ second) ↔
      OnlyPerDuration duration first ∧ OnlyPerDuration duration second := by
  simp only [OnlyPerDuration, List.forall_mem_append]

end OnlyPerDuration

namespace Scene

variable (scene : Scene) (clip : Clip)

/-- Bars. -/
theorem onlyPerDuration_activityFrom (y lastTx : ℚ) (samples : List ProcessSample) :
    OnlyPerDuration scene.procTree.duration (scene.activityFrom clip y lastTx samples) := by
  induction samples generalizing lastTx with
  | nil => exact onlyPerDuration_nil
  | cons sample samples inductionHypothesis =>
      rw [activityFrom]
      dsimp only
      rw [onlyPerDuration_perDuration]
      split
      · exact inductionHypothesis _
      · split
        · exact onlyPerDuration_nil
        · rw [onlyPerDuration_perDuration, onlyPerDuration_append]
          refine ⟨?_, inductionHypothesis _⟩
          cases sampleColor sample <;> simp

/-- Rows. -/
theorem onlyPerDuration_drawRow (proc : ProcessId) (y : ℚ) :
    OnlyPerDuration scene.procTree.duration (scene.drawRow clip proc y) := by
  have activity : OnlyPerDuration scene.procTree.duration
      (scene.drawProcessActivityColors clip proc y) := by
    unfold drawProcessActivityColors
    split
    · exact onlyPerDuration_nil
    · exact (onlyPerDuration_command _ _).mpr (scene.onlyPerDuration_activityFrom _ _ _ _)
  simp [drawRow, drawLabelInBox, activity]

/-- Children. -/
theorem onlyPerDuration_drawChildren (px py nextY : ℚ) (forest : Forest ProcessId) :
    OnlyPerDuration scene.procTree.duration
      (scene.drawChildren clip px py nextY forest) := by
  induction forest generalizing px py nextY with
  | nil => exact onlyPerDuration_nil
  | cons child childList siblings first second =>
      rw [drawChildren]
      split
      · exact onlyPerDuration_nil
      · simp only [onlyPerDuration_append, onlyPerDuration_command, onlyPerDuration_drawRow,
          first, second, and_self]

/-- Trees. -/
theorem onlyPerDuration_drawRoots (y : ℚ) (forest : Forest ProcessId) :
    OnlyPerDuration scene.procTree.duration (scene.drawRoots clip y forest) := by
  induction forest generalizing y with
  | nil => exact onlyPerDuration_nil
  | cons root childList siblings _ inductionHypothesis =>
      simp only [drawRoots, drawProcessesRecursively, onlyPerDuration_append,
        onlyPerDuration_drawRow, onlyPerDuration_drawChildren, inductionHypothesis, and_self]

end Scene

end Draw
end Bootchart
