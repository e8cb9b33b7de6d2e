import Bootchart.Draw.Processes
import Bootchart.ProcessTree.Totals

/-!
# The cumulative graphs

`draw_cuml_graph` stacks an area for each command name on those before: its height is the
time that processes of this name have used so far. The boundary below is kept for every
sample time, and a rectangle is painted only when the height or the boundary changes.
-/

namespace Bootchart
namespace Draw

open Library (Text Dict)
open ProcessTree (Statistic samplesTotal)

/-! ## Groups -/

/-- `elide_bootchart`. -/
def elideBootchart (proc : Process) : Bool :=
  proc.cmd = "bootchartd".toList || proc.cmd = "bootchart-colle".toList

/-- `CumlSample`: the samples of all processes of a name. -/
structure CumlSample where
  /-- The name. -/
  cmd : Text
  /-- The samples. -/
  samples : List ProcessSample
  deriving DecidableEq

namespace CumlSample

/-- `CumlSample.merge_samples`. -/
def mergeSamples (cs : CumlSample) (proc : Process) : CumlSample :=
  { cs with
    samples := (cs.samples ++ proc.samples).mergeSort fun s t => s.time ≤ t.time }

/-- `CumlSample.__init__`. -/
def new (proc : Process) : CumlSample :=
  mergeSamples { cmd := proc.cmd, samples := [] } proc

end CumlSample

/-- Merge a process into the group of its name. -/
def addToGroup (mProcList : Dict Text CumlSample) (proc : Process) : Dict Text CumlSample :=
  mProcList.set proc.cmd
    (((mProcList.get? proc.cmd).map (·.mergeSamples proc)).getD (.new proc))

/-! ## Colors -/

/-- `colorsys.hsv_to_rgb`, for a hue that is not negative; nothing shines through. -/
def hsvToRgb (h s v : ℚ) : Color :=
  let i := ⌊h * 6⌋
  let f := h * 6 - i
  let p := v * (1 - s)
  let q := v * (1 - s * f)
  let t := v * (1 - s * (1 - f))
  if s = 0 then ⟨v, v, v, 1⟩
  else if i % 6 = 0 then ⟨v, t, p, 1⟩
  else if i % 6 = 1 then ⟨q, v, p, 1⟩
  else if i % 6 = 2 then ⟨p, v, t, 1⟩
  else if i % 6 = 3 then ⟨p, q, v, 1⟩
  else if i % 6 = 4 then ⟨t, p, v, 1⟩
  else ⟨v, p, q, 1⟩

/-- `HSV_MAX_MOD`. -/
def hsvMaxMod : Nat := 31

/-- `HSV_STEP`. -/
def hsvStep : Nat := 7

/-- `CumlSample.get_color`, for the group that is the `place`th to be drawn, counted from
one: every group asks for one color only. -/
def getColor (place : Nat) : Color :=
  let i := hsvStep * place % hsvMaxMod
  hsvToRgb (i / hsvMaxMod) (1 / 2) 1

/-! ## Layers -/

/-- A rectangle that is painted for a group, with the times it is painted for. -/
structure Segment where
  /-- The time at which it begins, `last_time`. -/
  start : ℚ
  /-- The time before which it ends, unless it is the last one. -/
  stop : Option ℚ
  /-- The rectangle. -/
  rect : Rect
  deriving DecidableEq

/-- A time lies in a segment. -/
def Segment.Covers (segment : Segment) (time : ℚ) : Prop :=
  segment.start ≤ time ∧ ∀ stop ∈ segment.stop, time < stop

/-- What the loop over the times keeps track of. -/
structure Pen where
  /-- `row`: what was used so far at times to come, the new boundary at times passed. -/
  row : Dict ℚ ℚ
  /-- `last_time`. -/
  lastTime : ℚ
  /-- `last_below`. -/
  lastBelow : ℚ
  /-- `cuml`. -/
  cuml : ℚ
  /-- `y`. -/
  y : ℚ
  /-- What was painted so far. -/
  segments : List Segment

/-- A group that was drawn. -/
structure Layer where
  /-- The group. -/
  group : CumlSample
  /-- `process_total_time`. -/
  processTotalTime : ℚ
  /-- The new boundary. -/
  row : Dict ℚ ℚ
  /-- What was painted. -/
  segments : List Segment
  /-- The height in the end. -/
  cuml : ℚ
  /-- The boundary in the end. -/
  y : ℚ

/-- The value of a dictionary at a time it has. -/
def valueAt (dict : Dict ℚ ℚ) (time : ℚ) : ℚ :=
  (dict.get? time).getD 0

/-- What drawing a cumulative graph reads. -/
structure CumlGraph where
  /-- What drawing does not determine itself. -/
  canvas : Canvas
  /-- The tree. -/
  procTree : ProcTree
  /-- `process_list`. -/
  processList : List Process
  /-- `chart_bounds`. -/
  chartBounds : Rect
  /-- `sample_value`. -/
  sampleValue : Statistic

namespace CumlGraph

variable (graph : CumlGraph)

/-- The processes that are not left out. -/
def shown : List Process :=
  graph.processList.filter fun proc => !elideBootchart proc

/-- `m_proc_list`. -/
def mProcList : Dict Text CumlSample :=
  graph.shown.foldl addToGroup Dict.empty

/-- The samples of all groups. -/
def samples : List ProcessSample :=
  graph.shown.flatMap (·.samples)

/-- `total_time`. -/
def totalTime : ℚ :=
  samplesTotal graph.sampleValue graph.samples

/-- `times`. -/
def times : List ℚ :=
  (graph.samples.map (·.time)).dedup.mergeSort (· ≤ ·)

/-- `pix_per_ns`. -/
def pixPerNs : ℚ :=
  graph.chartBounds.height / graph.totalTime

/-- The lower side of the chart. -/
def bottom : ℚ :=
  graph.chartBounds.y + graph.chartBounds.height

/-- The boundary before the first group. -/
def firstBelow : Dict ℚ ℚ :=
  graph.times.foldl (fun below time => below.set time graph.bottom) Dict.empty

/-- The first loop over the samples of a group: `row` and `cuml`. -/
def accumulate (samples : List ProcessSample) : Dict ℚ ℚ × ℚ :=
  samples.foldl (fun (row, cuml) sample =>
    let cuml := cuml + graph.sampleValue.value sample
    (row.set sample.time cuml, cuml)) (Dict.empty, 0)

/-- Where a segment begins. -/
def segmentX (lastTime : ℚ) : ℚ :=
  graph.chartBounds.x + graph.canvas.round (graph.procTree.timeX graph.chartBounds lastTime)

/-- How long a segment is. -/
def segmentW (lastTime time : ℚ) : ℚ :=
  ⌈(time - lastTime) * graph.chartBounds.width / graph.procTree.duration⌉ + 1

/-- One round of the loop over the times. Whenever `last_cuml` is read, it has just been
set to the height so far. -/
def penStep (below : Dict ℚ ℚ) (pen : Pen) (time : ℚ) : Pen :=
  let increased : Bool := valueAt below time ≠ pen.lastBelow
  let nc := ((pen.row.get? time).map fun value =>
    (graph.canvas.round (value * graph.pixPerNs) : ℚ)).getD pen.cuml
  if increased ∨ nc ≠ pen.cuml then
    let lastCuml := pen.cuml
    let y := valueAt below time - nc
    { row := pen.row.set time y
      lastTime := time
      lastBelow := if increased then valueAt below pen.lastTime else pen.lastBelow
      cuml := nc
      y := y
      segments := pen.segments ++
        [{ start := pen.lastTime
           stop := some time
           rect := ⟨graph.segmentX pen.lastTime, valueAt below pen.lastTime - lastCuml,
            graph.segmentW pen.lastTime time, lastCuml⟩ }] }
  else { pen with row := pen.row.set time pen.y }

/-- The pen before the loop over the times. -/
def penStart (below row : Dict ℚ ℚ) : Pen :=
  let lastTime := graph.times.headD 0
  { row := row
    lastTime := lastTime
    lastBelow := valueAt below lastTime
    cuml := 0
    y := valueAt below lastTime
    segments := [] }

/-- One round of the loop over the groups. Tiny groups are left out. -/
def layer (below : Dict ℚ ℚ) (cs : CumlSample) : Option Layer :=
  let (row, cuml) := graph.accumulate cs.samples
  if cuml * graph.pixPerNs ≤ 2 then none
  else
    let pen := graph.times.foldl (graph.penStep below) (graph.penStart below row)
    let x := graph.segmentX pen.lastTime
    let y := valueAt below pen.lastTime - pen.cuml
    some
      { group := cs
        processTotalTime := cuml
        row := pen.row
        segments := pen.segments ++
          [{ start := pen.lastTime
             stop := none
             rect := ⟨x, y, graph.chartBounds.width - x, pen.cuml⟩ }]
        cuml := pen.cuml
        y := y }

/-- The loop over the groups. -/
def layersFrom (below : Dict ℚ ℚ) : List CumlSample → List Layer
  | [] => []
  | cs :: rest =>
      match graph.layer below cs with
      | none => layersFrom below rest
      | some layer => layer :: layersFrom layer.row rest

/-- The groups that are drawn, in order. -/
def layers : List Layer :=
  graph.layersFrom graph.firstBelow graph.mProcList.values

/-! ## The drawing -/

/-- What is done for a segment. Its place is divided by the duration, and so is its
length unless it is the last one. -/
def drawSegment (color : Color) (segment : Segment) : Drawing :=
  List.replicate (if segment.stop.isSome then 2 else 1)
    (.perDuration graph.procTree.duration) ++ [.command (.fillRect color segment.rect)]

/-- What is done for the group that is the `place`th to be drawn. -/
def drawLayer (place : Nat) (layer : Layer) : Drawing :=
  layer.segments.flatMap (graph.drawSegment (getColor place))

/-- The label of a group, if there is room for it. -/
def label (layer : Layer) : Option Command :=
  let extnts := graph.canvas.textExtents layer.group.cmd
  if 8 < layer.cuml then
    some (.showText layer.group.cmd textColor
      (graph.chartBounds.x + graph.chartBounds.width - extnts.width - offset * 2)
      (layer.y + (layer.cuml + extnts.height) / 2))
  else none

/-- The text above the graph. -/
def title (duration : ℚ) : Text :=
  (match graph.sampleValue with
    | .cpu => "Cumulative CPU usage, by process; total CPU: ".toList
    | .io => "Cumulative I/O usage, by process; total I/O: ".toList) ++
  ' ' :: graph.canvas.format "%.5g".toList (graph.totalTime / 1000000000) ++
  "(s) time: ".toList ++ graph.canvas.format "%.3g".toList (duration / 100) ++ "(s)".toList

/-- The `i`th legend. -/
def drawLegend (i place : Nat) (layer : Layer) : Drawing :=
  let time := layer.processTotalTime
  drawLegendBox
    (layer.group.cmd ++ " - ".toList ++
      graph.canvas.format "%.0f".toList (time / 1000000) ++ "(ms) (".toList ++
      graph.canvas.format "%2.2f".toList (time / graph.totalTime * 100) ++
      "%)".toList)
    (getColor place)
    (graph.chartBounds.x + offset + (i / 15 : Nat) * 300)
    (graph.chartBounds.y + 20 * ((i % 15 : Nat) + 2)) legS

/-- `draw_cuml_graph`. -/
def drawCumlGraph (duration : ℚ) (secW : ℤ) : Drawing :=
  if graph.times.length < 2 ∨ graph.totalTime = 0 then []
  else
    let placed := (graph.layers.zipIdx 1).map Prod.swap
    let legends := placed.mergeSort fun first second =>
      second.2.processTotalTime ≤ first.2.processTotalTime
    placed.flatMap (fun (place, layer) => graph.drawLayer place layer) ++
    drawBoxTicks graph.chartBounds secW ++
    (graph.layers.filterMap graph.label).map Event.command ++
    [.command (.showText (graph.title duration) textColor (graph.chartBounds.x + offset)
      (graph.chartBounds.y + 20))] ++
    ((legends.take 45).zipIdx).flatMap fun ((place, layer), i) =>
      graph.drawLegend i place layer

/-- What is done for a graph. -/
theorem mem_drawCumlGraph
    {duration : ℚ}
    {secW : ℤ}
    {event : Event}
    (member : event ∈ graph.drawCumlGraph duration secW) :
    event = .perDuration graph.procTree.duration ∨
      event ∈ drawBoxTicks graph.chartBounds secW ∨
      (∃ color rect, event = .command (.fillRect color rect)) ∨
      (∃ text color x y, event = .command (.showText text color x y)) ∨
      ∃ text color x y, event ∈ drawLegendBox text color x y legS := by
  unfold drawCumlGraph at member
  split at member
  next => contradiction
  next =>
    simp only [List.mem_append, List.mem_flatMap, List.mem_map, List.mem_filterMap,
      List.mem_singleton] at member
    rcases member with (((⟨placed, -, inLayer⟩ | isTick) | ⟨command, ⟨layer, -, isLabel⟩, rfl⟩) |
      rfl) | ⟨legend, -, inLegend⟩
    · obtain ⟨segment, -, inSegment⟩ := List.mem_flatMap.mp inLayer
      rcases List.mem_append.mp inSegment with isDivision | isRect
      · exact .inl (List.eq_of_mem_replicate isDivision)
      · exact .inr (.inr (.inl ⟨_, _, List.mem_singleton.mp isRect⟩))
    · exact .inr (.inl isTick)
    · unfold label at isLabel
      split at isLabel
      · obtain rfl := Option.some.inj isLabel
        exact .inr (.inr (.inr (.inl ⟨_, _, _, _, rfl⟩)))
      · contradiction
    · exact .inr (.inr (.inr (.inl ⟨_, _, _, _, rfl⟩)))
    · exact .inr (.inr (.inr (.inr ⟨_, _, _, _, inLegend⟩)))

end CumlGraph

end Draw
end Bootchart
