import Bootchart.Draw.Cumulative
import Bootchart.ProcessTree.KernelTree
import Bootchart.Trace.Init

/-!
# Rendering a trace

`render` draws a trace at a scale: the charts of the processors, the disks and the memory,
the bars of the processes, and the cumulative graphs. The texts of the header are left out.
-/

namespace Bootchart
namespace Draw

open Library (Text)
open Trace (Made)

/-- `RenderOptions`. -/
structure RenderOptions where
  /-- `cumulative`. -/
  cumulative : Bool
  /-- `charts`. -/
  charts : Bool
  /-- `kernel_only`. -/
  kernelOnly : Bool
  /-- `app_options`. -/
  appOptions : AppOptions

/-- `RenderOptions.__init__`. -/
def RenderOptions.new (appOptions : AppOptions) : RenderOptions where
  cumulative := true
  charts := true
  kernelOnly := false
  appOptions := appOptions

/-- What drawing reads of `proc_tree`. -/
def mainTree (trace : Made) : ProcTree where
  objects := trace.procTree.state.objects
  processTree := trace.procTree.processTree
  startTime := trace.procTree.startTime
  duration := trace.procTree.duration
  samplePeriod := trace.stats.psStats.samplePeriod
  numProc := trace.procTree.numProc
  idle := trace.times.head?.join
  taskstats := trace.taskstats

/-- What drawing reads of `kernel_tree`, which has neither a sample period nor an idle
time. -/
def kernelTree (trace : Made) : ProcTree :=
  let finished := ProcessTree.kernelTree (trace.headers.get? Trace.profileProcess)
    trace.procTree (trace.kernel.getD [])
  { objects := finished.state.objects
    processTree := finished.processTree
    startTime := finished.startTime
    duration := finished.duration
    samplePeriod := 0
    numProc := finished.numProc
    idle := none
    taskstats := false }

/-- `RenderOptions.proc_tree`. -/
def RenderOptions.procTree (options : RenderOptions) (trace : Made) : ProcTree :=
  if options.kernelOnly then kernelTree trace else mainTree trace

/-- `int(number)`. -/
def truncate (number : ℚ) : ℤ :=
  if number < 0 then ⌈number⌉ else ⌊number⌋

/-- `sec_w_base`: the width of a second. -/
def secWBase : ℚ := 50

/-- `bar_h`. -/
def barH : ℚ := 55

/-- `meminfo_bar_h`. -/
def meminfoBarH : ℚ := 2 * barH

/-- `header_h`. -/
def headerH : ℚ := 110 + 2 * (30 + barH) + 1 * (30 + meminfoBarH)

/-- `MIN_IMG_W`. -/
def minImgW : ℚ := 800

/-- `CUML_HEIGHT`. -/
def cumlHeight : ℚ := 2000

/-- `extents`. -/
def extents (options : RenderOptions) (xscale : ℚ) (trace : Made) : ℚ × ℚ :=
  let procTree := options.procTree trace
  (truncate (procTree.duration * secWBase * xscale / 100) + 2 * offset,
    procH * procTree.numProc + 2 * offset + (if options.charts then headerH else 0) +
      if procTree.taskstats ∧ options.cumulative then cumlHeight + 4 * offset else 0)

/-- `clip_visible`. -/
def clipVisible (clip : Clip) (rect : Rect) : Bool :=
  match clip with
  | none => 0 < rect.width ∧ 0 < rect.height
  | some clip =>
      max clip.x rect.x < min (clip.x + clip.width) (rect.x + rect.width) ∧
        max clip.y rect.y < min (clip.y + clip.height) (rect.y + rect.height)

/-! ## Charts -/

/-- `CPU_COLOR`. -/
def cpuColor : Color := ⟨40 / 100, 55 / 100, 70 / 100, 1⟩

/-- `IO_COLOR`. -/
def ioColor : Color := ⟨76 / 100, 48 / 100, 48 / 100, 1 / 2⟩

/-- `DISK_TPUT_COLOR`. -/
def diskTputColor : Color := ⟨20 / 100, 71 / 100, 20 / 100, 1⟩

/-- `MEM_CACHED_COLOR`. -/
def memCachedColor : Color := cpuColor

/-- `MEM_USED_COLOR`. -/
def memUsedColor : Color := ioColor

/-- `MEM_BUFFERS_COLOR`. -/
def memBuffersColor : Color := ⟨4 / 10, 4 / 10, 4 / 10, 3 / 10⟩

/-- `MEM_SWAP_COLOR`. -/
def memSwapColor : Color := diskTputColor

/-- Samples of processors as points of a chart. -/
def cpuData (trace : Made) (value : CPUSample → ℚ) : List Point :=
  trace.stats.cpuStats.map fun sample => (sample.time.getD 0, value sample)

/-- Samples of disks as points of a chart. -/
def diskData (trace : Made) (value : DiskSample → ℚ) : List Point :=
  trace.stats.diskStats.map fun sample => (sample.time, value sample)

/-- The property `tput`. -/
def tput (sample : DiskSample) : ℚ :=
  sample.read + sample.write

/-- `max(samples, key = lambda s: s.tput)`: the first sample with the largest value. -/
def maxSample : List DiskSample → Option DiskSample
  | [] => none
  | first :: rest => some <| rest.foldl (fun best sample =>
      if tput best < tput sample then sample else best) first

/-- A value of a memory sample. -/
def record (sample : MemSample) (name : String) : ℚ :=
  (sample.records.get? name.toList).getD 0

/-- Memory that is not free. -/
def memTaken (sample : MemSample) : ℚ :=
  record sample "MemTotal" - record sample "MemFree"

/-- Swap space that is not free. -/
def swapTaken (sample : MemSample) : ℚ :=
  record sample "SwapTotal" - record sample "SwapFree"

/-- Samples of memory as points of a chart. -/
def memData (memStats : List MemSample) (value : MemSample → ℚ) : List Point :=
  memStats.map fun sample => (sample.time, value sample)

/-- The charts of the processors. -/
def cpuCharts
    (clip : Clip)
    (procTree : ProcTree)
    (trace : Made)
    (chartRect : Rect)
    (secW : ℤ) : Drawing :=
  if clipVisible clip chartRect then
    drawBoxTicks chartRect secW ++
    drawAnnotations procTree trace.times chartRect ++
    drawChart ioColor true chartRect
      (cpuData trace fun sample => sample.user + sample.sys + sample.io) procTree none ++
    drawChart cpuColor true chartRect
      (cpuData trace fun sample => sample.user + sample.sys) procTree none
  else []

/-- The charts of the disks. -/
def diskCharts
    (canvas : Canvas)
    (clip : Clip)
    (procTree : ProcTree)
    (trace : Made)
    (chartRect : Rect)
    (currY : ℚ)
    (secW : ℤ) : Drawing :=
  (if clipVisible clip chartRect then
    drawBoxTicks chartRect secW ++
    drawAnnotations procTree trace.times chartRect ++
    drawChart ioColor true chartRect (diskData trace DiskSample.util) procTree none
  else []) ++
  [.maximum (trace.stats.diskStats.map tput)] ++
  (if clipVisible clip chartRect then
    drawChart diskTputColor false chartRect (diskData trace tput) procTree none
  else []) ++
  [.perDuration procTree.duration] ++
  ((maxSample trace.stats.diskStats).map fun sample =>
    let posX := offset + procTree.timeX chartRect sample.time
    let shift : Point := if posX < offset + 245 then (5, 40) else (-20, 20)
    let label := Library.Text.decimal (canvas.round (tput sample / 1024)) ++ "MB/s".toList
    Event.command (.showText label diskTputColor (posX + shift.1) (currY + shift.2))).toList

/-- The charts of the memory. -/
def memCharts
    (procTree : ProcTree)
    (trace : Made)
    (memStats : List MemSample)
    (chartRect : Rect)
    (currY : ℚ)
    (secW : ℤ) : Drawing :=
  let memScale := largest (memStats.map memTaken)
  let swapScale := largest (memStats.map fun sample => swapTaken sample / 1024)
  let scale (name : String) (value : ℚ) : Text :=
    name.toList ++ " (scale: ".toList ++ Library.Text.decimal (truncate value) ++
      " MiB)".toList
  .maximum (memStats.map memTaken) ::
    (drawLegendBox (scale "Mem cached" (memScale / 1024)) memCachedColor offset
      (currY + 20) legS ++
    drawLegendBox "Used".toList memUsedColor (offset + 240) (currY + 20) legS ++
    drawLegendBox "Buffers".toList memBuffersColor (offset + 360) (currY + 20) legS ++
    .maximum (memStats.map fun sample => swapTaken sample / 1024) ::
    (drawLegendLine (scale "Swap" swapScale) memSwapColor (offset + 480) (currY + 20)
      legS ++
    drawBoxTicks chartRect secW ++
    drawAnnotations procTree trace.times chartRect ++
    drawChart memBuffersColor true chartRect (memData memStats memTaken) procTree
      (some (0, memScale)) ++
    drawChart memUsedColor true chartRect
      (memData memStats fun sample => memTaken sample - record sample "Buffers") procTree
      (some (0, memScale)) ++
    drawChart memCachedColor true chartRect
      (memData memStats fun sample => record sample "Cached") procTree
      (some (0, memScale)) ++
    drawChart memSwapColor false chartRect (memData memStats swapTaken) procTree none))

/-- `render_charts`, and where it ends. -/
def renderCharts
    (canvas : Canvas)
    (clip : Clip)
    (procTree : ProcTree)
    (trace : Made)
    (currY w : ℚ)
    (secW : ℤ) : Drawing × ℚ :=
  let second := currY + 30 + barH
  let third := second + 30 + barH
  let memRect : Rect := ⟨offset, third + 30, w, meminfoBarH⟩
  let memStats := trace.memStats.getD []
  let showsMem := memStats ≠ [] ∧ clipVisible clip memRect
  (drawLegendBox "CPU (user+sys)".toList cpuColor offset (currY + 20) legS ++
    drawLegendBox "I/O (wait)".toList ioColor (offset + 120) (currY + 20) legS ++
    cpuCharts clip procTree trace ⟨offset, currY + 30, w, barH⟩ secW ++
    drawLegendLine "Disk throughput".toList diskTputColor offset (second + 20) legS ++
    drawLegendBox "Disk utilization".toList ioColor (offset + 120) (second + 20) legS ++
    diskCharts canvas clip procTree trace ⟨offset, second + 30, w, barH⟩ second secW ++
    (if showsMem then memCharts procTree trace memStats memRect third secW else []),
  third + if showsMem then meminfoBarH else 0)

/-! ## The picture -/

/-- `SIGNATURE`. -/
def signature : Text :=
  "http://github.com/mmeeks/bootchart".toList

/-- `SIG_COLOR`. -/
def sigColor : Color := ⟨0, 0, 0, 3125 / 10000⟩

/-- Where `draw_header` ends: below a title, four headers and the time. The first line is
measured in the size that cairo begins with. -/
def headerEnd (canvas : Canvas) : ℚ :=
  canvas.fontHeight 10 + 10 + 4 * canvas.fontHeight 12 + canvas.fontHeight 12

/-- `sec_w`. -/
def secW (xscale : ℚ) : ℤ :=
  truncate (xscale * secWBase)

/-- `duration` in `render`: the idle time, if there is one. -/
def ProcTree.shownDuration (procTree : ProcTree) : ℚ :=
  match procTree.idle with
  | some idle => if idle = 0 then procTree.duration else idle
  | none => procTree.duration

/-- A cumulative graph below the rows, if it shows in the clip. -/
def cumlGraph
    (canvas : Canvas)
    (clip : Clip)
    (procTree : ProcTree)
    (trace : Made)
    (currY w : ℚ)
    (secW : ℤ)
    (statType : ProcessTree.Statistic) : Drawing :=
  let cumlRect : Rect := ⟨offset, currY, w, cumlHeight / 2 - offset * 2⟩
  if clipVisible clip cumlRect then
    CumlGraph.drawCumlGraph
      { canvas := canvas
        procTree := procTree
        processList := trace.procTree.processList.map trace.procTree.state.objects
        chartBounds := cumlRect
        sampleValue := statType } procTree.shownDuration secW
  else []

/-- The cumulative graphs at the end of `render`: of the time on the processor, and of the
time waiting for devices. -/
def cumlGraphs
    (canvas : Canvas)
    (clip : Clip)
    (options : RenderOptions)
    (xscale : ℚ)
    (trace : Made) : Drawing :=
  let procTree := options.procTree trace
  let size := extents options xscale trace
  let w := size.1 - 2 * offset
  let currY := size.2 - cumlHeight
  if procTree.taskstats ∧ options.cumulative then
    cumlGraph canvas clip procTree trace (currY + offset) w (secW xscale) .cpu ++
    cumlGraph canvas clip procTree trace (currY + offset * 100) w (secW xscale) .io
  else []

/-- `render`. -/
def render
    (canvas : Canvas)
    (clip : Clip)
    (options : RenderOptions)
    (xscale : ℚ)
    (trace : Made) : Drawing :=
  let procTree := options.procTree trace
  let size := extents options xscale trace
  let w := size.1 - 2 * offset
  let h := size.2
  let headerY := if options.kernelOnly then offset else headerEnd canvas
  let charts :=
    if options.charts then renderCharts canvas clip procTree trace headerY w (secW xscale)
    else ([], headerY)
  let procHeight :=
    h - if procTree.taskstats ∧ options.cumulative then cumlHeight else 0
  .command (.fillRect white ⟨0, 0, max size.1 minImgW, h⟩) ::
    (charts.1 ++
    drawProcessBarChart canvas clip options.appOptions options.kernelOnly procTree trace.times
      charts.2 w procHeight (secW xscale) ++
    [.command (.showText signature sigColor (offset + 5) (procHeight - 8))] ++
    cumlGraphs canvas clip options xscale trace)

end Draw
end Bootchart
