import Bootchart.Collector.OutputRun
import Bootchart.Collector.NetlinkLive
import Bootchart.Collector.PidScannerContract
import Bootchart.Collector.ProcessLog
import Bootchart.Parsing.TaskstatsLine
import Bootchart.Parsing.ProcPsLine
import Bootchart.Parsing.ProcessUse
import Bootchart.Parsing.TaskstatsTotals
import Bootchart.Trace.Occurrence
import Bootchart.Trace.ParseOrder
import Bootchart.Trace.Covering
import Bootchart.ProcessTree.Totals
import Bootchart.Library.JoinedRuns
import Bootchart.ProcessTree.Doubled
import Bootchart.ProcessTree.NormalForm
import Bootchart.ProcessTree.LoggerLoss
import Bootchart.Trace.KernelLog
import Bootchart.Parsing.CutLog
import Bootchart.Parsing.Readers
import Bootchart.Draw.TimeAxis
import Bootchart.Draw.Safety
import Bootchart.Draw.Clipping
import Bootchart.Draw.Stacking
import Bootchart.Draw.ActivityBars
import Bootchart.ProcessTree.Pruning
import Bootchart.ProcessTree.Exploders
import Bootchart.ProcessTree.SortedChildren
import Bootchart.ProcessTree.Daemons
import Bootchart.Trace.AllSeries
import Bootchart.Trace.Times
import Bootchart.Trace.ParentSearch
import Bootchart.Parsing.CutProcessLogs
import Bootchart.Parsing.DiskNames
import Bootchart.Parsing.DiskThroughput
import Bootchart.Parsing.Initcalls
import Bootchart.Collector.Cmdline
import Bootchart.Parsing.CmdlineLog
import Bootchart.Collector.Dmsg
import Bootchart.Collector.Threads
import Bootchart.Collector.SkippedSamples
import Bootchart.Collector.KnownPids
import Bootchart.Collector.NetlinkMessages
import Bootchart.Collector.TaskstatsSearch
import Bootchart.Collector.FindChunks
import Bootchart.Collector.ArgumentsUsage
import Bootchart.Parsing.Pacct
import Bootchart.Collector.LengthsOfBuffers
import Bootchart.Collector.MainExclusion
import Bootchart.Collector.DumpSession
import Bootchart.Parsing.PaternityLog
import Bootchart.Library.Numbering
import Bootchart.Draw.Rows
import Bootchart.Draw.Picture
import Bootchart.Library.Words
import Bootchart.Library.Pairs
import Bootchart.Collector.SystemLogs
import Bootchart.Parsing.CpuShares
import Bootchart.Parsing.MemoryLog
import Bootchart.Trace.Paths
import Bootchart.Library.Newcomers
import Bootchart.Trace.ForkedParents
import Bootchart.Library.CStrings
import Bootchart.Collector.Header
import Bootchart.Parsing.HeaderLog
