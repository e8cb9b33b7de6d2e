import Bootchart.ProcessTree.KernelTree
import Bootchart.Trace.Covering

/-!
# The kernel log of a trace

`Trace.__init__` makes two trees of the same process objects. What the first one does to
the processes of the kernel log is seen in the second.
-/

namespace Bootchart
namespace Trace

open Library (Text Dict)
open ProcessTree (IsKernel KernelAsParsed Linked HeadsUnseen Unmoved)

/-- The parents after linking and cropping are in the process map. -/
theorem parent_prepare
    {state : Trace}
    {stats prepared : Stats}
    {options : Options}
    {idle : Option ℚ}
    (isPrepared : prepare state stats options = .ok (prepared, idle))
    {key : Int}
    {process : Process}
    (isProcess : prepared.psStats.processMap.get? key = some process)
    {parent : ProcessId}
    (isParent : process.parent = some parent) : ¬IsKernel parent := by
  obtain ⟨linked, compiled, processes⟩ := prepare_cases isPrepared
  obtain ⟨original, isOriginal, isLeft⟩ := processes key process isProcess
  have sameParent : original.parent = some parent := by
    rcases isLeft with rfl | ⟨cropAt, rfl⟩
    · exact isParent
    · exact isParent
  obtain ⟨reparented, -, -, lookedUp⟩ := get?_compile compiled
  rw [lookedUp, Option.bind_eq_some_iff] at isOriginal
  obtain ⟨unlinked, -, isLinked⟩ := isOriginal
  obtain ⟨found, -, rfl⟩ := Option.map_eq_some_iff.mp isLinked
  rw [calcStats_parent] at sameParent
  obtain ⟨key, -, rfl⟩ := Option.map_eq_some_iff.mp sameParent
  rintro ⟨index, isKernel⟩
  contradiction

/-- The processes from which the tree of a trace is made. -/
theorem linked_init
    {paths : List Text}
    {files : List File}
    {options : Options}
    {made : Made}
    (isMade : init paths files options = .ok made) :
    Linked (made.kernel.getD []) made.stats.psStats.processMap := by
  obtain ⟨state, stats, idle, parsed, -, isPrepared, isKernel, -⟩ := init_eq_ok isMade
  have bare := bare_parsePaths parsed
  rw [← isKernel] at bare
  refine ⟨fun process member => (bare process member).1.1,
    fun process member => (bare process member).1.2,
    fun process member => (bare process member).2, fun key process isProcess parent => ?_⟩
  exact parent_prepare isPrepared isProcess

/-- In a trace with a kernel log, the first tree leaves the processes of the log as parsed
and the second shows each of them once, if and only if none of them is moved below `rc`,
and, when the tree is pruned, whatever follows one of them among the roots with the same
command joins it without a trace. -/
theorem kernelAsParsed_init_iff
    {paths : List Text}
    {files : List File}
    {options : Options}
    {made : Made}
    (isMade : init paths files options = .ok made)
    {kernel : List Process}
    (isKernel : made.kernel = some kernel) :
    KernelAsParsed (made.headers.get? profileProcess) kernel made.procTree ↔
      Unmoved made.accurateParentage kernel made.stats.psStats.processMap
        (processList kernel made.stats.psStats.processMap) ∧
      (options.prune = true → ∀ before ∈ ProcessTree.beforeMerging
        made.stats.psStats.samplePeriod (made.headers.get? profileProcess)
        made.accurateParentage (ProcessTree.objects kernel made.stats.psStats.processMap)
        (processList kernel made.stats.psStats.processMap),
          HeadsUnseen IsKernel before.1 before.2) := by
  have linked := linked_init isMade
  obtain ⟨state, stats, idle, -, -, -, -, -, isTree⟩ := init_eq_ok isMade
  rw [isKernel, Option.getD_some] at linked isTree
  exact ProcessTree.kernelAsParsed_iff linked isTree

/-- A kernel log with two functions of the same name. -/
def twoInitcalls : Text :=
  ["[    0.100000] calling  a+0x0/0x1 @ 1",
    "[    5.000000] initcall a+0x0/0x1 returned 0 after 0 usecs",
    "[    6.000000] calling  a+0x9/0x1 @ 1",
    "[    9.000000] initcall a+0x9/0x1 returned 0 after 0 usecs"].flatMap fun line =>
      line.toList ++ ['\n']

/-- A trace with this kernel log. -/
def kernelTrace : List File :=
  ("dmesg".toList, Library.Utf8.encode twoInitcalls) :: smallTrace

/-- With pruning, the second function joins the first one, which seems to run until that
ends. -/
theorem not_kernelAsParsed_kernelTrace :
    ∃ made kernel, init [] kernelTrace { cropAfter := none, annotate := [], prune := true } =
        .ok made ∧ made.kernel = some kernel ∧
      ¬KernelAsParsed (made.headers.get? profileProcess) kernel made.procTree := by
  obtain ⟨made, isMade, -, values⟩ := Made.exists_of_inOrder [] kernelTrace
    { cropAfter := none, annotate := [], prune := true }
    (fun made => made.kernel.any fun kernel =>
      (made.procTree.state.objects (.kernel 1)).duration = 890 &&
        kernel[1]?.any fun process => process.duration = 490)
    (by decide +kernel)
  obtain ⟨kernel, isKernel, values⟩ := (Option.any_eq_true _ _).mp values
  obtain ⟨merged, values⟩ := Bool.and_eq_true_iff.mp values
  obtain ⟨process, isProcess, parsed⟩ := (Option.any_eq_true _ _).mp values
  refine ⟨made, kernel, isMade, isKernel, fun asParsed => ?_⟩
  have same := (asParsed 1 process isProcess).1
  rw [same, of_decide_eq_true parsed] at merged
  exact absurd (of_decide_eq_true merged) (by norm_num)

/-- A kernel log with a function that is called again while it runs, and with another one. -/
def nestedInitcalls : Text :=
  ["[    0.100000] calling  b+0x0/0x1 @ 1",
    "[    1.000000] calling  b+0x9/0x1 @ 1",
    "[    2.000000] initcall b+0x9/0x1 returned 0 after 0 usecs",
    "[    5.000000] initcall b+0x0/0x1 returned 0 after 0 usecs",
    "[    6.000000] calling  c+0x0/0x1 @ 1",
    "[    9.000000] initcall c+0x0/0x1 returned 0 after 0 usecs"].flatMap fun line =>
      line.toList ++ ['\n']

/-- A trace with this kernel log. -/
def nestedTrace : List File :=
  ("dmesg".toList, Library.Utf8.encode nestedInitcalls) :: smallTrace

/-- With pruning, the second call joins the first one without a trace. -/
theorem kernelAsParsed_nestedTrace :
    ∃ made kernel, init [] nestedTrace { cropAfter := none, annotate := [], prune := true } =
        .ok made ∧ made.kernel = some kernel ∧
      KernelAsParsed (made.headers.get? profileProcess) kernel made.procTree := by
  obtain ⟨made, isMade, inOrder, values⟩ := Made.exists_of_inOrder [] nestedTrace
    { cropAfter := none, annotate := [], prune := true }
    (fun made => made.accurateParentage && made.kernel.any fun kernel =>
      (ProcessTree.beforeMerging made.stats.psStats.samplePeriod
        (made.headers.get? profileProcess) made.accurateParentage
        (ProcessTree.objects kernel made.stats.psStats.processMap)
        (ProcessTree.processIds kernel made.stats.psStats.processMap)).all fun before =>
          (before.2.runs before.1.cmd).all fun run => run.head?.all fun first =>
            (Library.Forest.elements run).all fun other => decide
              (before.1.cmd other = before.1.cmd first.1 ∧
                (before.1.objects other).samples.isEmpty ∧
                (before.1.objects first.1).startTime ≤ (before.1.objects other).startTime ∧
                (before.1.objects other).getEndTime ≤ (before.1.objects first.1).getEndTime))
    (by decide +kernel)
  obtain ⟨isAccurate, values⟩ := Bool.and_eq_true_iff.mp values
  obtain ⟨kernel, isKernel, values⟩ := (Option.any_eq_true _ _).mp values
  refine ⟨made, kernel, isMade, isKernel, (kernelAsParsed_init_iff isMade isKernel).mpr
    ⟨fun index _ moves => ?_, fun _ before isBefore run isRun first isFirst _ other isOther => ?_⟩⟩
  · rw [isAccurate] at moves
    exact absurd moves.1 Bool.noConfusion
  · rw [Made.InOrder, isKernel, Option.getD_some] at inOrder
    rw [processList, ProcessTree.sortByPid, List.mergeSort_of_pairwise inOrder] at isBefore
    rw [isBefore, Option.all_some, List.all_eq_true] at values
    have heads := values run isRun
    rw [isFirst, Option.all_some, List.all_eq_true] at heads
    obtain ⟨cmd, samples, starts, ends⟩ := of_decide_eq_true (heads other isOther)
    exact ⟨cmd, List.isEmpty_iff.mp samples, starts, ends⟩

end Trace
end Bootchart
