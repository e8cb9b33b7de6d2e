import Bootchart.ProcessTree.KernelRoots
import Bootchart.ProcessTree.Runs

/-!
# The tree of the kernel log

After the first tree, a second one is made of the same process objects, for the kernel
log alone. The objects are still those of the log if and only if no process of the log
was moved, and what joined it was there without a trace.
-/

namespace Bootchart
namespace ProcessTree

open Library (Text Dict Forest)
open Library.Forest (elements)

/-! ## The second tree -/

/-- A tree is finished by the passes over it. -/
def complete
    (samplePeriod : ℚ)
    (monitoredApp : Option Text)
    (isPruned : Bool)
    (processList : List ProcessId)
    (objects : Objects)
    (forest : Forest ProcessId) : Finished :=
  let (state, forest) := passes samplePeriod monitoredApp isPruned objects forest
  let forest := sort state.objects forest
  let startTime := getStartTime state.objects forest
  let endTime := getEndTime state.objects forest
  { processList := processList
    state := state
    processTree := forest
    startTime := startTime
    endTime := endTime
    duration := endTime - startTime
    numProc := numNodes forest }

/-- A tree is built first, and then completed. -/
theorem finish_eq
    (samplePeriod : ℚ)
    (monitoredApp : Option Text)
    (isPruned accurateParentage : Bool)
    (objects : Objects)
    (processList : List ProcessId) :
    finish samplePeriod monitoredApp isPruned accurateParentage objects processList =
      (firstTree accurateParentage objects processList).map fun first =>
        complete samplePeriod monitoredApp isPruned processList first.1 first.2 := rfl

/-- The `child_list` that a finished tree leaves to a process. A process of the kernel log
that is not in the tree has none. -/
def Finished.childList (finished : Finished) (proc : ProcessId) : List ProcessId :=
  finished.processTree.childrenOf proc

/-- `ProcessTree.__init__` for the kernel log alone, after the first tree: the processes
still have the child lists which that has left to them. -/
def kernelTree
    (monitoredApp : Option Text)
    (finished : Finished)
    (kernel : List Process) : Finished :=
  let objects := finished.state.objects
  let processList := sortByPid objects ((List.range kernel.length).map .kernel)
  let links := processList.foldl (Links.add objects)
    { processTree := [], childList := finished.childList }
  complete 0 monitoredApp false processList objects
    (links.forest finished.processList.length links.processTree)

/-- The process objects of the kernel log are as parsed, and the second tree shows each
of them once. -/
def KernelAsParsed
    (monitoredApp : Option Text)
    (kernel : List Process)
    (finished : Finished) : Prop :=
  ∀ index process, kernel[index]? = some process →
    finished.state.objects (.kernel index) = process ∧
    finished.childList (.kernel index) = [] ∧
    (kernelTree monitoredApp finished kernel).processTree.toList.count
      (.kernel index) = 1 ∧
    (kernelTree monitoredApp finished kernel).state.objects (.kernel index) = process

section Flat

/-- Trees without children. -/
def flat (processes : List ProcessId) : Forest ProcessId :=
  processes.foldr (fun proc siblings => .cons proc .nil siblings) .nil

@[simp] theorem toList_flat (processes : List ProcessId) :
    (flat processes).toList = processes := by
  induction processes with
  | nil => rfl
  | cons proc processes inductionHypothesis =>
      exact congrArg (proc :: ·) inductionHypothesis

/-- Processes whose child lists are empty are trees without children. -/
theorem unfold_eq_flat
    {children : ProcessId → List ProcessId}
    {processes : List ProcessId}
    (noChildren : ∀ proc ∈ processes, children proc = [])
    (depth : Nat) : Forest.unfold children (depth + 1) processes = flat processes := by
  induction processes with
  | nil => rfl
  | cons proc processes inductionHypothesis =>
      rw [List.forall_mem_cons] at noChildren
      rw [Forest.unfold_cons, noChildren.1, Forest.unfold_nil,
        inductionHypothesis noChildren.2]
      rfl

/-- `merge_logger` changes nothing if nobody has children. -/
theorem mergeLogger_flat
    (monitoredApp : Option Text)
    (state : State)
    (processes : List ProcessId) :
    mergeLogger loggerProc monitoredApp state (flat processes) =
      (state, flat processes, 0) := by
  induction processes with
  | nil => rfl
  | cons proc processes inductionHypothesis =>
      have nothing : loggerPolicy loggerProc monitoredApp state.cmd proc [] = [] := by
        simp [loggerPolicy]
      rw [flat, List.foldr_cons, ← flat, mergeLogger_cons, Forest.roots_nil, nothing]
      simp only [Library.unmarked_nil, State.absorb, List.foldl_nil]
      rw [mergeLogger, inductionHypothesis]
      rfl

/-- Nor does sorting. -/
theorem sort_flat (objects : Objects) (processes : List ProcessId) :
    sort objects (flat processes) = flat processes := by
  induction processes with
  | nil => rfl
  | cons proc processes inductionHypothesis =>
      rw [flat, List.foldr_cons, ← flat, sort, inductionHypothesis, sort,
        Forest.sortRoots_nil]

/-- The passes change nothing then, if the tree is not pruned. -/
theorem complete_flat
    (samplePeriod : ℚ)
    (monitoredApp : Option Text)
    (processList : List ProcessId)
    (objects : Objects)
    (processes : List ProcessId) :
    (complete samplePeriod monitoredApp false processList objects
        (flat processes)).state.objects = objects ∧
      (complete samplePeriod monitoredApp false processList objects
        (flat processes)).processTree = flat processes := by
  have unchanged : passes samplePeriod monitoredApp false objects (flat processes) =
      ({ objects := objects, merges := [] }, flat processes) := by
    rw [passes, mergeLogger_flat]
    rfl
  rw [complete, unchanged]
  exact ⟨rfl, sort_flat objects processes⟩

/-- The second tree shows each process of the kernel log as it is, if they have neither
children nor parents. -/
theorem kernelTree_of_unlinked
    (monitoredApp : Option Text)
    {finished : Finished}
    {kernel : List Process}
    (nonempty : finished.processList ≠ [])
    (childless : ∀ index < kernel.length, finished.childList (.kernel index) = [])
    (parentless : ∀ index < kernel.length,
      (finished.state.objects (.kernel index)).parent = none) :
    (kernelTree monitoredApp finished kernel).state.objects = finished.state.objects ∧
      ∀ index < kernel.length, (kernelTree monitoredApp finished
        kernel).processTree.toList.count (.kernel index) = 1 := by
  let processes := sortByPid finished.state.objects
    ((List.range kernel.length).map .kernel)
  have perm : processes.Perm ((List.range kernel.length).map .kernel) :=
    List.mergeSort_perm _ _
  have areKernel : ∀ proc ∈ processes, ∃ index < kernel.length, proc = .kernel index := by
    intro proc member
    obtain ⟨index, inRange, rfl⟩ := List.mem_map.mp (perm.subset member)
    exact ⟨index, List.mem_range.mp inRange, rfl⟩
  have noParent (parent : ProcessId) :
      withParent finished.state.objects processes (some parent) = [] := by
    refine List.filter_eq_nil_iff.mpr fun proc member => ?_
    obtain ⟨index, inRange, rfl⟩ := areKernel proc member
    simp [parentless index inRange]
  have allRoots : withParent finished.state.objects processes none = processes := by
    refine List.filter_eq_self.mpr fun proc member => ?_
    obtain ⟨index, inRange, rfl⟩ := areKernel proc member
    simp [parentless index inRange]
  have isFlat : (processes.foldl (Links.add finished.state.objects)
      { processTree := [], childList := finished.childList }).forest
        finished.processList.length (processes.foldl (Links.add finished.state.objects)
          { processTree := [], childList := finished.childList }).processTree =
      flat processes := by
    obtain ⟨depth, isDepth⟩ := Nat.exists_eq_succ_of_ne_zero
      (List.length_eq_zero_iff.not.mpr nonempty)
    rw [foldl_add, allRoots, isDepth, Links.forest]
    refine unfold_eq_flat (fun proc member => ?_) depth
    obtain ⟨index, inRange, rfl⟩ := areKernel proc member
    simp only [childless index inRange, noParent, List.append_nil]
  have isTree : kernelTree monitoredApp finished kernel =
      complete 0 monitoredApp false processes finished.state.objects (flat processes) :=
    congrArg (complete 0 monitoredApp false processes finished.state.objects) isFlat
  obtain ⟨sameObjects, sameTree⟩ := complete_flat 0 monitoredApp processes
    finished.state.objects processes
  rw [isTree]
  refine ⟨sameObjects, fun index inRange => ?_⟩
  rw [sameTree, toList_flat, perm.count_eq]
  refine List.count_eq_one_of_mem ?_ ?_
  · exact List.nodup_range.map fun _ _ => ProcessId.kernel.inj
  · exact List.mem_map_of_mem (List.mem_range.mpr inRange)

end Flat

/-! ## Sorting -/

section Sorted

variable {objects : Objects}

/-- Sorting keeps the roots. -/
theorem roots_sort (forest : Forest ProcessId) : (sort objects forest).roots = forest.roots := by
  induction forest with
  | nil => rfl
  | cons root childList siblings _ inductionHypothesis =>
      rw [sort, Forest.roots_cons, inductionHypothesis, Forest.roots_cons]

variable (objects) in
/-- Sorting sorts every child list. -/
theorem forall_families_sort
    (forest : Forest ProcessId)
    (good : ProcessId × List ProcessId → Prop) :
    (∀ family ∈ (sort objects forest).families, good family) ↔
      ∀ family ∈ forest.families, good (family.1, sortByPid objects family.2) := by
  induction forest with
  | nil => simp [sort, Forest.families]
  | cons root childList siblings first second =>
      have sameFamilies := Forest.families_sortRoots_perm
        (fun first second => (objects first).pid ≤ (objects second).pid)
        (sort objects childList)
      rw [sort, Forest.families, Forest.families, List.forall_mem_cons, List.forall_mem_cons,
        List.forall_mem_append, List.forall_mem_append, second, ← first,
        Forest.roots_sortRoots, roots_sort]
      refine and_congr Iff.rfl (and_congr_left fun _ => ?_)
      exact forall_congr' fun family => imp_congr_left sameFamilies.mem_iff

/-- Sorting keeps processes without children, and makes no others. -/
theorem childless_sort (forest : Forest ProcessId) (proc : ProcessId) :
    (∀ family ∈ (sort objects forest).families, family.1 = proc → family.2 = []) ↔
      ∀ family ∈ forest.families, family.1 = proc → family.2 = [] := by
  have isEmpty (processes : List ProcessId) :
      sortByPid objects processes = [] ↔ processes = [] := by
    rw [← List.length_eq_zero_iff, sortByPid, List.length_mergeSort, List.length_eq_zero_iff]
  rw [forall_families_sort objects forest fun family => family.1 = proc → family.2 = []]
  simp only [isEmpty]

end Sorted

/-- The state and the tree that `merge_siblings` finds when a tree is made, nothing if
the building of the tree does not return. -/
def beforeMerging
    (samplePeriod : ℚ)
    (monitoredApp : Option Text)
    (accurateParentage : Bool)
    (objects : Objects)
    (processList : List ProcessId) : Option (State × Forest ProcessId) :=
  (firstTree accurateParentage objects processList).map fun (objects, forest) =>
    let startTime := getStartTime objects forest
    let period : Period :=
      { startTime := startTime
        duration := getEndTime objects forest - startTime
        samplePeriod := samplePeriod }
    let (state, forest, _) := mergeLogger loggerProc monitoredApp
      { objects := objects, merges := [] } forest
    let (forest, _) := prune period state.objects false forest
    let (forest, _) := mergeExploders forest
    (state, forest)

section BeforeMerging

variable {objects : Objects} {processes : List ProcessId} {accurateParentage : Bool}
variable {first : Objects × Forest ProcessId} {before : State × Forest ProcessId}

/-- There is such a tree if the first one is built. -/
theorem beforeMerging_eq_some
    (samplePeriod : ℚ)
    (monitoredApp : Option Text)
    (built : firstTree accurateParentage objects processes = some first) :
    ∃ before, beforeMerging samplePeriod monitoredApp accurateParentage objects processes =
      some before := by
  rw [beforeMerging, built]
  exact ⟨_, rfl⟩

/-- It has each process once, as `merge_logger` and `prune` leave it, and the passes merge
siblings and then runs in it. -/
theorem beforeMerging_spec
    {samplePeriod : ℚ}
    {monitoredApp : Option Text}
    (nodup : processes.Nodup)
    (built : firstTree accurateParentage objects processes = some first)
    (isBefore : beforeMerging samplePeriod monitoredApp accurateParentage objects processes =
      some before) :
    before.2.toList.Nodup ∧
      (∃ logged removed period, mergeLogger loggerProc monitoredApp
            { objects := first.1, merges := [] } first.2 = (before.1, logged, removed) ∧
          (prune period before.1.objects false logged).1 = before.2) ∧
        ∃ merged rest threads last result runs,
          mergeSiblings before.1 before.2 = (merged, rest, threads) ∧
            mergeRuns merged rest = (last, result, runs) ∧
            passes samplePeriod monitoredApp true first.1 first.2 = (last, result) := by
  rw [beforeMerging, built, Option.map_some] at isBefore
  simp only [mergeExploders_eq] at isBefore
  obtain rfl := Option.some.inj isBefore
  refine ⟨?_, ⟨_, _, _, rfl, rfl⟩, _, _, _, _, _, _, rfl, rfl, ?_⟩
  · obtain ⟨kept, perm, sublist⟩ := @toList_prune_subperm (mergeLogger loggerProc
      monitoredApp { objects := first.1, merges := [] } first.2).2.1 _ _ _
    refine perm.nodup_iff.mp (List.Nodup.sublist sublist ?_)
    rw [mergeLogger_eq_cut, eq_tree_of_firstTree built]
    exact (nodup_tree nodup).sublist (Forest.toList_cut_sublist _)
  · simp only [passes, pruneAndMerge, mergeExploders_eq, if_true]
    rfl

end BeforeMerging

/-! ## What may join a process -/

/-- A process joins another without a trace: it has its command and no samples, and lies
within its time. -/
structure JoinsUnseen (kept other : Process) : Prop where
  /-- The commands are the same. -/
  cmd : other.cmd = kept.cmd
  /-- No samples are added. -/
  samples : other.samples = []
  /-- It does not start earlier. -/
  starts : kept.startTime ≤ other.startTime
  /-- Nor does it end later. -/
  ends : other.getEndTime ≤ kept.getEndTime

section Joins

variable {state last : State} {run : List Tree} {proc : ProcessId}
variable {children : Forest ProcessId}

/-- If nothing but samples and times of a process may differ, it is the same if these are. -/
theorem eq_of_times
    {kept other : Process}
    (fixed : ∃ samples startTime duration, other =
      { kept with samples := samples, startTime := startTime, duration := duration })
    (sameSamples : other.samples = kept.samples)
    (sameStart : other.startTime = kept.startTime)
    (sameEnd : other.getEndTime = kept.getEndTime) : other = kept := by
  obtain ⟨samples, startTime, duration, rfl⟩ := fixed
  simp only [Process.getEndTime] at sameSamples sameStart sameEnd
  subst sameSamples sameStart
  have sameDuration : duration = kept.duration := by
    linarith
  rw [sameDuration]

/-- The first process of a run that has no samples stays as it is, without children, if
and only if all others of the run join it without a trace. -/
theorem unchanged_iff_joinsUnseen
    (gathered : Gathered state last run (proc, children))
    (member : proc ∈ elements run)
    (noSamples : (state.objects proc).samples = [])
    (normalForm : (Forest.cons proc children .nil).NormalForm state.cmd)
    (sameCmd : last.cmd = state.cmd)
    (fixed : ∃ samples startTime duration, last.objects proc =
      { state.objects proc with
        samples := samples, startTime := startTime, duration := duration }) :
    (last.objects proc = state.objects proc ∧ children = .nil) ↔
      ∀ other ∈ elements run, JoinsUnseen (state.objects proc) (state.objects other) := by
  obtain ⟨-, ⟨heldSame, starts, ends⟩, commands⟩ := gathered.gathers
  have allCommands := commands (state.cmd proc)
  constructor
  · rintro ⟨same, rfl⟩ other isOther
    have only : (elements [(proc, Forest.nil)] : Multiset ProcessId) = {proc} := rfl
    simp only [only, Multiset.mem_singleton, forall_eq, same, sameCmd, true_iff]
      at allCommands starts ends
    refine ⟨allCommands other isOther, ?_, (starts _).mp le_rfl other isOther,
      (ends _).mp le_rfl other isOther⟩
    have nothing : held (last, (elements [(proc, Forest.nil)] : Multiset ProcessId)) = 0 := by
      simp [held, same, noSamples]
    apply List.eq_nil_iff_forall_not_mem.mpr
    intro sample isSample
    have inHeld : sample ∈ held (state, (elements run : Multiset ProcessId)) :=
      Multiset.mem_bind.mpr ⟨other, isOther, isSample⟩
    rw [← heldSame, nothing] at inHeld
    exact absurd inHeld (Multiset.notMem_zero sample)
  · intro unseen
    have alike := allCommands.mpr fun other isOther => (unseen other isOther).cmd
    have noChildren : children = .nil := by
      refine normalForm.children_eq_nil fun child isChild => ?_
      rw [← sameCmd]
      have isElement : child ∈ elements [(proc, children)] := by
        simp [isChild]
      exact (alike child isElement).trans (congrFun sameCmd proc).symm
    subst noChildren
    have only : (elements [(proc, Forest.nil)] : Multiset ProcessId) = {proc} := rfl
    simp only [only, Multiset.mem_singleton, forall_eq] at heldSame starts ends
    have nothing : held (state, (elements run : Multiset ProcessId)) = 0 := by
      apply Multiset.eq_zero_of_forall_notMem
      intro sample isHeld
      obtain ⟨other, isOther, isSample⟩ := Multiset.mem_bind.mp isHeld
      rw [(unseen other isOther).samples] at isSample
      exact Multiset.notMem_zero sample isSample
    have sameSamples : (last.objects proc).samples = [] := by
      rw [nothing] at heldSame
      simpa [held] using heldSame
    have sameStart : (last.objects proc).startTime = (state.objects proc).startTime := by
      apply eq_of_forall_le_iff
      intro bound
      rw [starts]
      exact ⟨fun all => all proc member,
        fun bounded other isOther => bounded.trans (unseen other isOther).starts⟩
    have sameEnd : (last.objects proc).getEndTime = (state.objects proc).getEndTime := by
      apply eq_of_forall_ge_iff
      intro bound
      rw [ends]
      exact ⟨fun all => all proc member,
        fun bounded other isOther => (unseen other isOther).ends.trans bounded⟩
    exact ⟨eq_of_times fixed (sameSamples.trans noSamples.symm) sameStart sameEnd, rfl⟩

end Joins

/-! ## Merging -/

/-- Wherever the first process of a run is one of some processes, the others join it
without a trace. -/
def HeadsUnseen
    (special : ProcessId → Prop)
    (state : State)
    (forest : Forest ProcessId) : Prop :=
  ∀ run ∈ forest.runs state.cmd, ∀ first ∈ run.head?, special first.1 →
    ∀ other ∈ elements run, JoinsUnseen (state.objects first.1) (state.objects other)

section Both

variable {special : ProcessId → Prop} {state merged last : State}
variable {forest rest result : Forest ProcessId} {threads runs : Nat}

/-- A process that begins a run is unchanged if and only if the others join it without a
trace. -/
theorem unchanged_both_iff
    (distinct : forest.toList.Nodup)
    (first : mergeSiblings state forest = (merged, rest, threads))
    (second : mergeRuns merged rest = (last, result, runs))
    {run : List Tree}
    (isRun : run ∈ forest.runs state.cmd)
    {head : Tree}
    (isHead : head ∈ run.head?)
    (noSamples : (state.objects head.1).samples = []) :
    (last.objects head.1 = state.objects head.1 ∧ result.childrenOf head.1 = []) ↔
      ∀ other ∈ elements run, JoinsUnseen (state.objects head.1) (state.objects other) := by
  have joinings := joinings_both first second
  obtain ⟨tree, isTree, gathered⟩ := Library.exists_mem_of_forall₂
    (gathered_both distinct first second) isRun
  obtain ⟨proc, children⟩ := tree
  have sameRoot : head.1 = proc := by
    have isRoot := gathered.head
    rw [Option.mem_def.mp isHead] at isRoot
    exact Option.some.inj isRoot
  have noChildren : result.childrenOf head.1 = [] ↔ children = .nil := by
    rw [Forest.childrenOf_eq_nil, sameRoot, ← Forest.roots_eq_nil]
    constructor
    · intro childless
      refine childless (proc, children.roots) ?_ rfl
      rw [Forest.families_eq_flatMap]
      exact List.mem_flatMap.mpr ⟨_, isTree, List.mem_cons_self⟩
    · intro isNil family isFamily isProc
      rw [Forest.children_of_mem_trees (nodup_joinings joinings distinct) isTree isFamily
        isProc]
      exact isNil
  rw [noChildren]
  subst sameRoot
  refine unchanged_iff_joinsUnseen gathered ?_ noSamples
    ((normalForm_both first second).of_mem_trees isTree)
    (cmd_absorptions joinings.absorptions) (fixed_joinings joinings head.1)
  exact Forest.root_mem_elements (List.mem_of_mem_head? isHead)

/-- A process that is not in the forest has no children there. -/
theorem childrenOf_of_notMem {proc : ProcessId} (gone : proc ∉ result.toList) :
    result.childrenOf proc = [] := by
  rw [Forest.childrenOf_eq_nil]
  rintro family isFamily rfl
  rw [← Forest.map_fst_families] at gone
  exact absurd (List.mem_map_of_mem isFamily) gone

/-- Merging changes no process outside of the forest. -/
theorem unchanged_both_of_notMem
    (distinct : forest.toList.Nodup)
    (first : mergeSiblings state forest = (merged, rest, threads))
    (second : mergeRuns merged rest = (last, result, runs))
    {proc : ProcessId}
    (notMem : proc ∉ forest.toList) :
    last.objects proc = state.objects proc ∧ result.childrenOf proc = [] := by
  have joinings := joinings_both first second
  refine ⟨objects_joinings joinings notMem, childrenOf_of_notMem fun inResult => ?_⟩
  exact notMem (subset_joinings joinings distinct inResult)

/-- Merging changes none of some processes that are roots without children, and gives
them no children, if and only if the others join them without a trace. -/
theorem unchanged_both
    (distinct : forest.toList.Nodup)
    (alone : forest.Alone special)
    (noSamples : ∀ proc, special proc → (state.objects proc).samples = [])
    (first : mergeSiblings state forest = (merged, rest, threads))
    (second : mergeRuns merged rest = (last, result, runs)) :
    (∀ proc ∈ forest.toList, special proc →
        last.objects proc = state.objects proc ∧ result.childrenOf proc = []) ↔
      HeadsUnseen special state forest := by
  constructor
  · intro unchanged run isRun head isHead isSpecial
    have inForest := Forest.elements_run_subset isRun
      (Forest.root_mem_elements (List.mem_of_mem_head? isHead))
    exact (unchanged_both_iff distinct first second isRun isHead
      (noSamples head.1 isSpecial)).mp (unchanged head.1 inForest isSpecial)
  · intro unseen proc member isSpecial
    have isTree := alone.mem_trees member isSpecial
    rw [← Forest.flatten_runs state.cmd] at isTree
    obtain ⟨run, isRun, inRun⟩ := List.mem_flatten.mp isTree
    cases run with
    | nil => contradiction
    | cons head others =>
        rcases List.mem_cons.mp inRun with rfl | inOthers
        · exact (unchanged_both_iff distinct first second isRun rfl
            (noSamples proc isSpecial)).mpr (unseen _ isRun _ rfl isSpecial)
        · obtain ⟨gone, unchanged⟩ := absorbed_both distinct first second isRun inOthers
          exact ⟨unchanged rfl, childrenOf_of_notMem gone⟩

end Both

/-! ## The kernel log -/

/-- Merging changes no parent. -/
theorem parent_mergeRun
    {processes : List ProcessId}
    {state next : State}
    (run : MergeRun processes state next)
    (proc : ProcessId) : (next.objects proc).parent = (state.objects proc).parent := by
  induction run with
  | refl => rfl
  | tail _ step inductionHypothesis =>
      obtain ⟨p1, -, p2, -, rfl⟩ := step
      by_cases same : proc = p1
      · subst same
        rw [State.objects_mergeProcesses, Function.update_self, ← inductionHypothesis]
        rfl
      · rw [State.objects_mergeProcesses, Function.update_of_ne same, inductionHypothesis]

section Kernel

variable {samplePeriod : ℚ} {monitoredApp : Option Text}
variable {isPruned accurateParentage : Bool} {kernel : List Process}
variable {processMap : Dict Int Process} {finished : Finished}

/-- The process objects of the kernel log are as parsed, and have no children. -/
def Unchanged
    (kernel : List Process)
    (processMap : Dict Int Process)
    (finished : Finished) : Prop :=
  ∀ index < kernel.length,
    finished.state.objects (.kernel index) = objects kernel processMap (.kernel index) ∧
      finished.childList (.kernel index) = []

/-- The processes of the kernel log are in the list. -/
theorem kernel_mem_sortByPid (processMap : Dict Int Process) {index : Nat} :
    .kernel index ∈ sortByPid (objects kernel processMap) (processIds kernel processMap) ↔
      index < kernel.length := by
  rw [sortByPid, (List.mergeSort_perm _ _).mem_iff, processIds]
  simp

/-- The second tree then shows them as parsed. -/
theorem kernelAsParsed_iff_unchanged
    (linked : Linked kernel processMap)
    (made : init samplePeriod monitoredApp isPruned accurateParentage kernel processMap =
      some finished) :
    KernelAsParsed monitoredApp kernel finished ↔ Unchanged kernel processMap finished := by
  have isProcess {index : Nat} {process : Process} (present : kernel[index]? = some process) :
      index < kernel.length ∧ objects kernel processMap (.kernel index) = process := by
    refine ⟨(List.getElem?_eq_some_iff.mp present).1, ?_⟩
    rw [objects, List.getD_eq_getElem?_getD, present, Option.getD_some]
  constructor
  · intro asParsed index inRange
    have present := List.getElem?_eq_getElem inRange
    obtain ⟨same, childless, -⟩ := asParsed index _ present
    exact ⟨same.trans (isProcess present).2.symm, childless⟩
  · intro unchanged index process present
    obtain ⟨inRange, rfl⟩ := isProcess present
    obtain ⟨same, childless⟩ := unchanged index inRange
    have nonempty : finished.processList ≠ [] := by
      rw [(finish_spec made).1]
      exact List.ne_nil_of_mem ((kernel_mem_sortByPid processMap).mpr inRange)
    have parentless : ∀ index < kernel.length,
        (finished.state.objects (.kernel index)).parent = none := by
      intro index inRange
      rw [(unchanged index inRange).1]
      exact linked.parent_kernel index
    obtain ⟨sameObjects, once⟩ := kernelTree_of_unlinked monitoredApp nonempty
      (fun index inRange => (unchanged index inRange).2) parentless
    refine ⟨same, childless, once index inRange, ?_⟩
    rw [sameObjects, same]

variable {processes : List ProcessId} {first : Objects × Forest ProcessId}

/-- The processes of the kernel log do not move. -/
def Unmoved
    (accurateParentage : Bool)
    (kernel : List Process)
    (processMap : Dict Int Process)
    (processes : List ProcessId) : Prop :=
  ∀ index < kernel.length, ¬(accurateParentage = false ∧
    Moves (objects kernel processMap) processes (.kernel index))

/-- If they are unchanged, none of them was moved. -/
theorem unmoved_of_unchanged
    (linked : Linked kernel processMap)
    (inList : ∀ index, .kernel index ∈ processes ↔ index < kernel.length)
    (built : firstTree accurateParentage (objects kernel processMap) processes = some first)
    (unchanged : Unchanged kernel processMap
      (complete samplePeriod monitoredApp isPruned processes first.1 first.2)) :
    Unmoved accurateParentage kernel processMap processes := by
  intro index inRange moves
  rcases firstTree_cases built ((inList index).mpr inRange) with ⟨stays, -⟩ | ⟨-, isMoved⟩
  · exact stays moves
  · obtain ⟨rcproc, -, isParent, -⟩ := isMoved.below
    have run := (onlyMerges_passes samplePeriod monitoredApp isPruned first.1 first.2
      (firstTree_spec built).2).1
    have same := (unchanged index inRange).1
    have parent : ((complete samplePeriod monitoredApp isPruned processes first.1
        first.2).state.objects (.kernel index)).parent = some rcproc :=
      (parent_mergeRun run (.kernel index)).trans isParent
    rw [same, linked.parent_kernel] at parent
    contradiction

/-- What `merge_logger` leaves of the first tree. -/
theorem mergeLogger_spec
    (monitoredApp : Option Text)
    (linked : Linked kernel processMap)
    (inList : ∀ index, .kernel index ∈ processes ↔ index < kernel.length)
    (built : firstTree accurateParentage (objects kernel processMap) processes = some first)
    (unmoved : Unmoved accurateParentage kernel processMap processes)
    {state : State}
    {forest : Forest ProcessId}
    {removed : Nat}
    (merged : mergeLogger loggerProc monitoredApp { objects := first.1, merges := [] }
      first.2 = (state, forest, removed)) :
    forest.toList ⊆ processes ∧ forest.Alone IsKernel ∧
      (∀ proc, IsKernel proc → (state.objects proc).samples = []) ∧
      ∀ index < kernel.length,
        state.objects (.kernel index) = objects kernel processMap (.kernel index) := by
  have alone := linked.alone_firstTree built fun index member =>
    unmoved index ((inList index).mp member)
  have isForest : forest = first.2.cut (loggerPolicy loggerProc monitoredApp
      (State.cmd { objects := first.1, merges := [] })) := by
    rw [← mergeLogger_eq_cut, merged]
  have sublist : forest.toList.Sublist first.2.toList := by
    rw [isForest]
    exact Forest.toList_cut_sublist _
  have unchanged (proc : ProcessId) (isKernel : IsKernel proc) :
      state.objects proc = first.1 proc := by
    have same : (mergeLogger loggerProc monitoredApp { objects := first.1, merges := [] }
        first.2).1.objects proc = first.1 proc :=
      objects_mergeLogger_alone _ alone isKernel
    rw [merged] at same
    exact same
  have spec := firstTree_spec built
  refine ⟨List.Subset.trans sublist.subset spec.2, ?_, ?_, ?_⟩
  · rw [isForest]
    exact alone.cut
  · rintro proc ⟨index, rfl⟩
    rw [unchanged _ ⟨index, rfl⟩, spec.1, linked.samples_kernel]
  · intro index inRange
    rw [unchanged _ ⟨index, rfl⟩]
    rcases firstTree_cases built ((inList index).mpr inRange) with ⟨-, same⟩ | ⟨moves, -⟩
    · exact same
    · exact absurd moves (unmoved index inRange)

/-- Without pruning they are unchanged if they do not move. -/
theorem unchanged_of_notPruned
    (linked : Linked kernel processMap)
    (inList : ∀ index, .kernel index ∈ processes ↔ index < kernel.length)
    (built : firstTree accurateParentage (objects kernel processMap) processes = some first)
    (unmoved : Unmoved accurateParentage kernel processMap processes) :
    Unchanged kernel processMap
      (complete samplePeriod monitoredApp false processes first.1 first.2) := by
  obtain ⟨-, alone, -, same⟩ := mergeLogger_spec monitoredApp linked inList built unmoved rfl
  intro index inRange
  refine ⟨same index inRange, ?_⟩
  apply Forest.childrenOf_eq_nil.mpr
  refine (childless_sort _ _).mpr fun family isFamily isKernel => ?_
  exact alone.children_eq_nil isFamily ⟨index, isKernel⟩

/-- With pruning they are unchanged if and only if nothing joins them with a trace. -/
theorem unchanged_iff_headsUnseen
    (linked : Linked kernel processMap)
    (nodup : processes.Nodup)
    (inList : ∀ index, .kernel index ∈ processes ↔ index < kernel.length)
    (built : firstTree accurateParentage (objects kernel processMap) processes = some first)
    (unmoved : Unmoved accurateParentage kernel processMap processes)
    {before : State × Forest ProcessId}
    (isBefore : beforeMerging samplePeriod monitoredApp accurateParentage
      (objects kernel processMap) processes = some before) :
    Unchanged kernel processMap
        (complete samplePeriod monitoredApp true processes first.1 first.2) ↔
      HeadsUnseen IsKernel before.1 before.2 := by
  obtain ⟨distinct, ⟨logged, removed, period, isLogged, isPruned⟩, merged, rest, threads,
    last, result, runs, ofSiblings, ofRuns, isPasses⟩ := beforeMerging_spec nodup built isBefore
  obtain ⟨subset, alone, noSamples, same⟩ :=
    mergeLogger_spec monitoredApp linked inList built unmoved isLogged
  have subperm : before.2.toList.Subperm logged.toList := by
    rw [← isPruned]
    exact toList_prune_subperm period before.1.objects false
  have stillAlone : before.2.Alone IsKernel := by
    rw [← isPruned]
    exact alone_prune period before.1.objects alone
  rw [← unchanged_both distinct stillAlone noSamples ofSiblings ofRuns]
  have childless (proc : ProcessId) : (complete samplePeriod monitoredApp true processes
      first.1 first.2).childList proc = [] ↔ result.childrenOf proc = [] := by
    rw [Finished.childList, complete, isPasses, Forest.childrenOf_eq_nil,
      Forest.childrenOf_eq_nil, childless_sort]
  have isState : (complete samplePeriod monitoredApp true processes first.1
      first.2).state = last := by
    rw [complete, isPasses]
  simp only [Unchanged, isState, childless]
  constructor
  · rintro unchanged proc member ⟨index, rfl⟩
    have inRange := (inList index).mp (subset (subperm.subset member))
    rw [same index inRange]
    exact unchanged index inRange
  · intro unchanged index inRange
    rw [← same index inRange]
    by_cases member : .kernel index ∈ before.2.toList
    · exact unchanged _ member ⟨index, rfl⟩
    · exact unchanged_both_of_notMem distinct ofSiblings ofRuns member

/-- The first tree leaves the process objects of the kernel log as parsed, and the second
tree shows each of them once, if and only if none of them is moved below `rc`, and, when the
tree is pruned, whatever follows one of them among the roots with the same command joins it
without a trace: with what is below, it has that command and no samples, and lies within
its time. -/
theorem kernelAsParsed_iff
    (linked : Linked kernel processMap)
    (made : init samplePeriod monitoredApp isPruned accurateParentage kernel processMap =
      some finished) :
    KernelAsParsed monitoredApp kernel finished ↔
      Unmoved accurateParentage kernel processMap (sortByPid (objects kernel processMap)
        (processIds kernel processMap)) ∧
      (isPruned = true → ∀ before ∈ beforeMerging samplePeriod monitoredApp
        accurateParentage (objects kernel processMap) (sortByPid (objects kernel processMap)
          (processIds kernel processMap)), HeadsUnseen IsKernel before.1 before.2) := by
  have inList : ∀ index, .kernel index ∈ sortByPid (objects kernel processMap)
      (processIds kernel processMap) ↔ index < kernel.length :=
    fun index => kernel_mem_sortByPid processMap
  have nodup : (sortByPid (objects kernel processMap)
      (processIds kernel processMap)).Nodup :=
    (List.mergeSort_perm _ _).nodup_iff.mpr (nodup_processIds _ _)
  rw [kernelAsParsed_iff_unchanged linked made]
  have isFinish := finish_eq samplePeriod monitoredApp isPruned accurateParentage
    (objects kernel processMap) (sortByPid (objects kernel processMap)
      (processIds kernel processMap))
  obtain ⟨first, built, rfl⟩ := Option.map_eq_some_iff.mp (isFinish.symm.trans made)
  constructor
  · intro unchanged
    have unmoved := unmoved_of_unchanged linked inList built unchanged
    refine ⟨unmoved, ?_⟩
    rintro rfl before isBefore
    exact (unchanged_iff_headsUnseen linked nodup inList built unmoved isBefore).mp unchanged
  · rintro ⟨unmoved, unseen⟩
    cases isPruned with
    | false => exact unchanged_of_notPruned linked inList built unmoved
    | true =>
        obtain ⟨before, isBefore⟩ := beforeMerging_eq_some samplePeriod monitoredApp built
        exact (unchanged_iff_headsUnseen linked nodup inList built unmoved isBefore).mpr
          (unseen rfl _ isBefore)

end Kernel

end ProcessTree
end Bootchart
