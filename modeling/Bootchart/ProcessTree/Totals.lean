import Bootchart.ProcessTree.Init
import Mathlib.Algebra.Order.BigOperators.Group.List
import Mathlib.Logic.Relation
import Mathlib.Tactic.Abel
import Mathlib.Tactic.Linarith

/-!
# Totals over the list of processes

The cumulative graph adds up the samples of all processes of the list. A process that
is merged into another stays in the list with its samples, which are then counted
twice: making the tree adds to the total what the merged processes held when they
were merged.
-/

namespace Bootchart
namespace ProcessTree

open Library (Text Dict Forest)

/-- The statistics of the cumulative graphs. -/
inductive Statistic
  /-- Time on the processor. -/
  | cpu
  /-- Time waiting for devices. -/
  | io
  deriving DecidableEq

/-- The value of a sample. -/
def Statistic.value (statistic : Statistic) (sample : ProcessSample) : ℚ :=
  match statistic with
  | cpu => sample.cpuSample.cpu
  | io => sample.cpuSample.io

/-- The values of some samples. -/
def samplesTotal (statistic : Statistic) (samples : List ProcessSample) : ℚ :=
  (samples.map statistic.value).sum

/-- The values of all samples of the processes of a list. -/
def total (statistic : Statistic) (objects : Objects) (processes : List ProcessId) : ℚ :=
  (processes.map fun proc => samplesTotal statistic (objects proc).samples).sum

/-- What the processes held that were merged into others. -/
def absorbedTotal (statistic : Statistic) (merges : List Merge) : ℚ :=
  (merges.map fun merge => samplesTotal statistic merge.samples).sum

/-! ## One merge -/

/-- Changing one value of a list without duplicates changes the sum by the
difference. -/
theorem sum_map_update
    {processes : List ProcessId}
    (nodup : processes.Nodup)
    {proc : ProcessId}
    (member : proc ∈ processes)
    (value : ProcessId → ℚ)
    (new : ℚ) :
    (processes.map (Function.update value proc new)).sum =
      (processes.map value).sum + (new - value proc) := by
  induction processes with
  | nil => exact absurd member (by simp)
  | cons first rest inductionHypothesis =>
      obtain ⟨notInRest, nodupRest⟩ := List.nodup_cons.mp nodup
      rw [List.map_cons, List.sum_cons, List.map_cons, List.sum_cons]
      rcases List.mem_cons.mp member with rfl | inRest
      · have same : rest.map (Function.update value proc new) = rest.map value := by
          apply List.map_congr_left
          intro other isOther
          have different : other ≠ proc := fun equal => notInRest (equal ▸ isOther)
          exact Function.update_of_ne different _ _
        rw [same, Function.update_self]
        abel
      · have different : first ≠ proc := fun equal => notInRest (equal ▸ inRest)
        rw [Function.update_of_ne different, inductionHypothesis nodupRest inRest]
        abel

/-- A merged process holds the samples of both. -/
theorem samplesTotal_mergedProcess (statistic : Statistic) (first second : Process) :
    samplesTotal statistic (State.mergedProcess first second).samples =
      samplesTotal statistic first.samples + samplesTotal statistic second.samples := by
  have perm := List.mergeSort_perm (first.samples ++ second.samples)
    fun s t => decide (s.time ≤ t.time)
  rw [samplesTotal, State.mergedProcess, (perm.map statistic.value).sum_eq]
  simp [samplesTotal]

/-- A merge of processes of a list. -/
def MergeStep (processes : List ProcessId) (state next : State) : Prop :=
  ∃ p1 ∈ processes, ∃ p2 ∈ processes, next = state.mergeProcesses p1 p2

/-- Any number of merges of processes of a list. -/
abbrev MergeRun (processes : List ProcessId) : State → State → Prop :=
  Relation.ReflTransGen (MergeStep processes)

section Merge

variable {processes : List ProcessId} {state next : State}

/-- A merge adds to the total what the merged process holds. -/
theorem total_mergeStep
    (statistic : Statistic)
    (nodup : processes.Nodup)
    (step : MergeStep processes state next) :
    total statistic next.objects processes - absorbedTotal statistic next.merges =
      total statistic state.objects processes - absorbedTotal statistic state.merges := by
  obtain ⟨p1, isProcess, p2, -, rfl⟩ := step
  have values : (fun proc => samplesTotal statistic
      ((state.mergeProcesses p1 p2).objects proc).samples) =
        Function.update (fun proc => samplesTotal statistic (state.objects proc).samples)
          p1 (samplesTotal statistic
            (State.mergedProcess (state.objects p1) (state.objects p2)).samples) := by
    funext proc
    by_cases same : proc = p1
    · subst same
      simp [State.mergeProcesses]
    · simp [State.mergeProcesses, same]
  rw [total, values, sum_map_update nodup isProcess, samplesTotal_mergedProcess]
  simp only [State.mergeProcesses, absorbedTotal, List.map_append, List.map_cons,
    List.map_nil, List.sum_append, List.sum_cons, List.sum_nil, total]
  abel

/-- Any number of merges adds what the merged processes held. -/
theorem total_mergeRun
    (statistic : Statistic)
    (nodup : processes.Nodup)
    (run : MergeRun processes state next) :
    total statistic next.objects processes - absorbedTotal statistic next.merges =
      total statistic state.objects processes - absorbedTotal statistic state.merges := by
  induction run with
  | refl => rfl
  | tail _ step inductionHypothesis =>
      exact (total_mergeStep statistic nodup step).trans inductionHypothesis

/-- No sample of a list of processes is negative, nor any that was merged. -/
def NonNegative (statistic : Statistic) (processes : List ProcessId) (state : State) :
    Prop :=
  (∀ proc ∈ processes, ∀ sample ∈ (state.objects proc).samples,
    0 ≤ statistic.value sample) ∧
  ∀ merge ∈ state.merges, ∀ sample ∈ merge.samples, 0 ≤ statistic.value sample

/-- A merge makes no sample negative. -/
theorem nonNegative_mergeStep
    {statistic : Statistic}
    (nonNegative : NonNegative statistic processes state)
    (step : MergeStep processes state next) :
    NonNegative statistic processes next := by
  obtain ⟨p1, isFirst, p2, isSecond, rfl⟩ := step
  obtain ⟨samples, merges⟩ := nonNegative
  constructor
  · intro proc isProcess sample member
    by_cases same : proc = p1
    · subst same
      have inBoth : sample ∈
          (state.objects proc).samples ++ (state.objects p2).samples := by
        simpa [State.mergeProcesses, State.mergedProcess] using member
      rcases List.mem_append.mp inBoth with inFirst | inSecond
      · exact samples proc isFirst sample inFirst
      · exact samples p2 isSecond sample inSecond
    · rw [State.objects_mergeProcesses, Function.update_of_ne same] at member
      exact samples proc isProcess sample member
  · intro merge member sample inMerge
    rcases List.mem_append.mp member with before | isNew
    · exact merges merge before sample inMerge
    · obtain rfl := List.mem_singleton.mp isNew
      exact samples p2 isSecond sample inMerge

/-- Any number of merges makes no sample negative. -/
theorem nonNegative_mergeRun
    {statistic : Statistic}
    (nonNegative : NonNegative statistic processes state)
    (run : MergeRun processes state next) :
    NonNegative statistic processes next := by
  induction run with
  | refl => exact nonNegative
  | tail _ step inductionHypothesis => exact nonNegative_mergeStep inductionHypothesis step

/-- What a process holds during merges are its own samples and samples of processes
that were merged. -/
theorem samples_mergeRun
    {objects : Objects}
    (run : MergeRun processes { objects := objects, merges := [] } next)
    (proc : ProcessId) :
    (objects proc).samples ⊆ (next.objects proc).samples ∧
      ∀ sample ∈ (next.objects proc).samples, sample ∈ (objects proc).samples ∨
        ∃ merge ∈ next.merges, sample ∈ (objects merge.absorbed).samples := by
  induction run generalizing proc with
  | refl => exact ⟨List.Subset.refl _, fun _ member => .inl member⟩
  | @tail middle _ _ step inductionHypothesis =>
      obtain ⟨p1, -, p2, -, rfl⟩ := step
      have later : ∀ sample, (∃ merge ∈ middle.merges,
          sample ∈ (objects merge.absorbed).samples) →
            ∃ merge ∈ (middle.mergeProcesses p1 p2).merges,
              sample ∈ (objects merge.absorbed).samples :=
        fun sample ⟨merge, before, member⟩ =>
          ⟨merge, List.mem_append_left _ before, member⟩
      obtain ⟨own, origin⟩ := inductionHypothesis proc
      by_cases same : proc = p1
      · subst same
        have both : ∀ sample, sample ∈ ((middle.mergeProcesses proc p2).objects
            proc).samples ↔ sample ∈ (middle.objects proc).samples ++
              (middle.objects p2).samples := by
          simp [State.mergeProcesses, State.mergedProcess]
        refine ⟨fun sample member => (both sample).mpr (List.mem_append_left _ (own member)),
          fun sample member => ?_⟩
        rcases List.mem_append.mp ((both sample).mp member) with inFirst | inSecond
        · exact (origin sample inFirst).imp_right (later sample)
        · right
          rcases (inductionHypothesis p2).2 sample inSecond with ofSecond | merged
          · exact ⟨_, List.mem_append_right _ List.mem_cons_self, ofSecond⟩
          · exact later sample merged
      · rw [State.objects_mergeProcesses, Function.update_of_ne same]
        exact ⟨own, fun sample member => (origin sample member).imp_right (later sample)⟩

/-- The processes that are merged hold only zeros when they are merged if and only if
they held only zeros before any merge. -/
theorem zeroMerges_iff
    {objects : Objects}
    {statistic : Statistic}
    (run : MergeRun processes { objects := objects, merges := [] } next) :
    (∀ merge ∈ next.merges, ∀ sample ∈ merge.samples, statistic.value sample = 0) ↔
      ∀ merge ∈ next.merges, ∀ sample ∈ (objects merge.absorbed).samples,
        statistic.value sample = 0 := by
  induction run with
  | refl => simp
  | @tail middle _ before step inductionHypothesis =>
      obtain ⟨p1, -, p2, -, rfl⟩ := step
      obtain ⟨own, origin⟩ := samples_mergeRun before p2
      simp only [State.merges_mergeProcesses, List.forall_mem_append,
        List.forall_mem_singleton, inductionHypothesis]
      refine and_congr_right fun zeros => ⟨fun merged sample member => ?_,
        fun unmerged sample member => ?_⟩
      · exact merged sample (own member)
      · rcases origin sample member with ofSecond | ⟨merge, wasMerged, inMerge⟩
        · exact unmerged sample ofSecond
        · exact zeros merge wasMerged sample inMerge

end Merge

/-! ## The passes -/

section Passes

variable {processes : List ProcessId} {state : State} {forest : Forest ProcessId}

/-- A pass that only merges processes of the tree, and puts no process into it. -/
def OnlyMerges
    (processes : List ProcessId)
    (state : State)
    (forest : Forest ProcessId)
    (result : State × Forest ProcessId) : Prop :=
  forest.toList ⊆ processes →
    MergeRun processes state result.1 ∧ result.2.toList ⊆ forest.toList

/-- One merge. -/
theorem mergeStep_mergeProcesses
    {p1 p2 : ProcessId}
    (isFirst : p1 ∈ processes)
    (isSecond : p2 ∈ processes) :
    MergeStep processes state (state.mergeProcesses p1 p2) :=
  ⟨p1, isFirst, p2, isSecond, rfl⟩

/-- The loop over the children of a logger. -/
theorem mergeRun_mergeChildren
    {monitoredApp : Option Text}
    {logger : ProcessId}
    (isLogger : logger ∈ processes)
    {children : List ProcessId}
    (areProcesses : children ⊆ processes)
    (skip : Bool) :
    MergeRun processes state
      (mergeChildren monitoredApp logger skip state children).1 := by
  induction children generalizing state skip with
  | nil => cases skip <;> exact .refl
  | cons child children inductionHypothesis =>
      obtain ⟨isChild, rest⟩ := List.cons_subset.mp areProcesses
      cases skip with
      | true => exact inductionHypothesis rest false
      | false =>
          unfold mergeChildren
          split
          · exact inductionHypothesis rest false
          · exact .head (mergeStep_mergeProcesses isLogger isChild)
              (inductionHypothesis rest true)

/-- A pass over the children and then over the siblings. -/
theorem OnlyMerges.children_siblings
    {proc : ProcessId}
    {childList siblings : Forest ProcessId}
    {children rest : State × Forest ProcessId}
    (first : OnlyMerges processes state childList children)
    (second : OnlyMerges processes children.1 siblings rest) :
    OnlyMerges processes state (.cons proc childList siblings)
      (rest.1, .cons proc children.2 rest.2) := by
  intro areProcesses
  obtain ⟨areChildren, areSiblings⟩ :=
    List.append_subset.mp (List.cons_subset.mp areProcesses).2
  obtain ⟨childRun, childSubset⟩ := first areChildren
  obtain ⟨siblingRun, siblingSubset⟩ := second areSiblings
  refine ⟨childRun.trans siblingRun, List.cons_subset_cons _ ?_⟩
  exact List.append_subset.mpr
    ⟨List.Subset.trans childSubset (List.subset_append_left _ _),
      List.Subset.trans siblingSubset (List.subset_append_right _ _)⟩

/-- Leaving processes out of the tree is no merge. -/
theorem OnlyMerges.weaken
    {smaller : Forest ProcessId}
    {result : State × Forest ProcessId}
    (only : OnlyMerges processes state smaller result)
    (isSmaller : smaller.toList ⊆ forest.toList) :
    OnlyMerges processes state forest result := by
  intro areProcesses
  obtain ⟨run, subset⟩ := only (List.Subset.trans isSmaller areProcesses)
  exact ⟨run, List.Subset.trans subset isSmaller⟩

/-- A merge of two processes of the tree before a pass. -/
theorem OnlyMerges.after_merge
    {p1 p2 : ProcessId}
    {result : State × Forest ProcessId}
    (isFirst : p1 ∈ forest.toList)
    (isSecond : p2 ∈ forest.toList)
    (only : OnlyMerges processes (state.mergeProcesses p1 p2) forest result) :
    OnlyMerges processes state forest result := by
  intro areProcesses
  obtain ⟨run, subset⟩ := only areProcesses
  exact ⟨.head ⟨p1, areProcesses isFirst, p2, areProcesses isSecond, rfl⟩ run, subset⟩

/-- A pass after another. -/
theorem OnlyMerges.trans
    {first second : State × Forest ProcessId}
    (onlyFirst : OnlyMerges processes state forest first)
    (onlySecond : OnlyMerges processes first.1 first.2 second) :
    OnlyMerges processes state forest second := by
  intro areProcesses
  obtain ⟨run, subset⟩ := onlyFirst areProcesses
  obtain ⟨more, subsetMore⟩ := onlySecond (List.Subset.trans subset areProcesses)
  exact ⟨run.trans more, List.Subset.trans subsetMore subset⟩

/-- A pass that changes only the tree, and puts no process into it. -/
theorem onlyMerges_of_subset
    {smaller : Forest ProcessId}
    (isSmaller : smaller.toList ⊆ forest.toList) :
    OnlyMerges processes state forest (state, smaller) :=
  fun _ => ⟨.refl, isSmaller⟩

/-- `merge_logger` only merges. -/
theorem onlyMerges_mergeLogger
    (loggerProc : Text)
    (monitoredApp : Option Text)
    (state : State) :
    OnlyMerges processes state forest
      ((mergeLogger loggerProc monitoredApp state forest).1,
        (mergeLogger loggerProc monitoredApp state forest).2.1) := by
  induction forest generalizing state with
  | nil => exact onlyMerges_of_subset (List.Subset.refl _)
  | cons proc childList siblings first second =>
      intro areProcesses
      obtain ⟨isProcess, rest⟩ := List.cons_subset.mp areProcesses
      unfold mergeLogger
      generalize loop : (if state.cmd proc = loggerProc then
        mergeChildren monitoredApp proc false state childList.roots
        else (state, [])) = looped
      have loopRun : MergeRun processes state looped.1 := by
        rw [← loop]
        split
        · exact mergeRun_mergeChildren isProcess (List.Subset.trans
            (Forest.roots_subset childList) (List.append_subset.mp rest).1) false
        · exact .refl
      have kept := (first looped.1).trans (onlyMerges_of_subset
        (Forest.toList_keep_sublist looped.2 _).subset)
      obtain ⟨run, subset⟩ := (kept.children_siblings (second _)) areProcesses
      exact ⟨loopRun.trans run, subset⟩

/-- `prune` puts no process into the tree. -/
theorem toList_prune_subperm (period : Period) (objects : Objects) (hasParent : Bool) :
    (prune period objects hasParent forest).1.toList.Subperm forest.toList := by
  fun_induction prune period objects hasParent forest with
  | case1 => exact List.Subperm.refl _
  | case2 hasParent proc childList siblings _ pruned removed isPruned subperm =>
      rw [isPruned] at subperm
      refine subperm.trans ?_
      rw [Forest.toList_append]
      have perm := (Forest.toList_reverse_perm childList).append_right siblings.toList
      exact perm.subperm.trans (List.sublist_cons_self _ _).subperm
  | case3 hasParent proc childList siblings _ children removed areChildren rest more
      areRest first second =>
      rw [areChildren] at first
      rw [areRest] at second
      exact (List.subperm_cons proc).mpr (first.append second)

/-- `merge_exploders` changes nothing. -/
theorem mergeExploders_eq (forest : Forest ProcessId) :
    mergeExploders forest = (forest, 0) := by
  induction forest with
  | nil => rfl
  | cons proc childList siblings first second => rw [mergeExploders, first, second]

/-- `merge_runs` only merges. -/
theorem onlyMerges_mergeRuns (state : State) :
    OnlyMerges processes state forest
      ((mergeRuns state forest).1, (mergeRuns state forest).2.1) := by
  fun_induction mergeRuns state forest with
  | case1 state => exact onlyMerges_of_subset (List.Subset.refl _)
  | case2 state p child grandchildren siblings _ after result more isResult only =>
      rw [isResult] at only
      refine OnlyMerges.after_merge (by simp) (by simp) (only.weaken ?_)
      intro other member
      rcases List.mem_cons.mp member with rfl | inRest
      · exact List.mem_cons_self
      · rcases List.mem_append.mp inRest with inChildren | inSiblings
        · simp [inChildren]
        · simp [inSiblings]
  | case3 state p child grandchildren siblings _ middle children removed areChildren after
      rest more areRest first second =>
      rw [areChildren] at first
      rw [areRest] at second
      exact first.children_siblings second
  | case4 state p childList siblings _ middle children removed areChildren after rest more
      areRest first second =>
      rw [areChildren] at first
      rw [areRest] at second
      exact first.children_siblings second

/-- `merge_siblings` only merges. -/
theorem onlyMerges_mergeSiblingsFrom (state : State) :
    OnlyMerges processes state forest
      ((mergeSiblingsFrom state forest).1.1, (mergeSiblingsFrom state forest).1.2.1) := by
  fun_induction mergeSiblingsFrom state forest with
  | case1 state => exact onlyMerges_of_subset (List.Subset.refl _)
  | case2 state p childList after children removed _ areChildren only =>
      rw [areChildren] at only
      exact only.children_siblings (onlyMerges_of_subset (List.Subset.refl _))
  | case3 state p childList nextp nextChildList siblings _ middle children removed _
      areChildren after result more _ isResult first second =>
      rw [areChildren] at first
      rw [isResult] at second
      have unchanged : OnlyMerges processes middle siblings (middle, siblings) :=
        onlyMerges_of_subset (List.Subset.refl _)
      have only := (first.children_siblings unchanged).trans second
      refine OnlyMerges.after_merge (by simp) (by simp) (only.weaken ?_)
      intro other member
      rcases List.mem_cons.mp member with rfl | inRest
      · exact List.mem_cons_self
      · simp only [Forest.toList_append, List.mem_append] at inRest
        rcases inRest with (inFirst | inSecond) | inSiblings
        · simp [inFirst]
        · simp [inSecond]
        · simp [inSiblings]
  | case4 state p childList nextp nextChildList siblings _ middle children removed _
      areChildren after rest more _ areRest first second =>
      rw [areChildren] at first
      rw [areRest] at second
      exact first.children_siblings second

end Passes

/-! ## Making a tree -/

section Finish

variable {processes : List ProcessId} {objects : Objects}

/-- The passes after pruning only merge. -/
theorem onlyMerges_pruneAndMerge
    (period : Period)
    (state : State)
    (forest : Forest ProcessId) :
    OnlyMerges processes state forest (pruneAndMerge period state forest) := by
  have prunedOnly : OnlyMerges processes state forest
      (state, (prune period state.objects false forest).1) :=
    onlyMerges_of_subset (toList_prune_subperm period state.objects false).subset
  simp only [pruneAndMerge, mergeExploders_eq]
  exact (prunedOnly.trans (onlyMerges_mergeSiblingsFrom state)).trans
    (onlyMerges_mergeRuns _)

/-- Moving daemons changes no samples. -/
theorem samples_moveBelowRc (rc : Rc) (process : Process) :
    (moveBelowRc rc process).samples = process.samples := by
  unfold moveBelowRc
  split <;> rfl

/-- The tree holds processes of the list. -/
theorem toList_tree_subset (objects : Objects) (processes : List ProcessId) :
    (tree objects processes).toList ⊆ processes := by
  have isSublist : ∀ parent, withParent objects processes parent ⊆ processes :=
    fun _ => List.filter_sublist.subset
  rw [tree, build_eq]
  exact Forest.mem_of_mem_unfold _ (fun proc _ => isSublist (some proc)) (isSublist none)

/-- Moving daemons keeps the samples and puts processes of the list into the tree. -/
theorem updatePpidsForDaemons_spec
    {moved : Objects × Forest ProcessId}
    (updated : updatePpidsForDaemons objects processes = some moved) :
    (∀ proc, (moved.1 proc).samples = (objects proc).samples) ∧
      moved.2.toList ⊆ processes := by
  obtain ⟨rc, -, rfl⟩ := Option.map_eq_some_iff.mp updated
  split
  · refine ⟨fun proc => ?_, toList_tree_subset _ _⟩
    by_cases member : proc ∈ processes
    · simp only [member, if_true, samples_moveBelowRc]
    · simp only [member, if_false]
  · exact ⟨fun _ => rfl, toList_tree_subset _ _⟩

/-- Building a tree keeps the samples and puts processes of the list into the tree. -/
theorem firstTree_spec
    {accurateParentage : Bool}
    {first : Objects × Forest ProcessId}
    (built : firstTree accurateParentage objects processes = some first) :
    (∀ proc, (first.1 proc).samples = (objects proc).samples) ∧
      first.2.toList ⊆ processes := by
  unfold firstTree at built
  split at built
  · obtain rfl := Option.some.inj built
    exact ⟨fun _ => rfl, toList_tree_subset _ _⟩
  · exact updatePpidsForDaemons_spec built

/-- The passes only merge. -/
theorem onlyMerges_passes
    (samplePeriod : ℚ)
    (monitoredApp : Option Text)
    (isPruned : Bool)
    (objects : Objects)
    (forest : Forest ProcessId) :
    OnlyMerges processes { objects := objects, merges := [] } forest
      (passes samplePeriod monitoredApp isPruned objects forest) := by
  have logger : OnlyMerges processes { objects := objects, merges := [] } forest _ :=
    onlyMerges_mergeLogger loggerProc monitoredApp _
  cases isPruned with
  | true => exact logger.trans (onlyMerges_pruneAndMerge _ _ _)
  | false => exact logger

/-- Making a tree keeps the list, and only merges processes of the list, from objects
with the samples they had. -/
theorem finish_spec
    {samplePeriod : ℚ}
    {monitoredApp : Option Text}
    {isPruned accurateParentage : Bool}
    {finished : Finished}
    (made : finish samplePeriod monitoredApp isPruned accurateParentage objects processes =
      some finished) :
    finished.processList = processes ∧ ∃ moved : Objects,
      (∀ proc, (moved proc).samples = (objects proc).samples) ∧
        MergeRun processes { objects := moved, merges := [] } finished.state := by
  obtain ⟨first, built, rfl⟩ := Option.map_eq_some_iff.mp made
  obtain ⟨samples, areProcesses⟩ := firstTree_spec built
  exact ⟨rfl, first.1, samples, (onlyMerges_passes _ _ _ _ _ areProcesses).1⟩

/-- The total after making a tree is the one before, and what the processes held that
were merged. -/
theorem total_finish
    {samplePeriod : ℚ}
    {monitoredApp : Option Text}
    {isPruned accurateParentage : Bool}
    {finished : Finished}
    (statistic : Statistic)
    (nodup : processes.Nodup)
    (made : finish samplePeriod monitoredApp isPruned accurateParentage objects processes =
      some finished) :
    total statistic finished.state.objects finished.processList =
      total statistic objects processes +
        absorbedTotal statistic finished.state.merges := by
  obtain ⟨sameList, moved, samples, run⟩ := finish_spec made
  have added := total_mergeRun statistic nodup run
  have movedTotal : total statistic moved processes =
      total statistic objects processes := by
    simp only [total, samples]
  simp only [movedTotal, absorbedTotal, List.map_nil, List.sum_nil] at added
  rw [sameList, absorbedTotal]
  linarith

/-- Samples that are not negative add up to zero only if all are zero. -/
theorem samplesTotal_eq_zero
    {statistic : Statistic}
    {samples : List ProcessSample}
    (nonNegative : ∀ sample ∈ samples, 0 ≤ statistic.value sample) :
    samplesTotal statistic samples = 0 ↔
      ∀ sample ∈ samples, statistic.value sample = 0 := by
  have values : ∀ value ∈ samples.map statistic.value, 0 ≤ value :=
    List.forall_mem_map.mpr nonNegative
  constructor
  · intro noTotal sample member
    exact List.all_zero_of_le_zero_le_of_sum_eq_zero values noTotal
      (List.mem_map_of_mem member)
  · intro allZero
    exact List.sum_eq_zero (List.forall_mem_map.mpr allZero)

/-- So do the processes that were merged. -/
theorem absorbedTotal_eq_zero
    {statistic : Statistic}
    {merges : List Merge}
    (nonNegative : ∀ merge ∈ merges, ∀ sample ∈ merge.samples,
      0 ≤ statistic.value sample) :
    absorbedTotal statistic merges = 0 ↔
      ∀ merge ∈ merges, ∀ sample ∈ merge.samples, statistic.value sample = 0 := by
  have totals : ∀ value ∈ merges.map fun merge => samplesTotal statistic merge.samples,
      0 ≤ value :=
    List.forall_mem_map.mpr fun merge member =>
      List.sum_nonneg (List.forall_mem_map.mpr (nonNegative merge member))
  constructor
  · intro noTotal merge member
    exact (samplesTotal_eq_zero (nonNegative merge member)).mp
      (List.all_zero_of_le_zero_le_of_sum_eq_zero totals noTotal
        (List.mem_map_of_mem member))
  · intro allZero
    exact List.sum_eq_zero (List.forall_mem_map.mpr fun merge member =>
      (samplesTotal_eq_zero (nonNegative merge member)).mpr (allZero merge member))

end Finish

end ProcessTree
end Bootchart
