import Bootchart.Library.Neighbours
import Bootchart.Library.SiblingRuns
import Bootchart.ProcessTree.KernelTree

/-!
# Sorted child lists

`merge_siblings` looks at neighbours in the order in which the child lists are, and `sort`
puts them in the order of their pids afterwards. Processes with the same command are
neighbours in the end unless another process is between them in that order.
-/

namespace Bootchart
namespace ProcessTree

open Library (Text Dict Forest SortsBefore KeptApart)

/-- The child lists of a finished tree are in the order of their pids, and no two
neighbours have the same command. -/
structure Settled (finished : Finished) : Prop where
  /-- The pids do not decrease. -/
  ordered : ∀ family ∈ finished.processTree.families,
    family.2.Pairwise fun first second =>
      (finished.state.objects first).pid ≤ (finished.state.objects second).pid
  /-- Neighbours differ. -/
  differ : ∀ family ∈ finished.processTree.families,
    family.2.IsChain fun proc nextp => finished.state.cmd nextp ≠ finished.state.cmd proc

/-- Between the first processes of two runs with the same command there is always the first
process of a run with another command, in the order of the pids; the runs are those of the
siblings that come together when runs are merged. -/
def RunsApart (state : State) (forest : Forest ProcessId) : Prop :=
  ∀ siblings, Forest.ComesTogether state.cmd forest siblings →
    KeptApart state.cmd
      (SortsBefore (fun proc => (state.objects proc).pid)
        (Forest.firsts state.cmd siblings.roots))
      (Forest.firsts state.cmd siblings.roots)

/-! ## The passes and the child lists -/

section Passes

variable {state : State} {forest : Forest ProcessId}

/-- `merge_siblings` merges the runs of siblings. -/
theorem mergeSiblingsFrom_eq (state : State) (forest : Forest ProcessId) :
    (mergeSiblingsFrom state forest).1.2.1 =
      forest.mergeAlike (fun root _ => root) state.cmd := by
  fun_induction mergeSiblingsFrom state forest with
  | case1 state => exact Forest.mergeAlike_nil.symm
  | case2 state p childList after children removed _ areChildren inductionHypothesis =>
      rw [areChildren] at inductionHypothesis
      rw [Forest.mergeAlike_single, ← inductionHypothesis]
  | case3 state p childList nextp nextChildList siblings same middle children removed _
      areChildren after result more _ isResult first second =>
      have sameCmd := cmd_mergeSiblingsFrom (state.mergeProcesses p nextp)
        (childList ++ nextChildList)
      rw [areChildren, State.cmd_mergeProcesses] at first sameCmd
      have isMerged : children =
          (childList ++ nextChildList).mergeAlike (fun root _ => root) state.cmd := first
      rw [isResult, sameCmd] at second
      refine second.trans ?_
      rw [isMerged, Forest.mergeAlike_cons_mergeAlike fun _ _ => rfl,
        Forest.mergeAlike_of_eq same]
  | case4 state p childList nextp nextChildList siblings different middle children
      removed _ areChildren after rest more _ areRest first second =>
      have sameCmd := cmd_mergeSiblingsFrom state childList
      rw [areChildren] at first sameCmd
      rw [areRest, sameCmd] at second
      rw [Forest.mergeAlike_of_ne different, ← first, ← second]

/-- `merge_runs` takes away only child lists with one process. -/
theorem forall_families_mergeRuns
    (state : State)
    (forest : Forest ProcessId)
    (good : List ProcessId → Prop)
    (single : ∀ proc, good [proc]) :
    (∀ family ∈ (mergeRuns state forest).2.1.families, good family.2) ↔
      ∀ family ∈ forest.families, good family.2 := by
  fun_induction mergeRuns state forest with
  | case1 state => rfl
  | case2 state p child grandchildren siblings _ after result more isResult
      inductionHypothesis =>
      rw [isResult] at inductionHypothesis
      rw [inductionHypothesis]
      simp [Forest.families, single]
  | case3 state p child grandchildren siblings _ middle children removed areChildren after
      rest more areRest first second =>
      have sameRoots := roots_mergeRuns state (.cons child grandchildren .nil)
      rw [areChildren] at first sameRoots
      rw [areRest] at second
      rw [Forest.families, Forest.families, List.forall_mem_cons, List.forall_mem_cons,
        List.forall_mem_append, List.forall_mem_append, first, second, sameRoots]
  | case4 state p childList siblings _ middle children removed areChildren after rest more
      areRest first second =>
      have sameRoots := roots_mergeRuns state childList
      rw [areChildren] at first sameRoots
      rw [areRest] at second
      rw [Forest.families, Forest.families, List.forall_mem_cons, List.forall_mem_cons,
        List.forall_mem_append, List.forall_mem_append, first, second, sameRoots]

end Passes

/-! ## The finished tree -/

section Finished

variable {objects : Objects} {processes : List ProcessId} {accurateParentage : Bool}
variable {first : Objects × Forest ProcessId} {before : State × Forest ProcessId}

/-- Joining changes no pid. -/
theorem pid_joinings
    {state last : State}
    {forest result : Forest ProcessId}
    (joinings : Joinings (population state forest) (population last result))
    (proc : ProcessId) : (last.objects proc).pid = (state.objects proc).pid := by
  obtain ⟨samples, startTime, duration, same⟩ := fixed_joinings joinings proc
  have isKept : last.objects proc = _ := same
  rw [isKept]
  rfl

/-- A sorted list of processes is in the order of the pids. -/
theorem pairwise_sortByPid (objects : Objects) (processes : List ProcessId) :
    (sortByPid objects processes).Pairwise fun first second =>
      (objects first).pid ≤ (objects second).pid := by
  refine List.Pairwise.imp of_decide_eq_true (List.pairwise_mergeSort ?_ ?_ processes)
  · simpa using fun _ _ _ => le_trans
  · simpa using fun first second => le_total (objects first).pid (objects second).pid

/-- A sorted tree is settled if and only if the processes of every child list that have the
same command are kept apart. -/
theorem settled_iff_keptApart
    {finished : Finished}
    {forest : Forest ProcessId}
    (distinct : forest.toList.Nodup)
    (isSorted : finished.processTree = sort finished.state.objects forest) :
    Settled finished ↔ ∀ family ∈ forest.families,
      KeptApart finished.state.cmd
        (SortsBefore (fun proc => (finished.state.objects proc).pid) family.2) family.2 := by
  have sorted := (forall_families_sort finished.state.objects forest fun family =>
    family.2.Pairwise fun first second =>
      (finished.state.objects first).pid ≤ (finished.state.objects second).pid).mpr
    fun family _ => pairwise_sortByPid _ _
  have differ := forall_families_sort finished.state.objects forest fun family =>
    family.2.IsChain fun proc nextp => finished.state.cmd nextp ≠ finished.state.cmd proc
  rw [← isSorted] at sorted differ
  calc Settled finished
    _ ↔ ∀ family ∈ finished.processTree.families, family.2.IsChain
          fun proc nextp => finished.state.cmd nextp ≠ finished.state.cmd proc :=
        ⟨Settled.differ, fun neighbours => ⟨sorted, neighbours⟩⟩
    _ ↔ ∀ family ∈ forest.families, (sortByPid finished.state.objects family.2).IsChain
          fun proc nextp => finished.state.cmd nextp ≠ finished.state.cmd proc := differ
    _ ↔ _ := forall₂_congr fun family isFamily =>
        Library.isChain_mergeSort_iff (distinct.sublist (Forest.family_sublist isFamily))

/-- The child lists of the finished tree are settled if and only if no two runs with the
same command are next to each other in the order of the pids. -/
theorem settled_complete_iff
    {samplePeriod : ℚ}
    {monitoredApp : Option Text}
    (nodup : processes.Nodup)
    (built : firstTree accurateParentage objects processes = some first)
    (isBefore : beforeMerging samplePeriod monitoredApp accurateParentage objects processes =
      some before) :
    Settled (complete samplePeriod monitoredApp true processes first.1 first.2) ↔
      RunsApart before.1 before.2 := by
  obtain ⟨distinct, -, merged, rest, threads, last, result, runs, ofSiblings, ofRuns,
    isPasses⟩ := beforeMerging_spec nodup built isBefore
  have joinings := joinings_both ofSiblings ofRuns
  have sameCmd : last.cmd = before.1.cmd := cmd_absorptions joinings.absorptions
  have samePid := pid_joinings joinings
  have isState : (complete samplePeriod monitoredApp true processes first.1
      first.2).state = last := by
    rw [complete, isPasses]
  have isTree : (complete samplePeriod monitoredApp true processes first.1
      first.2).processTree = sort last.objects result := by
    rw [complete, isPasses]
  have isMerged : rest = before.2.mergeAlike (fun root _ => root) before.1.cmd := by
    have ofForest := mergeSiblingsFrom_eq before.1 before.2
    rw [show (mergeSiblingsFrom before.1 before.2).1 = _ from ofSiblings] at ofForest
    exact ofForest
  let good (siblings : List ProcessId) : Prop := KeptApart before.1.cmd
    (SortsBefore (fun proc => (before.1.objects proc).pid) siblings) siblings
  have keepsLists := forall_families_mergeRuns merged rest good
    fun proc => Library.keptApart_singleton proc
  rw [ofRuns, isMerged] at keepsLists
  rw [settled_iff_keptApart (nodup_joinings joinings distinct) (isState ▸ isTree), isState]
  simp only [sameCmd, samePid]
  exact keepsLists.trans (Forest.forall_families_mergeAlike before.2 good)

end Finished

section Init

variable {samplePeriod : ℚ} {monitoredApp : Option Text} {accurateParentage : Bool}
variable {kernel : List Process} {processMap : Dict Int Process} {finished : Finished}

/-- With pruning, no two neighbours of a child list have the same command, and the pids do
not decrease, if and only if no two runs of the siblings that `merge_siblings` finds
together, with the same command, are next to each other in the order of the pids. -/
theorem settled_init_iff
    (made : init samplePeriod monitoredApp true accurateParentage kernel processMap =
      some finished) :
    Settled finished ↔
      ∀ before ∈ beforeMerging samplePeriod monitoredApp accurateParentage
        (objects kernel processMap) (sortByPid (objects kernel processMap)
          (processIds kernel processMap)), RunsApart before.1 before.2 := by
  have nodup : (sortByPid (objects kernel processMap)
      (processIds kernel processMap)).Nodup :=
    (List.mergeSort_perm _ _).nodup_iff.mpr (nodup_processIds _ _)
  have isFinish := finish_eq samplePeriod monitoredApp true accurateParentage
    (objects kernel processMap) (sortByPid (objects kernel processMap)
      (processIds kernel processMap))
  obtain ⟨first, built, rfl⟩ := Option.map_eq_some_iff.mp (isFinish.symm.trans made)
  obtain ⟨before, isBefore⟩ := beforeMerging_eq_some samplePeriod monitoredApp built
  have settled := settled_complete_iff nodup built isBefore
  rw [settled, isBefore]
  simp

end Init

/-- A process that runs for a while. -/
def child (pid : ℚ) (cmd : Text) (parent : Int) (duration : ℚ) : Process :=
  { Process.new pid cmd parent 1 with
    parent := some (.mapped parent)
    duration := duration }

/-- A process with a short-lived child, whose children take its place in the opposite order
when it is removed. -/
def splicedChildren : Dict Int Process :=
  ((((Dict.empty.set 1000 { Process.new 1000 ['i'] 0 0 with duration := 100 }).set
    2000 (child 2000 ['s'] 1000 1)).set 3000 (child 3000 ['y'] 2000 5)).set
      4000 (child 4000 ['x'] 2000 5)).set 5000 (child 5000 ['x'] 1000 5)

/-- Two children with the same command are neighbours in the end. -/
theorem not_settled_splicedChildren :
    ∃ finished, init 1 none true true [] splicedChildren = some finished ∧
      ¬Settled finished := by
  have sorted : (processIds [] splicedChildren).Pairwise fun first second => decide
      ((objects [] splicedChildren first).pid ≤ (objects [] splicedChildren second).pid) =
        true := by
    decide +kernel
  let first := passes 1 none true (objects [] splicedChildren)
    (tree (objects [] splicedChildren) (processIds [] splicedChildren))
  have isForest : first.2 = .cons (.mapped 1000) (.cons (.mapped 4000) .nil
      (.cons (.mapped 3000) .nil (.cons (.mapped 5000) .nil .nil))) .nil := by
    decide +kernel
  have sameCmd : first.1.cmd (.mapped 5000) = first.1.cmd (.mapped 4000) := by
    decide +kernel
  have pids : (first.1.objects (.mapped 3000)).pid = 3000 ∧
      (first.1.objects (.mapped 4000)).pid = 4000 ∧
        (first.1.objects (.mapped 5000)).pid = 5000 := by
    decide +kernel
  obtain ⟨pid3000, pid4000, pid5000⟩ := pids
  have distinct : first.2.toList.Nodup := by
    rw [isForest]
    decide
  have isFamily : (.mapped 1000, [.mapped 4000, .mapped 3000, .mapped 5000]) ∈
      first.2.families := by
    rw [isForest]
    decide
  refine ⟨complete 1 none true (processIds [] splicedChildren) (objects [] splicedChildren)
    (tree (objects [] splicedChildren) (processIds [] splicedChildren)),
    init_of_sorted sorted _ _ _ _, fun settled => ?_⟩
  have keptApart : KeptApart first.1.cmd
      (SortsBefore (fun proc => (first.1.objects proc).pid)
        [.mapped 4000, .mapped 3000, .mapped 5000])
      [.mapped 4000, .mapped 3000, .mapped 5000] :=
    (settled_iff_keptApart distinct rfl).mp settled _ isFamily
  obtain ⟨other, isOther, differs, after, -⟩ := keptApart (.mapped 4000) (by simp)
    (.mapped 5000) (by simp) sameCmd (.inl (by norm_num [pid4000, pid5000]))
  simp only [List.mem_cons, List.not_mem_nil, or_false] at isOther
  rcases isOther with rfl | rfl | rfl
  · exact differs rfl
  · rcases after with less | ⟨same, -⟩
    · norm_num [pid3000, pid4000] at less
    · norm_num [pid3000, pid4000] at same
  · exact differs sameCmd

/-- A process with four children, three of which have the same command. -/
def fourChildren : Dict Int Process :=
  ((((Dict.empty.set 1000 { Process.new 1000 ['i'] 0 0 with duration := 100 }).set
    2000 (child 2000 ['x'] 1000 5)).set 3000 (child 3000 ['y'] 1000 5)).set
      4000 (child 4000 ['x'] 1000 5)).set 5000 (child 5000 ['x'] 1000 5)

/-- The last two become one, and the second keeps that apart from the first. -/
theorem settled_fourChildren :
    ∃ finished, init 1 none true true [] fourChildren = some finished ∧ Settled finished := by
  have sorted : (processIds [] fourChildren).Pairwise fun first second => decide
      ((objects [] fourChildren first).pid ≤ (objects [] fourChildren second).pid) =
        true := by
    decide +kernel
  have isTree : (beforeMerging 1 none true (objects [] fourChildren)
      (processIds [] fourChildren)).map (fun before =>
        ((before.2.mergeAlike (fun root _ => root) before.1.cmd).families,
          [.mapped 2000, .mapped 3000, .mapped 4000].map fun proc =>
            (before.1.cmd proc, (before.1.objects proc).pid))) =
      some ([(.mapped 1000, [.mapped 2000, .mapped 3000, .mapped 4000]), (.mapped 2000, []),
        (.mapped 3000, []), (.mapped 4000, [])],
          [(['x'], 2000), (['y'], 3000), (['x'], 4000)]) := by
    decide +kernel
  have made : init 1 none true true [] fourChildren = some (complete 1 none true
      (processIds [] fourChildren) (objects [] fourChildren)
      (tree (objects [] fourChildren) (processIds [] fourChildren))) :=
    init_of_sorted sorted _ _ _ _
  refine ⟨_, made, (settled_init_iff made).mpr fun before isBefore => ?_⟩
  rw [sortByPid, List.mergeSort_of_pairwise sorted] at isBefore
  rw [Option.mem_def.mp isBefore, Option.map_some, Option.some.injEq, Prod.mk.injEq] at isTree
  obtain ⟨families, values⟩ := isTree
  simp only [List.map_cons, List.map_nil, List.cons.injEq, Prod.mk.injEq, and_true] at values
  obtain ⟨⟨cmd2000, pid2000⟩, ⟨cmd3000, pid3000⟩, cmd4000, pid4000⟩ := values
  let good (siblings : List ProcessId) : Prop := KeptApart before.1.cmd
    (SortsBefore (fun proc => (before.1.objects proc).pid) siblings) siblings
  refine (Forest.forall_families_mergeAlike before.2 good).mp ?_
  have none : good [] := fun _ absent => absurd absent List.not_mem_nil
  have three : good [.mapped 2000, .mapped 3000, .mapped 4000] := by
    refine (Library.isChain_iff_keptApart (SortsBefore.asymm (by decide)) ?_).mp ?_
    · norm_num [SortsBefore, pid2000, pid3000, pid4000]
    · simp [cmd2000, cmd3000, cmd4000]
  rw [families]
  simp only [List.forall_mem_cons, List.not_mem_nil, false_imp_iff, implies_true]
  exact ⟨three, none, none, none, trivial⟩

end ProcessTree
end Bootchart
