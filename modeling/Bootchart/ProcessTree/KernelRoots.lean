import Bootchart.Library.Cut
import Bootchart.ProcessTree.LoggerLoss
import Bootchart.ProcessTree.Totals

/-!
# The kernel log in the tree

The processes of the kernel log have no parents, and no process has one of them as
parent, unless `update_ppids_for_daemons` moves processes. They are roots without
children then, until `merge_siblings` merges them with their neighbours.
-/

namespace Bootchart
namespace ProcessTree

open Library (Text Dict Forest)

/-- A process is one of the kernel log. -/
def IsKernel (proc : ProcessId) : Prop :=
  ∃ index, proc = .kernel index

/-- Whether `update_ppids_for_daemons` moves a process. -/
def Moves (objects : Objects) (processList : List ProcessId) (proc : ProcessId) : Prop :=
  ∃ rc, findRc objects processList (build objects processList) = some rc ∧
    rc.rcstartpid ≠ -1 ∧ rc.rcendpid ≠ -1 ∧ rc.rcstartpid < (objects proc).pid ∧
      (objects proc).pid < rc.rcendpid ∧ belowInit (objects proc) = true

/-! ## The first tree -/

section First

variable {objects : Objects} {processes : List ProcessId}

/-- What is known of `rc`: there is none, or it is a process with a child list. -/
def Rc.OfProcess (objects : Objects) (processes : List ProcessId) (rc : Rc) : Prop :=
  (rc.rcproc = none ∧ rc.rcstartpid = -1) ∨
    ∃ proc childList, rc.rcproc = some proc ∧ rc.rcstartpid = (objects proc).pid ∧
      (build objects processes).subtree processes.length
        ((build objects processes).childList proc) = some childList ∧
      rc.rcendpid = getMaxPid objects childList

/-- The search for `rc` finds a process or nothing. -/
theorem ofProcess_findRc
    {rc : Rc}
    (found : findRc objects processes (build objects processes) = some rc) :
    rc.OfProcess objects processes := by
  have loop : ∀ (rest : List ProcessId) (start : Rc), start.OfProcess objects processes →
      rest.foldlM (fun rc p =>
        if (objects p).cmd = ['r', 'c'] ∧ belowInit (objects p) then
          ((build objects processes).subtree processes.length
            ((build objects processes).childList p)).map fun childList =>
              { rcproc := some p
                rcstartpid := (objects p).pid
                rcendpid := getMaxPid objects childList : Rc }
        else some rc) start = some rc → rc.OfProcess objects processes := by
    intro rest
    induction rest with
    | nil =>
        intro start isProcess same
        exact Option.some.inj same ▸ isProcess
    | cons proc rest inductionHypothesis =>
        intro start isProcess runs
        rw [List.foldlM_cons, Option.bind_eq_bind, Option.bind_eq_some_iff] at runs
        obtain ⟨middle, isMiddle, runsRest⟩ := runs
        refine inductionHypothesis middle ?_ runsRest
        split at isMiddle
        · obtain ⟨childList, isSubtree, rfl⟩ := Option.map_eq_some_iff.mp isMiddle
          exact .inr ⟨proc, childList, rfl, rfl, isSubtree, rfl⟩
        · exact Option.some.inj isMiddle ▸ isProcess
  exact loop processes _ (.inl ⟨rfl, rfl⟩) found

/-- The tree that is built first is that of the objects. -/
theorem eq_tree_of_firstTree
    {accurateParentage : Bool}
    {first : Objects × Forest ProcessId}
    (built : firstTree accurateParentage objects processes = some first) :
    first.2 = tree first.1 processes := by
  unfold firstTree at built
  split at built
  · obtain rfl := Option.some.inj built
    rfl
  · obtain ⟨rc, -, rfl⟩ := Option.map_eq_some_iff.mp built
    split <;> rfl

/-- A process that moves has a parent then, which is not `rc` if nothing is below that. -/
structure MovedBelow
    (objects : Objects)
    (processes : List ProcessId)
    (proc : ProcessId)
    (moved : Process) : Prop where
  /-- Its parent is a process with a smaller pid, and something is below that with a
  larger one. -/
  below : ∃ rcproc childList, moved.parent = some rcproc ∧
    (objects rcproc).pid < (objects proc).pid ∧
      (build objects processes).subtree processes.length
        ((build objects processes).childList rcproc) = some childList ∧
        (objects proc).pid < getMaxPid objects childList

/-- The objects after the tree has been built first: a process moves, or it stays as it
is. -/
theorem firstTree_cases
    {accurateParentage : Bool}
    {first : Objects × Forest ProcessId}
    (built : firstTree accurateParentage objects processes = some first)
    {proc : ProcessId}
    (member : proc ∈ processes) :
    (¬(accurateParentage = false ∧ Moves objects processes proc) ∧
        first.1 proc = objects proc) ∨
      (accurateParentage = false ∧ Moves objects processes proc) ∧
        MovedBelow objects processes proc (first.1 proc) := by
  unfold firstTree at built
  split at built
  next isAccurate =>
    obtain rfl := Option.some.inj built
    exact .inl ⟨by simp [isAccurate], rfl⟩
  next notAccurate =>
    obtain ⟨rc, found, rfl⟩ := Option.map_eq_some_iff.mp built
    by_cases moves : rc.rcstartpid ≠ -1 ∧ rc.rcendpid ≠ -1 ∧
        rc.rcstartpid < (objects proc).pid ∧ (objects proc).pid < rc.rcendpid ∧
          belowInit (objects proc) = true
    · obtain ⟨starts, ends, after, before, below⟩ := moves
      refine .inr ⟨⟨by simpa using notAccurate, rc, found, starts, ends, after, before,
        below⟩, ?_⟩
      rcases ofProcess_findRc found with ⟨-, noStart⟩ | isProcess
      · exact absurd noStart starts
      · obtain ⟨rcproc, childList, isRc, isStart, isSubtree, isEnd⟩ := isProcess
        refine ⟨rcproc, childList, ?_, isStart ▸ after, isSubtree, isEnd ▸ before⟩
        simp [starts, ends, member, moveBelowRc, after, before, below, isRc]
    · refine .inl ⟨?_, ?_⟩
      · rintro ⟨-, other, isOther, isMoved⟩
        obtain rfl := Option.some.inj (found.symm.trans isOther)
        exact moves isMoved
      · split
        next starts =>
          simp only [member, if_true, moveBelowRc]
          split
          next isMoved => exact absurd ⟨starts.1, starts.2, isMoved⟩ moves
          next => rfl
        next => rfl

end First

section Kernel

variable {kernel : List Process} {processMap : Dict Int Process} {processes : List ProcessId}

/-- What the parsers and `compile` make of the processes. -/
structure Linked (kernel : List Process) (processMap : Dict Int Process) : Prop where
  /-- The processes of the kernel log have no samples. -/
  samples : ∀ process ∈ kernel, process.samples = []
  /-- They have no parents. -/
  parent : ∀ process ∈ kernel, process.parent = none
  /-- Their pids are not negative. -/
  pids : ∀ process ∈ kernel, 0 ≤ process.pid
  /-- The parents of the others are in the process map. -/
  parents : ∀ key process, processMap.get? key = some process →
    ∀ parent, process.parent = some parent → ¬IsKernel parent

/-- A process of the kernel log has no parent. -/
theorem Linked.parent_kernel (linked : Linked kernel processMap) (index : Nat) :
    (objects kernel processMap (.kernel index)).parent = none := by
  rw [objects, List.getD_eq_getElem?_getD]
  cases present : kernel[index]? with
  | none => rfl
  | some process => exact linked.parent process (List.mem_of_getElem? present)

/-- A process of the kernel log has no samples. -/
theorem Linked.samples_kernel (linked : Linked kernel processMap) (index : Nat) :
    (objects kernel processMap (.kernel index)).samples = [] := by
  rw [objects, List.getD_eq_getElem?_getD]
  cases present : kernel[index]? with
  | none => rfl
  | some process => exact linked.samples process (List.mem_of_getElem? present)

/-- The pid of a process of the kernel log is not negative. -/
theorem Linked.pid_kernel (linked : Linked kernel processMap) (index : Nat) :
    0 ≤ (objects kernel processMap (.kernel index)).pid := by
  rw [objects, List.getD_eq_getElem?_getD]
  cases present : kernel[index]? with
  | none => exact le_refl _
  | some process => exact linked.pids process (List.mem_of_getElem? present)

/-- No process has one of the kernel log as parent. -/
theorem Linked.parent_objects
    (linked : Linked kernel processMap)
    {proc parent : ProcessId}
    (isParent : (objects kernel processMap proc).parent = some parent) :
    ¬IsKernel parent := by
  cases proc with
  | kernel index =>
      rw [linked.parent_kernel] at isParent
      contradiction
  | mapped key =>
      rw [objects] at isParent
      cases present : processMap.get? key with
      | none =>
          rw [present] at isParent
          contradiction
      | some process =>
          rw [present] at isParent
          exact linked.parents key process present parent isParent

/-- Nor does a process that moves. -/
theorem Linked.parent_moved
    (linked : Linked kernel processMap)
    {proc : ProcessId}
    {moved : Process}
    (isMoved : MovedBelow (objects kernel processMap) processes proc moved)
    {parent : ProcessId}
    (isParent : moved.parent = some parent) : ¬IsKernel parent := by
  obtain ⟨rcproc, childList, isRc, after, isSubtree, before⟩ := isMoved.below
  obtain rfl := Option.some.inj (isRc.symm.trans isParent)
  rintro ⟨index, rfl⟩
  have noChildren : (build (objects kernel processMap) processes).childList
      (.kernel index) = [] := by
    rw [build_eq]
    refine List.filter_eq_nil_iff.mpr fun child _ isChild => ?_
    exact linked.parent_objects (of_decide_eq_true isChild) ⟨index, rfl⟩
  rw [noChildren, Links.subtree, Links.forest, Forest.unfold_nil] at isSubtree
  obtain rfl : Forest.nil = childList := by simpa [Forest.height] using isSubtree
  have notNegative := linked.pid_kernel index
  rw [getMaxPid] at before
  linarith

variable {accurateParentage : Bool} {first : Objects × Forest ProcessId}

/-- In the first tree the processes of the kernel log that do not move are roots without
children. -/
theorem Linked.alone_firstTree
    (linked : Linked kernel processMap)
    (built : firstTree accurateParentage (objects kernel processMap) processes = some first)
    (unmoved : ∀ index, .kernel index ∈ processes →
      ¬(accurateParentage = false ∧
        Moves (objects kernel processMap) processes (.kernel index))) :
    first.2.Alone IsKernel := by
  have parents : ∀ proc ∈ processes, ∀ parent, (first.1 proc).parent = some parent →
      ¬IsKernel proc ∧ ¬IsKernel parent := by
    intro proc member parent isParent
    rcases firstTree_cases built member with ⟨-, same⟩ | ⟨moves, isMoved⟩
    · rw [same] at isParent
      refine ⟨?_, linked.parent_objects isParent⟩
      rintro ⟨index, rfl⟩
      rw [linked.parent_kernel] at isParent
      contradiction
    · refine ⟨?_, linked.parent_moved isMoved isParent⟩
      rintro ⟨index, rfl⟩
      exact unmoved index member moves
  rw [eq_tree_of_firstTree built, tree, build_eq]
  apply Forest.alone_unfold
  · intro proc isKernel
    refine List.filter_eq_nil_iff.mpr fun child member isChild => ?_
    exact (parents child member proc (of_decide_eq_true isChild)).2 isKernel
  · intro proc child isChild
    obtain ⟨member, isParent⟩ := List.mem_filter.mp isChild
    exact (parents child member proc (of_decide_eq_true isParent)).1

end Kernel

/-! ## The passes before merging -/

section Passes

variable {special : ProcessId → Prop} {forest : Forest ProcessId}
variable {loggerProc : Text} {monitoredApp : Option Text}

/-- What is alone does not change in `merge_logger`. -/
theorem objects_mergeLogger_alone
    (state : State)
    (alone : forest.Alone special)
    {proc : ProcessId}
    (isSpecial : special proc) :
    (mergeLogger loggerProc monitoredApp state forest).1.objects proc =
      state.objects proc := by
  induction forest generalizing state with
  | nil => rfl
  | cons root childList siblings first second =>
      obtain ⟨noChildren, notBelow, rest⟩ := alone
      have notChild : proc ∉ childList.toList := fun inChildren =>
        notBelow proc inChildren isSpecial
      simp only [mergeLogger_cons, second _ rest, objects_mergeLogger_of_notMem _ notChild]
      by_cases isRoot : proc = root
      · subst isRoot
        rw [noChildren isSpecial, Forest.roots_nil, Library.unmarked_nil_right]
        rfl
      · exact state.objects_absorb_of_ne isRoot _

/-- What is alone stays alone when the tree is pruned. -/
theorem alone_prune
    (period : Period)
    (objects : Objects)
    (alone : forest.Alone special) :
    (prune period objects false forest).1.Alone special := by
  generalize isRoots : false = hasParent
  fun_induction prune period objects hasParent forest with
  | case1 => trivial
  | case2 hasParent proc childList siblings isPruned pruned removed ofRest
      inductionHypothesis =>
      subst isRoots
      have noChildren : childList = .nil := by
        have conditions : (false = true ∨ childList = .nil) ∧ _ := of_decide_eq_true isPruned
        simpa using conditions.1
      rw [ofRest, noChildren] at inductionHypothesis
      exact inductionHypothesis alone.2.2 rfl
  | case3 hasParent proc childList siblings _ children removed areChildren rest more
      areRest first second =>
      have subperm : (prune period objects true childList).1.toList.Subperm
          childList.toList := toList_prune_subperm period objects true
      rw [areChildren] at subperm
      rw [areRest] at second
      obtain ⟨noChildren, notBelow, alone⟩ := alone
      refine ⟨fun isSpecial => ?_, fun a member => notBelow a (subperm.subset member),
        second alone isRoots⟩
      have isNil := noChildren isSpecial
      subst isNil
      rw [prune] at areChildren
      exact (Prod.mk.inj areChildren).1.symm

end Passes

end ProcessTree
end Bootchart
