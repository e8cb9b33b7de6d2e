import Bootchart.Library.Forest
import Bootchart.Samples
import Mathlib.Data.List.Sort

/-!
# Building the process tree

`ProcessTree.build` puts every process of the list into the child list of its
parent, or among the roots. The tree that can be reached from the roots is a forest,
whatever the parents are: a process on a cycle cannot be reached.
-/

namespace Bootchart
namespace ProcessTree

open Library (Dict Forest)

/-- The process objects. -/
abbrev Objects := ProcessId → Process

/-- The processes of the kernel log and of the process map. -/
def objects (kernel : List Process) (processMap : Dict Int Process) : Objects
  | .kernel index => kernel.getD index (Process.new 0 [] 0 0)
  | .mapped key => (processMap.get? key).getD (Process.new 0 [] 0 0)

/-- `list(kernel) + list(psstats.process_map.values())`. -/
def processIds (kernel : List Process) (processMap : Dict Int Process) :
    List ProcessId :=
  (List.range kernel.length).map .kernel ++ processMap.keys.map .mapped

/-- `sorted(process_list, key = lambda p: p.pid)`. -/
def sortByPid (objects : Objects) (processes : List ProcessId) : List ProcessId :=
  processes.mergeSort fun first second => (objects first).pid ≤ (objects second).pid

/-- The roots and the child lists. -/
structure Links where
  /-- `process_tree`. -/
  processTree : List ProcessId
  /-- The `child_list` of every process. -/
  childList : ProcessId → List ProcessId

/-- One round of the loop of `build`. -/
def Links.add (objects : Objects) (links : Links) (proc : ProcessId) : Links :=
  match (objects proc).parent with
  | none => { links with processTree := links.processTree ++ [proc] }
  | some parent =>
      { links with
        childList := Function.update links.childList parent
          (links.childList parent ++ [proc]) }

/-- `ProcessTree.build`, for processes whose child lists are empty. -/
def build (objects : Objects) (processList : List ProcessId) : Links :=
  processList.foldl (Links.add objects)
    { processTree := [], childList := fun _ => [] }

/-- The forest below some processes, down to a given depth. -/
def Links.forest (links : Links) (depth : Nat) (processes : List ProcessId) :
    Forest ProcessId :=
  Forest.unfold links.childList depth processes

/-- The tree that is reached from the roots. No path to a root is longer than the
list of processes. -/
def tree (objects : Objects) (processList : List ProcessId) : Forest ProcessId :=
  let links := build objects processList
  links.forest processList.length links.processTree

/-! ## What is built -/

/-- The list of processes has each once. -/
theorem nodup_processIds (kernel : List Process) (processMap : Dict Int Process) :
    (processIds kernel processMap).Nodup := by
  rw [processIds, List.nodup_append]
  refine ⟨List.nodup_range.map fun _ _ => ProcessId.kernel.inj,
    processMap.nodup.map fun _ _ => ProcessId.mapped.inj, ?_⟩
  intro first isKernel second isMapped
  obtain ⟨index, -, rfl⟩ := List.mem_map.mp isKernel
  obtain ⟨key, -, rfl⟩ := List.mem_map.mp isMapped
  exact nofun

/-- The processes with a given parent. -/
def withParent (objects : Objects) (processList : List ProcessId)
    (parent : Option ProcessId) : List ProcessId :=
  processList.filter fun proc => (objects proc).parent = parent

section Build

variable (objects : Objects) (processList : List ProcessId)

/-- The loop of `build` appends to the roots and to the child lists. -/
theorem foldl_add (links : Links) :
    processList.foldl (Links.add objects) links =
      { processTree := links.processTree ++ withParent objects processList none
        childList := fun parent =>
          links.childList parent ++ withParent objects processList (some parent) } := by
  induction processList generalizing links with
  | nil => simp [withParent]
  | cons proc processList inductionHypothesis =>
      rw [List.foldl_cons, inductionHypothesis, Links.add]
      cases isParent : (objects proc).parent with
      | none => simp [withParent, isParent]
      | some parent =>
          simp only [Links.mk.injEq]
          constructor
          · simp [withParent, isParent]
          · funext other
            by_cases same : parent = other
            · subst same
              simp [withParent, isParent]
            · simp [withParent, isParent, same, Ne.symm same]

/-- The roots are the processes without parent, the children of a process those that
have it as parent. -/
theorem build_eq :
    build objects processList =
      { processTree := withParent objects processList none
        childList := fun parent => withParent objects processList (some parent) } := by
  rw [build, foldl_add]
  simp

variable {objects processList}

/-- A process occurs once among those with its parent. -/
theorem count_withParent
    (nodup : processList.Nodup)
    {proc : ProcessId}
    (member : proc ∈ processList)
    (parent : Option ProcessId) :
    (withParent objects processList parent).count proc =
      if (objects proc).parent = parent then 1 else 0 := by
  unfold withParent
  split
  next isParent =>
    refine (List.count_filter ?_).trans (List.count_eq_one_of_mem nodup member)
    exact decide_eq_true isParent
  next notParent =>
    refine List.count_eq_zero.mpr fun inFilter => notParent ?_
    exact of_decide_eq_true (List.mem_filter.mp inFilter).2

/-- A process occurs in the tree once if the climb along its parents ends, else
never. -/
theorem count_tree
    (nodup : processList.Nodup)
    (closed : ∀ proc ∈ processList, ∀ parent, (objects proc).parent = some parent →
      parent ∈ processList)
    {proc : ProcessId}
    (member : proc ∈ processList) :
    (tree objects processList).toList.count proc = 1 ↔
      Library.Ends (fun proc => (objects proc).parent) proc := by
  have counted := Forest.count_unfold_eq
    (fun parent => withParent objects processList (some parent))
    (fun a isProcess parent => count_withParent nodup isProcess (some parent))
    (fun a isProcess => count_withParent nodup isProcess none)
    closed processList.length member
  rw [tree, build_eq, Links.forest, counted]
  constructor
  · intro occurs
    obtain ⟨top, climbed⟩ : ∃ top, Library.climb (fun proc => (objects proc).parent)
        processList.length proc = some top := by
      rw [← Option.isSome_iff_exists]
      by_contra endless
      rw [if_neg endless] at occurs
      exact absurd occurs (by decide)
    exact ⟨_, top, climbed⟩
  · intro ends
    obtain ⟨top, climbed⟩ := Library.climb_of_ends_of_mem closed member ends
    rw [climbed]
    rfl

/-- No process occurs in the tree twice. -/
theorem nodup_tree (nodup : processList.Nodup) : (tree objects processList).toList.Nodup := by
  have isSublist : ∀ parent, withParent objects processList parent ⊆ processList :=
    fun _ => List.filter_sublist.subset
  have counted := Forest.count_unfold_le_one
    (fun parent => withParent objects processList (some parent))
    (fun depth => Forest.mem_of_mem_unfold _ (fun proc _ => isSublist (some proc))
      (isSublist none))
    (fun a isProcess parent => count_withParent nodup isProcess (some parent))
    (fun a isProcess => count_withParent nodup isProcess none) processList.length
  rw [tree, build_eq, Links.forest, List.nodup_iff_count_le_one]
  exact counted

end Build

end ProcessTree
end Bootchart
