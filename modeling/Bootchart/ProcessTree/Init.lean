import Bootchart.ProcessTree.Passes
import Mathlib.Data.Rat.Floor

/-!
# Making a process tree

`ProcessTree.__init__` builds the tree, moves daemons below the process `rc` if the
parents are not known accurately, and runs the passes.
-/

namespace Bootchart
namespace ProcessTree

open Library (Text Dict Forest)

/-- The forest below some processes, nothing if it does not end: if a process is
below itself, there are more levels than processes. -/
def Links.subtree (links : Links) (count : Nat) (processes : List ProcessId) :
    Option (Forest ProcessId) :=
  let forest := links.forest (count + 1) processes
  if forest.height ≤ count then some forest else none

/-- What `update_ppids_for_daemons` knows of `rc`. -/
structure Rc where
  /-- `rcproc`. -/
  rcproc : Option ProcessId
  /-- `rcstartpid`. -/
  rcstartpid : ℚ
  /-- `rcendpid`. -/
  rcendpid : ℚ

/-- Whether the parent of a process is the process 1. -/
def belowInit (process : Process) : Bool :=
  ⌊process.ppid / 1000⌋ = 1

/-- The last process `rc`, and the largest pid below it. The search does not return
if it meets an `rc` that is below itself. -/
def findRc (objects : Objects) (processList : List ProcessId) (links : Links) :
    Option Rc :=
  processList.foldlM (fun rc p =>
    if (objects p).cmd = ['r', 'c'] ∧ belowInit (objects p) then
      (links.subtree processList.length (links.childList p)).map fun childList =>
        { rcproc := some p
          rcstartpid := (objects p).pid
          rcendpid := getMaxPid objects childList }
    else some rc)
    { rcproc := none, rcstartpid := -1, rcendpid := -1 }

/-- A process between `rc` and the largest pid below it is moved below `rc`, if its
parent is the process 1. -/
def moveBelowRc (rc : Rc) (process : Process) : Process :=
  if rc.rcstartpid < process.pid ∧ process.pid < rc.rcendpid ∧ belowInit process then
    { process with ppid := rc.rcstartpid, parent := rc.rcproc }
  else process

/-- `update_ppids_for_daemons`: the objects and the tree, nothing if it does not
return. -/
def updatePpidsForDaemons
    (objects : Objects)
    (processList : List ProcessId) : Option (Objects × Forest ProcessId) :=
  (findRc objects processList (build objects processList)).map fun rc =>
    if rc.rcstartpid ≠ -1 ∧ rc.rcendpid ≠ -1 then
      let moved : Objects := fun proc =>
        if proc ∈ processList then moveBelowRc rc (objects proc) else objects proc
      (moved, tree moved processList)
    else (objects, tree objects processList)

/-- A finished `ProcessTree`. -/
structure Finished where
  /-- `process_list`. -/
  processList : List ProcessId
  /-- The objects, and the merges that were made. -/
  state : State
  /-- `process_tree`. -/
  processTree : Forest ProcessId
  /-- `start_time`. -/
  startTime : ℚ
  /-- `end_time`. -/
  endTime : ℚ
  /-- `duration`. -/
  duration : ℚ
  /-- `num_proc`. -/
  numProc : Nat

/-- `LOGGER_PROC`. -/
def loggerProc : Text :=
  ['b', 'o', 'o', 't', 'c', 'h', 'a', 'r', 't', 'd']

/-- The passes that are made if `prune` is set. -/
def pruneAndMerge (period : Period) (state : State) (forest : Forest ProcessId) :
    State × Forest ProcessId :=
  let (forest, _) := prune period state.objects false forest
  let (forest, _) := mergeExploders forest
  let (state, forest, _) := mergeSiblings state forest
  let (state, forest, _) := mergeRuns state forest
  (state, forest)

/-- The objects and the tree that is built first, nothing if that does not return. -/
def firstTree
    (accurateParentage : Bool)
    (objects : Objects)
    (processList : List ProcessId) : Option (Objects × Forest ProcessId) :=
  if accurateParentage then some (objects, tree objects processList)
  else updatePpidsForDaemons objects processList

/-- The passes over the tree. -/
def passes
    (samplePeriod : ℚ)
    (monitoredApp : Option Text)
    (isPruned : Bool)
    (objects : Objects)
    (forest : Forest ProcessId) : State × Forest ProcessId :=
  let startTime := getStartTime objects forest
  let period : Period :=
    { startTime := startTime
      duration := getEndTime objects forest - startTime
      samplePeriod := samplePeriod }
  let (state, forest, _) := mergeLogger loggerProc monitoredApp
    { objects := objects, merges := [] } forest
  if isPruned then pruneAndMerge period state forest else (state, forest)

/-- `ProcessTree.__init__` from the building of the tree on, with `for_testing` left at
its default: nothing if it does not return. -/
def finish
    (samplePeriod : ℚ)
    (monitoredApp : Option Text)
    (isPruned accurateParentage : Bool)
    (objects : Objects)
    (processList : List ProcessId) : Option Finished :=
  (firstTree accurateParentage objects processList).map fun (objects, forest) =>
    let (state, forest) := passes samplePeriod monitoredApp isPruned objects forest
    let forest := sort state.objects forest
    let startTime := getStartTime state.objects forest
    let endTime := getEndTime state.objects forest
    { processList := processList
      state := state
      processTree := forest
      startTime := startTime
      endTime := endTime
      duration := endTime - startTime
      numProc := numNodes forest }

/-- `ProcessTree.__init__`, for the processes of the kernel log and of a process map;
either may be empty. -/
def init
    (samplePeriod : ℚ)
    (monitoredApp : Option Text)
    (isPruned accurateParentage : Bool)
    (kernel : List Process)
    (processMap : Dict Int Process) : Option Finished :=
  let objects := objects kernel processMap
  finish samplePeriod monitoredApp isPruned accurateParentage objects
    (sortByPid objects (processIds kernel processMap))

/-- Processes that are in the order of their pids are not moved before. -/
theorem init_of_sorted
    {kernel : List Process}
    {processMap : Dict Int Process}
    (sorted : (processIds kernel processMap).Pairwise fun first second =>
      decide ((objects kernel processMap first).pid ≤
        (objects kernel processMap second).pid) = true)
    (samplePeriod : ℚ)
    (monitoredApp : Option Text)
    (isPruned accurateParentage : Bool) :
    init samplePeriod monitoredApp isPruned accurateParentage kernel processMap =
      finish samplePeriod monitoredApp isPruned accurateParentage (objects kernel processMap)
        (processIds kernel processMap) := by
  rw [init, sortByPid, List.mergeSort_of_pairwise sorted]

end ProcessTree
end Bootchart
