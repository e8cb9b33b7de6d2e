import Bootchart.ProcessTree.Build

/-!
# Pruning and merging

The passes of `ProcessTree` over the tree. They change child lists, and
`merge_processes` changes the samples and times of a process; the processes that are
merged into others leave the tree but stay in the list of processes. The merges are
recorded in the order in which they are made.
-/

namespace Bootchart
namespace ProcessTree

open Library (Text Forest)

/-- A merge: what it merged into which process. -/
structure Merge where
  /-- The process `p1` that is kept. -/
  target : ProcessId
  /-- The process `p2` that leaves the tree. -/
  absorbed : ProcessId
  /-- The samples of `p2` when it was merged. -/
  samples : List ProcessSample

/-- The process objects, and the merges so far. -/
structure State where
  /-- The objects. -/
  objects : Objects
  /-- The merges. -/
  merges : List Merge

namespace State

/-- The command of a process. No pass changes it. -/
def cmd (state : State) (proc : ProcessId) : Text :=
  (state.objects proc).cmd

/-- `p1` after a merge. -/
def mergedProcess (first second : Process) : Process :=
  let startTime := min first.startTime second.startTime
  let pendtime :=
    max (first.startTime + first.duration) (second.startTime + second.duration)
  { first with
    samples := (first.samples ++ second.samples).mergeSort fun s t => s.time ≤ t.time
    startTime := startTime
    duration := pendtime - startTime }

/-- `merge_processes`. -/
def mergeProcesses (state : State) (p1 p2 : ProcessId) : State where
  objects := Function.update state.objects p1
    (mergedProcess (state.objects p1) (state.objects p2))
  merges := state.merges ++
    [{ target := p1, absorbed := p2, samples := (state.objects p2).samples }]

@[simp] theorem objects_mergeProcesses (state : State) (p1 p2 : ProcessId) :
    (state.mergeProcesses p1 p2).objects = Function.update state.objects p1
      (mergedProcess (state.objects p1) (state.objects p2)) := rfl

@[simp] theorem merges_mergeProcesses (state : State) (p1 p2 : ProcessId) :
    (state.mergeProcesses p1 p2).merges = state.merges ++
      [{ target := p1, absorbed := p2, samples := (state.objects p2).samples }] := rfl

end State

/-! ## Times and numbers -/

section Times

variable (objects : Objects)

/-- `get_start_time`. -/
def getStartTime : Forest ProcessId → ℚ
  | .nil => 100000000
  | .cons proc childList .nil =>
      min (objects proc).startTime (getStartTime childList)
  | .cons proc childList siblings =>
      min (min (objects proc).startTime (getStartTime childList)) (getStartTime siblings)

/-- `get_end_time`. -/
def getEndTime : Forest ProcessId → ℚ
  | .nil => -100000000
  | .cons proc childList .nil =>
      max ((objects proc).startTime + (objects proc).duration) (getEndTime childList)
  | .cons proc childList siblings =>
      max (max ((objects proc).startTime + (objects proc).duration)
        (getEndTime childList)) (getEndTime siblings)

/-- `get_max_pid`. -/
def getMaxPid : Forest ProcessId → ℚ
  | .nil => -100000000
  | .cons proc childList .nil => max (objects proc).pid (getMaxPid childList)
  | .cons proc childList siblings =>
      max (max (objects proc).pid (getMaxPid childList)) (getMaxPid siblings)

/-- `num_nodes`. -/
def numNodes (processList : Forest ProcessId) : Nat :=
  processList.size

end Times

/-! ## The passes -/

/-- The loop of `merge_logger` over the children of a logger. It goes by index over
the list it removes from, so the child behind a merged one is never looked at. -/
def mergeChildren
    (monitoredApp : Option Text)
    (logger : ProcessId) :
    Bool → State → List ProcessId → State × List Bool
  | _, state, [] => (state, [])
  | true, state, _ :: children =>
      let (state, marks) := mergeChildren monitoredApp logger false state children
      (state, true :: marks)
  | false, state, child :: children =>
      if monitoredApp.any fun app => app ≠ [] ∧ state.cmd child = app then
        let (state, marks) := mergeChildren monitoredApp logger false state children
        (state, true :: marks)
      else
        let (state, marks) := mergeChildren monitoredApp logger true
          (state.mergeProcesses logger child) children
        (state, false :: marks)

/-- `merge_logger`. The loggers are found before the first merge and then handled in
preorder, also those in trees that an earlier one has removed. -/
def mergeLogger
    (loggerProc : Text)
    (monitoredApp : Option Text) :
    State → Forest ProcessId → State × Forest ProcessId × Nat
  | state, .nil => (state, .nil, 0)
  | state, .cons proc childList siblings =>
      let (state, marks) :=
        if state.cmd proc = loggerProc then
          mergeChildren monitoredApp proc false state childList.roots
        else (state, [])
      let (state, childList, removed) :=
        mergeLogger loggerProc monitoredApp state childList
      let (state, siblings, more) := mergeLogger loggerProc monitoredApp state siblings
      (state, .cons proc (childList.keep marks) siblings,
        marks.count false + removed + more)

/-- What `prune` knows of the tree. -/
structure Period where
  /-- `self.start_time`. -/
  startTime : ℚ
  /-- `self.duration`. -/
  duration : ℚ
  /-- `self.sample_period`. -/
  samplePeriod : ℚ

/-- `is_idle_background_process_without_children`. -/
def isIdleBackgroundProcessWithoutChildren
    (period : Period)
    (p : Process)
    (childList : Forest ProcessId) : Bool :=
  p.active ≠ some true ∧
    period.startTime + period.duration ≤ p.startTime + p.duration ∧
    period.startTime < p.startTime ∧
    9 / 10 * period.duration < p.duration ∧
    numNodes childList = 0

/-- Whether `prune` removes a process: it is idle or short-lived, and has a parent or
no children. -/
def pruned
    (period : Period)
    (objects : Objects)
    (hasParent : Bool)
    (proc : ProcessId)
    (childList : Forest ProcessId) : Bool :=
  (hasParent ∨ childList = .nil) ∧
    (isIdleBackgroundProcessWithoutChildren period (objects proc) childList ∨
      (objects proc).duration ≤ 2 * period.samplePeriod)

/-- `prune`. The children of a removed process take its place, in the opposite order,
and are looked at there. -/
def prune (period : Period) (objects : Objects) :
    Bool → Forest ProcessId → Forest ProcessId × Nat
  | _, .nil => (.nil, 0)
  | hasParent, .cons proc childList siblings =>
      if pruned period objects hasParent proc childList then
        let (forest, removed) :=
          prune period objects hasParent (childList.reverse ++ siblings)
        (forest, removed + 1)
      else
        let (childList, removed) := prune period objects true childList
        let (siblings, more) := prune period objects hasParent siblings
        (.cons proc childList siblings, removed + more)
termination_by _ forest => forest.size
decreasing_by
  all_goals simp only [Forest.size_append, Forest.size_reverse, Forest.size_cons]
  all_goals omega

/-- `merge_exploders`. Its test `processes in processes` asks whether a set of texts
is one of its own elements, which it never is, so it only goes through the tree. -/
def mergeExploders : Forest ProcessId → Forest ProcessId × Nat
  | .nil => (.nil, 0)
  | .cons p childList siblings =>
      let (childList, removed) := mergeExploders childList
      let (siblings, more) := mergeExploders siblings
      (.cons p childList siblings, removed + more)

/-- `merge_siblings`, with the fact that what is removed is missing. -/
def mergeSiblingsFrom :
    State → (forest : Forest ProcessId) →
      {result : State × Forest ProcessId × Nat //
        result.2.1.size + result.2.2 = forest.size}
  | state, .nil => ⟨(state, .nil, 0), rfl⟩
  | state, .cons p childList .nil =>
      match mergeSiblingsFrom state childList with
      | ⟨(state, childList, removed), count⟩ =>
          ⟨(state, .cons p childList .nil, removed), by
            simp only [Forest.size_cons, Forest.size_nil] at count ⊢; omega⟩
  | state, .cons p childList (.cons nextp nextChildList siblings) =>
      if state.cmd nextp = state.cmd p then
        match mergeSiblingsFrom (state.mergeProcesses p nextp)
            (childList ++ nextChildList) with
        | ⟨(state, childList, removed), count⟩ =>
            match mergeSiblingsFrom state (.cons p childList siblings) with
            | ⟨(state, forest, more), countMore⟩ =>
                ⟨(state, forest, 1 + removed + more), by
                  simp only [Forest.size_cons, Forest.size_append] at count countMore ⊢
                  omega⟩
      else
        match mergeSiblingsFrom state childList with
        | ⟨(state, childList, removed), count⟩ =>
            match mergeSiblingsFrom state (.cons nextp nextChildList siblings) with
            | ⟨(state, siblings, more), countMore⟩ =>
                ⟨(state, .cons p childList siblings, removed + more), by
                  simp only [Forest.size_cons] at count countMore ⊢; omega⟩
termination_by _ forest => forest.size
decreasing_by
  all_goals simp only [Forest.size_append, Forest.size_cons, Forest.size_nil] at *
  all_goals omega

/-- `merge_siblings`. Neighbours with the same command are merged, and the children
of both are put together before they are merged themselves. -/
def mergeSiblings (state : State) (forest : Forest ProcessId) :
    State × Forest ProcessId × Nat :=
  (mergeSiblingsFrom state forest).1

/-- `merge_runs`. A process with a single child of the same command is merged with
it, and then looked at again. -/
def mergeRuns : State → Forest ProcessId → State × Forest ProcessId × Nat
  | state, .nil => (state, .nil, 0)
  | state, .cons p (.cons child grandchildren .nil) siblings =>
      if state.cmd child = state.cmd p then
        let (state, forest, removed) :=
          mergeRuns (state.mergeProcesses p child) (.cons p grandchildren siblings)
        (state, forest, 1 + removed)
      else
        let (state, childList, removed) :=
          mergeRuns state (.cons child grandchildren .nil)
        let (state, siblings, more) := mergeRuns state siblings
        (state, .cons p childList siblings, removed + more)
  | state, .cons p childList siblings =>
      let (state, childList, removed) := mergeRuns state childList
      let (state, siblings, more) := mergeRuns state siblings
      (state, .cons p childList siblings, removed + more)
termination_by _ forest => forest.size
decreasing_by
  all_goals simp only [Forest.size_cons, Forest.size_nil]
  all_goals omega

/-- `sort`. The roots keep their order. -/
def sort (objects : Objects) : Forest ProcessId → Forest ProcessId
  | .nil => .nil
  | .cons p childList siblings =>
      .cons p
        ((sort objects childList).sortRoots fun first second =>
          (objects first).pid ≤ (objects second).pid)
        (sort objects siblings)

/-! ## The counts -/

/-- `merge_siblings` counts the processes that leave the tree. -/
theorem numNodes_mergeSiblings (state : State) (forest : Forest ProcessId) :
    numNodes (mergeSiblings state forest).2.1 + (mergeSiblings state forest).2.2 =
      numNodes forest :=
  (mergeSiblingsFrom state forest).2

/-- `merge_runs` counts the processes that leave the tree. -/
theorem numNodes_mergeRuns (state : State) (forest : Forest ProcessId) :
    numNodes (mergeRuns state forest).2.1 + (mergeRuns state forest).2.2 =
      numNodes forest := by
  unfold numNodes
  fun_induction mergeRuns state forest with
  | case1 state => rfl
  | case2 state p child grandchildren siblings _ after result more isResult count =>
      rw [isResult] at count
      simp only [Forest.size_cons, Forest.size_nil] at count ⊢
      omega
  | case3 state p child grandchildren siblings _ middle children removed areChildren after
      rest more areRest first second =>
      rw [areChildren] at first
      rw [areRest] at second
      simp only [Forest.size_cons] at first second ⊢
      omega
  | case4 state p childList siblings _ middle children removed areChildren after rest more
      areRest first second =>
      rw [areChildren] at first
      rw [areRest] at second
      simp only [Forest.size_cons] at first second ⊢
      omega

end ProcessTree
end Bootchart
