import Bootchart.Library.Cut
import Bootchart.ProcessTree.Absorption
import Bootchart.ProcessTree.Init

/-!
# Merging the logger's subtree

`merge_logger` removes children from the list it goes through, so that the child
behind a merged one stays. What a merged child has below it leaves the tree with it,
and its samples and times with that.
-/

namespace Bootchart
namespace ProcessTree

open Library (Text Forest)

/-! ## What the pass does -/

section Pass

variable (loggerProc : Text) (monitoredApp : Option Text) (cmd : ProcessId → Text)

/-- Whether a process is the monitored application. -/
def isMonitored (child : ProcessId) : Bool :=
  monitoredApp.any fun app => app ≠ [] ∧ cmd child = app

/-- Which children `merge_logger` leaves to a process. -/
def loggerPolicy (proc : ProcessId) (children : List ProcessId) : List Bool :=
  if cmd proc = loggerProc then
    Library.loopMarks (fun child => !isMonitored monitoredApp cmd child) false children
  else []

variable {loggerProc monitoredApp cmd}

/-- The loop over the children of a logger merges those it does not keep. -/
theorem mergeChildren_eq
    (logger : ProcessId)
    (skip : Bool)
    (state : State)
    (children : List ProcessId) :
    mergeChildren monitoredApp logger skip state children =
      let marks := Library.loopMarks
        (fun child => !isMonitored monitoredApp state.cmd child) skip children
      ((Library.unmarked marks children).foldl
        (fun state child => state.mergeProcesses logger child) state, marks) := by
  induction children generalizing state skip with
  | nil => cases skip <;> rfl
  | cons child children inductionHypothesis =>
      cases skip with
      | true =>
          rw [mergeChildren, inductionHypothesis]
          rfl
      | false =>
          unfold mergeChildren
          split
          next monitored =>
            have isKept : isMonitored monitoredApp state.cmd child = true := monitored
            rw [inductionHypothesis]
            simp [isKept]
          next notMonitored =>
            have isMerged : isMonitored monitoredApp state.cmd child = false :=
              Bool.eq_false_iff.mpr notMonitored
            rw [inductionHypothesis]
            simp [isMerged]

/-- The state after a process has absorbed the children that it does not keep. -/
def State.absorb (state : State) (proc : ProcessId) (children : List ProcessId) : State :=
  children.foldl (fun state child => state.mergeProcesses proc child) state

/-- A process, its children and its siblings. -/
theorem mergeLogger_cons
    (state : State)
    (proc : ProcessId)
    (childList siblings : Forest ProcessId) :
    mergeLogger loggerProc monitoredApp state (.cons proc childList siblings) =
      let marks := loggerPolicy loggerProc monitoredApp state.cmd proc childList.roots
      let children := mergeLogger loggerProc monitoredApp
        (state.absorb proc (Library.unmarked marks childList.roots)) childList
      let rest := mergeLogger loggerProc monitoredApp children.1 siblings
      (rest.1, .cons proc (children.2.1.keep marks) rest.2.1,
        marks.count false + children.2.2 + rest.2.2) := by
  rw [mergeLogger, mergeChildren_eq, loggerPolicy]
  by_cases isLogger : state.cmd proc = loggerProc
  · simp [isLogger, State.absorb]
  · simp [isLogger, State.absorb]

/-- Absorbing children changes no command. -/
@[simp] theorem State.cmd_absorb
    (state : State)
    (proc : ProcessId)
    (children : List ProcessId) : (state.absorb proc children).cmd = state.cmd := by
  unfold State.absorb
  induction children generalizing state with
  | nil => rfl
  | cons child children inductionHypothesis =>
      rw [List.foldl_cons, inductionHypothesis, State.cmd_mergeProcesses]

/-- `merge_logger` changes no command. -/
@[simp] theorem cmd_mergeLogger (state : State) (forest : Forest ProcessId) :
    (mergeLogger loggerProc monitoredApp state forest).1.cmd = state.cmd := by
  induction forest generalizing state with
  | nil => rfl
  | cons proc childList siblings first second =>
      simp only [mergeLogger_cons, first, second, State.cmd_absorb]

/-- `merge_logger` cuts the tree. -/
theorem mergeLogger_eq_cut (state : State) (forest : Forest ProcessId) :
    (mergeLogger loggerProc monitoredApp state forest).2.1 =
      forest.cut (loggerPolicy loggerProc monitoredApp state.cmd) := by
  induction forest generalizing state with
  | nil => rfl
  | cons proc childList siblings first second =>
      simp only [mergeLogger_cons, first, second, State.cmd_absorb, cmd_mergeLogger,
        Forest.cut]

/-- The families of the tree after `merge_logger`. -/
theorem families_mergeLogger (state : State) (forest : Forest ProcessId) :
    (mergeLogger loggerProc monitoredApp state forest).2.1.families =
      (forest.attached (loggerPolicy loggerProc monitoredApp state.cmd) []).map
        fun family => (family.1, Library.marked
          (loggerPolicy loggerProc monitoredApp state.cmd family.1 family.2) family.2) := by
  rw [mergeLogger_eq_cut, ← Forest.families_keep_cut, Forest.keep_nil]

end Pass

/-! ## What stays below a logger -/

section Clear

variable (loggerProc : Text) (monitoredApp : Option Text)

/-- The policy that leaves only the monitored application to the logger. -/
def clearPolicy
    (cmd : ProcessId → Text)
    (proc : ProcessId)
    (children : List ProcessId) : List Bool :=
  if cmd proc = loggerProc then children.map (isMonitored monitoredApp cmd) else []

/-- What is not removed is the monitored application. -/
theorem noNeighbours_isMonitored
    {monitoredApp : Option Text}
    {cmd : ProcessId → Text}
    {children : List ProcessId} :
    Library.NoNeighbours (fun child => !isMonitored monitoredApp cmd child) children ↔
      children.IsChain fun child next =>
        isMonitored monitoredApp cmd child = true ∨
          isMonitored monitoredApp cmd next = true := by
  simp [Library.NoNeighbours]

/-- After `merge_logger` the loggers in the tree have only the monitored application as
children if and only if no logger has two adjacent children that are not the monitored
application; loggers at or below a child of a logger that is not the monitored
application do not count. -/
theorem clear_mergeLogger_iff (state : State) (forest : Forest ProcessId) :
    (∀ family ∈ (mergeLogger loggerProc monitoredApp state forest).2.1.families,
        (mergeLogger loggerProc monitoredApp state forest).1.cmd family.1 = loggerProc →
          ∀ child ∈ family.2, isMonitored monitoredApp
            (mergeLogger loggerProc monitoredApp state forest).1.cmd child = true) ↔
      ∀ family ∈ forest.attached (clearPolicy loggerProc monitoredApp state.cmd) [],
        state.cmd family.1 = loggerProc →
          family.2.IsChain fun child next =>
            isMonitored monitoredApp state.cmd child = true ∨
              isMonitored monitoredApp state.cmd next = true := by
  let clear (proc : ProcessId) (children : List ProcessId) : Prop :=
    state.cmd proc = loggerProc → Library.NoNeighbours
      (fun child => !isMonitored monitoredApp state.cmd child) children
  have agree : ∀ proc children, clear proc children →
      loggerPolicy loggerProc monitoredApp state.cmd proc children =
        clearPolicy loggerProc monitoredApp state.cmd proc children := by
    intro proc children isClear
    unfold loggerPolicy clearPolicy
    split
    next isLogger =>
      rw [Library.loopMarks_eq (by simp) (isClear isLogger)]
      simp
    next => rfl
  have ofFamily : ∀ family : ProcessId × List ProcessId,
      (state.cmd family.1 = loggerProc → ∀ child ∈ Library.marked
        (loggerPolicy loggerProc monitoredApp state.cmd family.1 family.2) family.2,
          isMonitored monitoredApp state.cmd child = true) ↔
            clear family.1 family.2 := by
    intro family
    refine forall_congr' fun isLogger => ?_
    rw [loggerPolicy, if_pos isLogger, ← Library.marked_loopMarks_iff]
    simp
  simp only [families_mergeLogger, cmd_mergeLogger, List.forall_mem_map, ofFamily,
    ← noNeighbours_isMonitored]
  exact Forest.forall_attached_congr agree [] forest

end Clear

/-- A logger and processes `cat`. -/
def loggerAndCats : State where
  objects
    | .mapped 1 => Process.new 1 loggerProc 0 0
    | _ => Process.new 2 ['c', 'a', 't'] 1 0
  merges := []

/-- A logger with two children. -/
def twoCats : Forest ProcessId :=
  .cons (.mapped 1) (.cons (.mapped 2) .nil (.cons (.mapped 3) .nil .nil)) .nil

/-- The second child stays below the logger. -/
theorem not_clear_mergeLogger :
    ¬∀ family ∈ (mergeLogger loggerProc none loggerAndCats twoCats).2.1.families,
      (mergeLogger loggerProc none loggerAndCats twoCats).1.cmd family.1 = loggerProc →
        ∀ child ∈ family.2, isMonitored none
          (mergeLogger loggerProc none loggerAndCats twoCats).1.cmd child = true := by
  decide

end ProcessTree
end Bootchart
