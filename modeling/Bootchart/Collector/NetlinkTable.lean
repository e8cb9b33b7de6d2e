import Bootchart.Collector.Netlink
import Mathlib.Data.Finset.Basic

/-!
# The netlink table and the live processes

The table is compared with the live processes one pid at a time. Each import of
an event is a change of a partial map from pids to parents; on a single pid, an
event of its leader overrides whatever was known before, and an event of one of
its threads only makes sure that the pid is known. This is why a snapshot that
overlaps the event queue does no harm.
-/

namespace Bootchart
namespace Collector

open Library.SortedTable (Sorted Splits join lookup)

/-- The table is sorted by pid, each pid at most once. -/
abbrev SortedByPid (procs : List Process) : Prop :=
  Sorted Process.pid procs

/-- What the table records of a process: its parent, if it is known at all. -/
def recordedParent (procs : List Process) (pid : Pid) : Option Pid :=
  (lookup Process.pid procs pid).map (·.parent)

/-! ## The table operations -/

/-- In a sorted table the shortcut of the search makes no difference. -/
theorem scanIndex_eq
    {procs : List Process}
    (sorted : SortedByPid procs)
    (pid : Pid) :
    scanIndex procs pid = Library.SortedTable.position Process.pid procs pid := by
  unfold scanIndex
  split
  · rename_i greater
    obtain ⟨last, isLast, lastLess⟩ :
        ∃ last, procs.getLast? = some last ∧ last.pid < pid := by
      simpa [Option.any_eq_true] using greater
    obtain ⟨rows, rfl⟩ := List.getLast?_eq_some_iff.mp isLast
    rw [SortedByPid, Sorted, List.pairwise_append] at sorted
    refine (List.findIdx_eq_length_of_false ?_).symm
    intro row member
    rw [decide_eq_false_iff_not, not_lt]
    rcases List.mem_append.mp member with inRows | isEnd
    · exact (lt_trans (sorted.2.2 row inRows last (by simp)) lastLess).le
    · rw [List.mem_singleton.mp isEnd]
      exact lastLess.le
  · rfl

/-- Inserting at the seam of two lists. -/
private theorem insertIdx_length_append
    (before behind : List Process)
    (row : Process) :
    (before ++ behind).insertIdx before.length row =
      before ++ row :: behind := by
  induction before with
  | nil => rfl
  | cons first before inductionHypothesis =>
      simp [List.insertIdx_succ_cons, inductionHypothesis]

section TableOperations

variable {before : List Process} {middle : Option Process}
  {behind : List Process} {pid : Pid}

/-- `find_pid_an_idx` finds the row with the pid. -/
theorem findPidAnIdx_found
    {row : Process}
    (sorted : SortedByPid (join before (some row) behind))
    (splits : Splits Process.pid pid before (some row) behind)
    (create : Bool) :
    findPidAnIdx (join before (some row) behind) pid create =
      (join before (some row) behind, some before.length) := by
  have index : scanIndex (join before (some row) behind) pid =
      before.length + 1 := (scanIndex_eq sorted pid).trans splits.position_eq
  rw [findPidAnIdx, index]
  simp [join, splits.middle_eq row rfl]

/-- `find_pid_an_idx` creates a missing row in its place, if asked to. -/
theorem findPidAnIdx_missing
    (sorted : SortedByPid (join before none behind))
    (splits : Splits Process.pid pid before none behind)
    (create : Bool) :
    findPidAnIdx (join before none behind) pid create =
      if create then
        (join before (some (Process.fresh pid)) behind, some before.length)
      else
        (join before none behind, none) := by
  have index : scanIndex (join before none behind) pid = before.length :=
    (scanIndex_eq sorted pid).trans splits.position_eq
  have missing : ¬(0 < before.length ∧
      (join before none behind)[before.length - 1]?.map (·.pid) =
        some pid) := by
    rintro ⟨positive, same⟩
    obtain ⟨row, here, keyed⟩ := Option.map_eq_some_iff.mp same
    rw [join, List.append_assoc, List.getElem?_append_left (by omega)] at here
    exact (splits.before_lt row (List.mem_of_getElem? here)).ne keyed
  rw [findPidAnIdx, index, if_neg missing]
  cases create <;> simp [join, insertIdx_length_append]

/-- Changing the middle row of a split. -/
theorem modify_join (row : Process) (change : Process → Process) :
    (join before (some row) behind).modify before.length change =
      join before (some (change row)) behind := by
  rw [List.modify_eq_take_cons_drop (by simp [join])]
  simp [join]

/-- Changing a row that is created when missing. -/
theorem changeRow_create
    (sorted : SortedByPid (join before middle behind))
    (splits : Splits Process.pid pid before middle behind)
    (change : Process → Process) :
    changeRow (join before middle behind) pid true change =
      join before (some (change (middle.getD (Process.fresh pid)))) behind := by
  cases middle with
  | some row =>
      rw [changeRow, findPidAnIdx_found sorted splits]
      exact modify_join row change
  | none =>
      rw [changeRow, findPidAnIdx_missing sorted splits]
      exact modify_join (Process.fresh pid) change

/-- Changing a row only if it is there. -/
theorem changeRow_keep
    (sorted : SortedByPid (join before middle behind))
    (splits : Splits Process.pid pid before middle behind)
    (change : Process → Process) :
    changeRow (join before middle behind) pid false change =
      join before (middle.map change) behind := by
  cases middle with
  | some row =>
      rw [changeRow, findPidAnIdx_found sorted splits]
      exact modify_join row change
  | none =>
      rw [changeRow, findPidAnIdx_missing sorted splits]
      rfl

/-- Removing a row drops the middle of the split. -/
theorem removePid_join
    (sorted : SortedByPid (join before middle behind))
    (splits : Splits Process.pid pid before middle behind) :
    removePid (join before middle behind) pid = join before none behind := by
  cases middle with
  | some row =>
      rw [removePid, findPidAnIdx_found sorted splits]
      simp [join, List.eraseIdx_append_of_length_le]
  | none =>
      rw [removePid, findPidAnIdx_missing sorted splits]
      rfl

/-- A row that was changed or created has its pid. -/
theorem keyed_created
    (splits : Splits Process.pid pid before middle behind)
    {change : Process → Process}
    (keyed : ∀ row, (change row).pid = row.pid) :
    ∀ row ∈ some (change (middle.getD (Process.fresh pid))), row.pid = pid := by
  rintro row ⟨⟩
  rw [keyed]
  cases middle with
  | none => rfl
  | some row => exact splits.middle_eq row rfl

/-- A row that was changed has its pid. -/
theorem keyed_changed
    (splits : Splits Process.pid pid before middle behind)
    {change : Process → Process}
    (keyed : ∀ row, (change row).pid = row.pid) :
    ∀ row ∈ middle.map change, row.pid = pid := by
  intro row isChanged
  obtain ⟨original, isMiddle, rfl⟩ := Option.map_eq_some_iff.mp isChanged
  rw [keyed, splits.middle_eq original isMiddle]

end TableOperations

/-! ## The rows behind an operation -/

section Rows

variable {procs : List Process} {pid target : Pid}

/-- The rows behind a change of a row that is created when missing. -/
theorem lookup_changeRow_create
    (sorted : SortedByPid procs)
    {change : Process → Process}
    (keyed : ∀ row, (change row).pid = row.pid) :
    lookup Process.pid (changeRow procs target true change) pid =
      if pid = target then
        some (change ((lookup Process.pid procs target).getD (Process.fresh target)))
      else lookup Process.pid procs pid := by
  obtain ⟨before, middle, behind, rfl, splits⟩ := sorted.exists_splits target
  rw [changeRow_create sorted splits, splits.lookup_eq]
  exact splits.lookup_replace (keyed_created splits keyed) pid

/-- The rows behind a change of a row that is not created. -/
theorem lookup_changeRow_keep
    (sorted : SortedByPid procs)
    {change : Process → Process}
    (keyed : ∀ row, (change row).pid = row.pid) :
    lookup Process.pid (changeRow procs target false change) pid =
      if pid = target then (lookup Process.pid procs target).map change
      else lookup Process.pid procs pid := by
  obtain ⟨before, middle, behind, rfl, splits⟩ := sorted.exists_splits target
  rw [changeRow_keep sorted splits, splits.lookup_eq]
  exact splits.lookup_replace (keyed_changed splits keyed) pid

/-- The rows behind `remove_pid`. -/
theorem lookup_removePid (sorted : SortedByPid procs) :
    lookup Process.pid (removePid procs target) pid =
      if pid = target then none else lookup Process.pid procs pid := by
  obtain ⟨before, middle, behind, rfl, splits⟩ := sorted.exists_splits target
  rw [removePid_join sorted splits]
  exact splits.lookup_replace (by simp) pid

/-- Changes of a row keep the table sorted. -/
theorem sorted_changeRow
    (sorted : SortedByPid procs)
    {change : Process → Process}
    (keyed : ∀ row, (change row).pid = row.pid)
    (create : Bool) : SortedByPid (changeRow procs target create change) := by
  obtain ⟨before, middle, behind, rfl, splits⟩ := sorted.exists_splits target
  cases create with
  | true =>
      rw [changeRow_create sorted splits]
      exact splits.sorted_replace sorted (keyed_created splits keyed)
  | false =>
      rw [changeRow_keep sorted splits]
      exact splits.sorted_replace sorted (keyed_changed splits keyed)

/-- `remove_pid` keeps the table sorted. -/
theorem sorted_removePid (sorted : SortedByPid procs) (target : Pid) :
    SortedByPid (removePid procs target) := by
  obtain ⟨before, middle, behind, rfl, splits⟩ := sorted.exists_splits target
  rw [removePid_join sorted splits]
  exact splits.sorted_replace sorted (by simp)

/-- The rows behind `insert_pid`. -/
theorem lookup_insertPid (sorted : SortedByPid procs) (parent : Pid) :
    lookup Process.pid (insertPid procs target parent) pid =
      if pid = target then
        some { (lookup Process.pid procs target).getD (Process.fresh target) with
          parent := parent }
      else lookup Process.pid procs pid := by
  apply lookup_changeRow_create sorted
  exact fun _ => rfl

/-- The rows behind `insert_pid_thread`. -/
theorem lookup_insertPidThread (sorted : SortedByPid procs) (thread : Pid) :
    lookup Process.pid (insertPidThread procs target thread) pid =
      if pid = target then
        some { (lookup Process.pid procs target).getD (Process.fresh target) with
          threads := addThread
            ((lookup Process.pid procs target).getD (Process.fresh target)).threads thread }
      else lookup Process.pid procs pid := by
  apply lookup_changeRow_create sorted
  exact fun _ => rfl

/-- The rows behind `remove_pid_thread`. -/
theorem lookup_removePidThread (sorted : SortedByPid procs) (thread : Pid) :
    lookup Process.pid (removePidThread procs target thread) pid =
      if pid = target then
        (lookup Process.pid procs target).map fun row => { row with
          threads := (removeThreadFrom row.threads thread 0 0).takeWhile (· ≠ 0) }
      else lookup Process.pid procs pid := by
  apply lookup_changeRow_keep sorted
  exact fun _ => rfl

end Rows

/-! ## The record of a single process -/

/-- What an event does to the record of a single process. -/
def recordEvent (pid : Pid) (record : Option Pid) : ProcEvent → Option Pid
  | .fork _ parentTgid childPid childTgid =>
      if pid = childTgid then
        some (if childPid = childTgid then parentTgid else record.getD 0)
      else
        record
  | .exit processPid processTgid =>
      if processPid = processTgid ∧ pid = processPid then none else record
  | .exec _ => record
  | .other _ => record

/-- A table operation keeps the table sorted and has a given effect on the
record of each process. -/
structure ActsOnRecords
    (procs next : List Process)
    (effect : Pid → Option Pid → Option Pid) : Prop where
  /-- The table stays sorted. -/
  sorted : SortedByPid next
  /-- Each record changes as stated. -/
  recordedParent_eq : ∀ pid,
    recordedParent next pid = effect pid (recordedParent procs pid)

/-- `insert_pid` records the parent. -/
theorem actsOnRecords_insertPid
    {procs : List Process}
    (sorted : SortedByPid procs)
    (pid parent : Pid) :
    ActsOnRecords procs (insertPid procs pid parent)
      (fun other record => if other = pid then some parent else record) where
  sorted := by
    apply sorted_changeRow sorted
    exact fun _ => rfl
  recordedParent_eq := by
    intro other
    rw [recordedParent, lookup_insertPid sorted]
    split <;> rfl

/-- `insert_pid_thread` makes sure that the process is recorded. -/
theorem actsOnRecords_insertPidThread
    {procs : List Process}
    (sorted : SortedByPid procs)
    (pid thread : Pid) :
    ActsOnRecords procs (insertPidThread procs pid thread)
      (fun other record =>
        if other = pid then some (record.getD 0) else record) where
  sorted := by
    apply sorted_changeRow sorted
    exact fun _ => rfl
  recordedParent_eq := by
    intro other
    rw [recordedParent, lookup_insertPidThread sorted]
    split
    next same =>
      rw [recordedParent, same]
      cases lookup Process.pid procs pid <;> rfl
    next => rfl

/-- `remove_pid` forgets the process. -/
theorem actsOnRecords_removePid
    {procs : List Process}
    (sorted : SortedByPid procs)
    (pid : Pid) :
    ActsOnRecords procs (removePid procs pid)
      (fun other record => if other = pid then none else record) where
  sorted := sorted_removePid sorted pid
  recordedParent_eq := by
    intro other
    rw [recordedParent, lookup_removePid sorted]
    split <;> rfl

/-- `remove_pid_thread` does not touch the records. -/
theorem actsOnRecords_removePidThread
    {procs : List Process}
    (sorted : SortedByPid procs)
    (pid thread : Pid) :
    ActsOnRecords procs (removePidThread procs pid thread)
      (fun _ record => record) where
  sorted := by
    apply sorted_changeRow sorted
    exact fun _ => rfl
  recordedParent_eq := by
    intro other
    rw [recordedParent, lookup_removePidThread sorted]
    split
    next same =>
      rw [recordedParent, same]
      cases lookup Process.pid procs pid <;> rfl
    next => rfl

/-- The import of an event acts on the records as the event does. -/
theorem actsOnRecords_importEvent
    {procs : List Process}
    (sorted : SortedByPid procs)
    (ev : ProcEvent) :
    ActsOnRecords procs (importEvent procs ev)
      (fun pid record => recordEvent pid record ev) := by
  cases ev with
  | fork parentPid parentTgid childPid childTgid =>
      by_cases leader : childPid = childTgid
      · simpa [importEvent, recordEvent, leader] using
          actsOnRecords_insertPid sorted childTgid parentTgid
      · simpa [importEvent, recordEvent, leader] using
          actsOnRecords_insertPidThread sorted childTgid childPid
  | exit processPid processTgid =>
      by_cases leader : processPid = processTgid
      · simpa [importEvent, recordEvent, leader] using
          actsOnRecords_removePid sorted processPid
      · simpa [importEvent, recordEvent, leader] using
          actsOnRecords_removePidThread sorted processTgid processPid
  | exec processPid => exact ⟨sorted, fun _ => rfl⟩
  | other what => exact ⟨sorted, fun _ => rfl⟩

/-- The import of a queue acts on the records as its events do, in order. -/
theorem actsOnRecords_import
    {procs : List Process}
    (sorted : SortedByPid procs)
    (evs : List ProcEvent) :
    ActsOnRecords procs (evs.foldl importEvent procs)
      (fun pid record => evs.foldl (recordEvent pid) record) := by
  induction evs generalizing procs with
  | nil => exact ⟨sorted, fun _ => rfl⟩
  | cons ev evs inductionHypothesis =>
      obtain ⟨sortedNext, effect⟩ := actsOnRecords_importEvent sorted ev
      obtain ⟨sortedLast, effects⟩ := inductionHypothesis sortedNext
      refine ⟨sortedLast, fun pid => ?_⟩
      rw [List.foldl_cons, List.foldl_cons, effects, effect]

end Collector
end Bootchart
