import Bootchart.Library.SortedTable
import Mathlib.Data.List.GetD
import Mathlib.Tactic.ByContra

/-!
# The netlink process table

`tasks-netlink.c` keeps a table of the live processes, sorted by pid. A listener
thread queues the fork and exit events of the kernel; the sampling thread imports
the queue at the start of every sweep. Before the first sweep the table is
filled from `/proc`, while events are already being queued.
-/

namespace Bootchart
namespace Collector

/-- `pid_t`. -/
abbrev Pid := Int

/-- A row of the process table. The array `threads` is terminated by a zero; the
list holds the entries before it. -/
structure Process where
  /-- The process. -/
  pid : Pid
  /-- Its parent, or zero when no fork event was seen. -/
  parent : Pid
  /-- Its threads other than the leader. -/
  threads : List Pid
  deriving DecidableEq

/-- A row fresh from `calloc`. -/
def Process.fresh (pid : Pid) : Process where
  pid := pid
  parent := 0
  threads := []

/-- `struct proc_event`, as far as it is looked at. -/
inductive ProcEvent
  /-- `PROC_EVENT_FORK`. -/
  | fork (parentPid parentTgid childPid childTgid : Pid)
  /-- `PROC_EVENT_EXIT`. -/
  | exit (processPid processTgid : Pid)
  /-- `PROC_EVENT_EXEC`. -/
  | exec (processPid : Pid)
  /-- Any other value of `what`. -/
  | other (what : Nat)
  deriving DecidableEq

/-- The index at which `find_pid_an_idx` ends its search: behind the last row
when the pid is greater than all, else the first row with a greater pid. -/
def scanIndex (procs : List Process) (pid : Pid) : Nat :=
  if procs.getLast?.any (·.pid < pid) then
    procs.length
  else
    procs.findIdx (pid < ·.pid)

/-- `find_pid_an_idx`: the table, with a fresh row if one was asked for and
missing, and the index of the row. -/
def findPidAnIdx (procs : List Process) (pid : Pid) (create : Bool) :
    List Process × Option Nat :=
  let i := scanIndex procs pid
  if 0 < i ∧ procs[i - 1]?.map (·.pid) = some pid then
    (procs, some (i - 1))
  else if !create then
    (procs, none)
  else
    (procs.insertIdx i (Process.fresh pid), some i)

/-- Change the row `find_pid_an_idx` returns, if it returns one. -/
def changeRow
    (procs : List Process)
    (pid : Pid)
    (create : Bool)
    (change : Process → Process) : List Process :=
  match findPidAnIdx procs pid create with
  | (procs, some idx) => procs.modify idx change
  | (procs, none) => procs

/-- `insert_pid`. -/
def insertPid (procs : List Process) (pid parent : Pid) : List Process :=
  changeRow procs pid true fun p => { p with parent := parent }

/-- Append to a zero-terminated array, unless the entry is there. -/
def addThread (threads : List Pid) (thread : Pid) : List Pid :=
  if thread ∈ threads then threads else (threads ++ [thread]).takeWhile (· ≠ 0)

/-- `insert_pid_thread`. -/
def insertPidThread (procs : List Process) (pid thread : Pid) : List Process :=
  changeRow procs pid true fun p =>
    { p with threads := addThread p.threads thread }

/-- `remove_pid`. -/
def removePid (procs : List Process) (pid : Pid) : List Process :=
  match findPidAnIdx procs pid false with
  | (procs, some idx) => procs.eraseIdx idx
  | (procs, none) => procs

/-- The loop of `remove_pid_thread` from indices `i` and `j` on. Reading behind
the entries yields the terminator. -/
def removeThreadFrom (threads : List Pid) (thread : Pid) (i j : Nat) : List Pid :=
  if loop : threads.getD i 0 ≠ 0 ∧ threads.getD j 0 ≠ 0 then
    let j := if threads.getD i 0 = thread then j + 1 else j
    removeThreadFrom (threads.set i (threads.getD j 0)) thread (i + 1) j
  else
    threads.take i
termination_by threads.length - i
decreasing_by
  have inside : i < threads.length := by
    by_contra outside
    exact loop.1 (List.getD_eq_default _ _ (by omega))
  simp only [List.length_set]
  omega

/-- `remove_pid_thread`. -/
def removePidThread (procs : List Process) (pid thread : Pid) : List Process :=
  changeRow procs pid false fun p =>
    { p with
      threads := (removeThreadFrom p.threads thread 0 0).takeWhile (· ≠ 0) }

/-- The state of a netlink scanner. -/
structure NetLinkPidScanner where
  /-- The table; `n_procs` is its length. -/
  procs : List Process
  /-- The cursor of a sweep. -/
  curProc : Nat
  /-- The cursor among the threads of a row. -/
  curThread : Nat
  /-- The queue of events; `buffer_size` is its length. -/
  buffer : List ProcEvent
  /-- The pids handed to `pid_scanner_emit_exec` so far. -/
  execs : List Pid
  /-- The pairs handed to `pid_scanner_emit_paternity` so far. -/
  paternity : List (Pid × Pid)
  deriving DecidableEq

/-- A scanner fresh from `pid_scanner_alloc`. -/
def NetLinkPidScanner.fresh : NetLinkPidScanner where
  procs := []
  curProc := 0
  curThread := 0
  buffer := []
  execs := []
  paternity := []

/-- The import of one queued event. -/
def importEvent (procs : List Process) : ProcEvent → List Process
  | .fork _ parentTgid childPid childTgid =>
      if childPid = childTgid then
        insertPid procs childTgid parentTgid
      else
        insertPidThread procs childTgid childPid
  | .exit processPid processTgid =>
      if processPid = processTgid then
        removePid procs processPid
      else
        removePidThread procs processTgid processPid
  | .exec _ => procs
  | .other _ => procs

/-- The table once the queue has been imported. -/
def NetLinkPidScanner.imported (nls : NetLinkPidScanner) : List Process :=
  nls.buffer.foldl importEvent nls.procs

/-- `netlink_pid_scanner_restart`: rewind the cursor and import the queue. -/
def netlinkPidScannerRestart (nls : NetLinkPidScanner) : NetLinkPidScanner :=
  { nls with
    curProc := 0
    procs := nls.imported
    buffer := [] }

/-- `handle_news`: report forks of processes and execs, queue forks and exits. -/
def handleNews (nls : NetLinkPidScanner) (ev : ProcEvent) : NetLinkPidScanner :=
  match ev with
  | .fork _ parentTgid childPid childTgid =>
      { nls with
        paternity :=
          if childPid = childTgid then nls.paternity ++ [(childTgid, parentTgid)]
          else nls.paternity
        buffer := nls.buffer ++ [ev] }
  | .exit _ _ => { nls with buffer := nls.buffer ++ [ev] }
  | .exec processPid => { nls with execs := nls.execs ++ [processPid] }
  | .other _ => nls

/-- One round of the loop of `netlink_pid_scanner_bootstrap`: a process and its
threads as `/proc` shows them. -/
def bootstrapProcess (nls : NetLinkPidScanner) (pid : Pid) (tpids : List Pid) :
    NetLinkPidScanner :=
  { nls with
    procs := tpids.foldl (fun procs tpid => insertPidThread procs pid tpid)
      (insertPid nls.procs pid 0) }

/-- `netlink_pid_scanner_next`. -/
def netlinkPidScannerNext (nls : NetLinkPidScanner) : Pid × NetLinkPidScanner :=
  match nls.procs[nls.curProc]? with
  | none => (0, nls)
  | some p => (p.pid, { nls with curProc := nls.curProc + 1 })

/-- `netlink_pid_scanner_get_cur_pid`. -/
def netlinkPidScannerGetCurPid (nls : NetLinkPidScanner) : Pid :=
  match nls.procs[nls.curProc]? with
  | none => 0
  | some p => p.pid

/-- `netlink_pid_scanner_get_cur_ppid`. -/
def netlinkPidScannerGetCurPpid (nls : NetLinkPidScanner) : Pid :=
  match nls.procs[nls.curProc]? with
  | none => 0
  | some p => p.parent

/-- `netlink_pid_scanner_get_tasks_start`. -/
def netlinkPidScannerGetTasksStart (nls : NetLinkPidScanner) :
    NetLinkPidScanner :=
  { nls with curThread := 0 }

/-- `netlink_pid_scanner_get_tasks_next`. -/
def netlinkPidScannerGetTasksNext (nls : NetLinkPidScanner) :
    Pid × NetLinkPidScanner :=
  match nls.procs[nls.curProc]? with
  | none => (0, nls)
  | some p =>
      match p.threads[nls.curThread]? with
      | none => (0, nls)
      | some thread => (thread, { nls with curThread := nls.curThread + 1 })

/-- `netlink_pid_scanner_get_tasks_stop`. -/
def netlinkPidScannerGetTasksStop (nls : NetLinkPidScanner) :
    NetLinkPidScanner :=
  { nls with curThread := 0 }

end Collector
end Bootchart
