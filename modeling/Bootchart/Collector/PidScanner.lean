import Bootchart.Collector.Netlink

/-!
# Scanners for process tables

The sampling loop walks over the processes through a table of functions,
`struct _PidScanner`. `tasks.c` implements it over the directory `/proc`,
`tasks-netlink.c` over the table the kernel events keep up to date.
-/

namespace Bootchart
namespace Collector

/-- `struct _PidScanner`, for an implementation with the state `σ`. -/
structure PidScanner (σ : Type) where
  /-- Rewind to the first process. -/
  restart : σ → σ
  /-- Move to the next process, zero behind the last. -/
  next : σ → Pid × σ
  /-- The process moved to last. -/
  getCurPid : σ → Pid
  /-- Its parent, zero if unknown. -/
  getCurPpid : σ → Pid
  /-- Rewind to its first thread. -/
  getTasksStart : σ → σ
  /-- Move to its next thread, zero behind the last. -/
  getTasksNext : σ → Pid × σ
  /-- Stop walking over its threads. -/
  getTasksStop : σ → σ

/-- The functions `pid_scanner_new_netlink` installs. -/
def netlinkPidScanner : PidScanner NetLinkPidScanner where
  restart := netlinkPidScannerRestart
  next := netlinkPidScannerNext
  getCurPid := netlinkPidScannerGetCurPid
  getCurPpid := netlinkPidScannerGetCurPpid
  getTasksStart := netlinkPidScannerGetTasksStart
  getTasksNext := netlinkPidScannerGetTasksNext
  getTasksStop := netlinkPidScannerGetTasksStop

/-! ## The scanner over `/proc` -/

/-- An entry of `/proc` and the names in its directory `task`, if that can be
opened. -/
structure Dirent where
  /-- `d_name`. -/
  name : List Char
  /-- The entries of the directory `task` below it. -/
  task : Option (List (List Char))
  deriving DecidableEq

/-- `isdigit` of the first character of a name. -/
def startsWithDigit (name : List Char) : Bool :=
  name.head?.any Char.isDigit

/-- `atoi` of a name that starts with a digit. -/
def atoi (name : List Char) : Pid :=
  (name.takeWhile Char.isDigit).foldl
    (fun value digit => 10 * value + (digit.toNat - '0'.toNat)) 0

/-- The state of a scanner over `/proc`. -/
structure ProcPidScanner where
  /-- The entries of `/proc`. -/
  proc : List Dirent
  /-- The entries `readdir` has not returned since the directory was rewound. -/
  unread : List Dirent
  /-- The entry returned last. -/
  curEnt : Option Dirent
  /-- The process returned last. -/
  curPid : Pid
  /-- The unread names of the open directory `task`. -/
  procTask : Option (List (List Char))
  /-- The pids handed to `pid_scanner_emit_exec` so far. -/
  execs : List Pid
  deriving DecidableEq

/-- `proc_pid_scanner_restart`. -/
def procPidScannerRestart (ps : ProcPidScanner) : ProcPidScanner :=
  { ps with unread := ps.proc }

/-- The loop of `proc_pid_scanner_next` over the unread entries. -/
def procPidScannerNextFrom (ps : ProcPidScanner) :
    List Dirent → Pid × ProcPidScanner
  | [] => (0, { ps with unread := [], curEnt := none })
  | ent :: unread =>
      if startsWithDigit ent.name then
        (atoi ent.name,
          { ps with
            unread := unread
            curEnt := some ent
            curPid := atoi ent.name
            execs := ps.execs ++ [atoi ent.name] })
      else
        procPidScannerNextFrom ps unread

/-- `proc_pid_scanner_next`. -/
def procPidScannerNext (ps : ProcPidScanner) : Pid × ProcPidScanner :=
  procPidScannerNextFrom ps ps.unread

/-- `proc_pid_scanner_get_cur_pid`. -/
def procPidScannerGetCurPid (ps : ProcPidScanner) : Pid :=
  ps.curPid

/-- `proc_pid_scanner_get_cur_ppid`. -/
def procPidScannerGetCurPpid (_ : ProcPidScanner) : Pid :=
  0

/-- `proc_pid_scanner_get_tasks_start`. It must not be called before an entry
was returned. -/
def procPidScannerGetTasksStart (ps : ProcPidScanner) : ProcPidScanner :=
  { ps with procTask := ps.curEnt.bind (·.task) }

/-- The loop of `proc_pid_scanner_get_tasks_next` over the unread names: the
thread found, or zero, and the names left. -/
def tasksNextFrom (curPid : Pid) : List (List Char) → Pid × List (List Char)
  | [] => (0, [])
  | name :: unread =>
      if startsWithDigit name ∧ atoi name ≠ curPid then
        (atoi name, unread)
      else
        tasksNextFrom curPid unread

/-- `proc_pid_scanner_get_tasks_next`. -/
def procPidScannerGetTasksNext (ps : ProcPidScanner) : Pid × ProcPidScanner :=
  match ps.procTask with
  | none => (0, ps)
  | some unread =>
      let (tpid, unread) := tasksNextFrom ps.curPid unread
      (tpid, { ps with procTask := some unread })

/-- `proc_pid_scanner_get_tasks_stop`. -/
def procPidScannerGetTasksStop (ps : ProcPidScanner) : ProcPidScanner :=
  { ps with procTask := none }

/-- The functions `pid_scanner_new_proc` installs. -/
def procPidScanner : PidScanner ProcPidScanner where
  restart := procPidScannerRestart
  next := procPidScannerNext
  getCurPid := procPidScannerGetCurPid
  getCurPpid := procPidScannerGetCurPpid
  getTasksStart := procPidScannerGetTasksStart
  getTasksNext := procPidScannerGetTasksNext
  getTasksStop := procPidScannerGetTasksStop

/-! ## The process table of a directory -/

/-- The threads of a process that its directory `task` shows, without the
leader. -/
def taskPids (pid : Pid) (names : List (List Char)) : List Pid :=
  ((names.filter startsWithDigit).map atoi).filter (· ≠ pid)

/-- The row an entry of `/proc` stands for. -/
def Dirent.row (ent : Dirent) : Process where
  pid := atoi ent.name
  parent := 0
  threads := taskPids (atoi ent.name) (ent.task.getD [])

/-- The process table entries of `/proc` stand for. -/
def procTable (ents : List Dirent) : List Process :=
  (ents.filter fun ent => startsWithDigit ent.name).map Dirent.row

/-- An entry that is no process. -/
theorem procTable_cons_of_not
    {ent : Dirent}
    (noDigit : ¬startsWithDigit ent.name)
    (ents : List Dirent) :
    procTable (ent :: ents) = procTable ents := by
  simp [procTable, noDigit]

/-- An entry that is a process. -/
theorem procTable_cons
    {ent : Dirent}
    (digit : startsWithDigit ent.name)
    (ents : List Dirent) :
    procTable (ent :: ents) = ent.row :: procTable ents := by
  simp [procTable, digit]

end Collector
end Bootchart
