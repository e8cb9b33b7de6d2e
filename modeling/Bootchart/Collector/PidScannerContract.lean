import Bootchart.Collector.Taskstat

/-!
# The cursor contract of the process scanners

Between two calls of `next` the sampling loop asks a scanner for the current
process, its parent and its threads, and expects answers about the process that
`next` returned. A scanner that follows the rows of its table keeps this
contract. The one over `/proc` does; the one over the netlink table answers
about the row behind the current one.
-/

namespace Bootchart
namespace Collector

/-- What may be called between two calls of `next`. -/
inductive CursorCall
  /-- `get_cur_pid` or `get_cur_ppid`. -/
  | getCur
  /-- `get_tasks_start`. -/
  | tasksStart
  /-- `get_tasks_next`. -/
  | tasksNext
  /-- `get_tasks_stop`. -/
  | tasksStop

namespace PidScanner

variable {σ : Type} (scanner : PidScanner σ)

/-- The scanner a call leaves behind. -/
def perform : CursorCall → σ → σ
  | .getCur, state => state
  | .tasksStart, state => scanner.getTasksStart state
  | .tasksNext, state => (scanner.getTasksNext state).2
  | .tasksStop, state => scanner.getTasksStop state

/-- Calling `get_tasks_next` until it returns zero yields these threads. -/
inductive Enumerates : σ → List Pid → Prop
  /-- No thread is left. -/
  | stop {state : σ}
      (last : (scanner.getTasksNext state).1 = 0) : Enumerates state []
  /-- A thread is returned. -/
  | task {state : σ} {tpid : Pid} {tasks : List Pid}
      (returned : (scanner.getTasksNext state).1 = tpid)
      (nonzero : tpid ≠ 0)
      (rest : Enumerates (scanner.getTasksNext state).2 tasks) :
      Enumerates state (tpid :: tasks)

/-- The states of a sweep that begins by restarting a scanner, with the process
that `next` returned last. -/
inductive InSweep (start : σ) : Option Pid → σ → Prop
  /-- The sweep begins. -/
  | restart : InSweep start none (scanner.restart start)
  /-- `next` is called. -/
  | next {last : Option Pid} {state : σ}
      (before : InSweep start last state) :
      InSweep start (some (scanner.next state).1) (scanner.next state).2
  /-- Anything else is called while there is a current process. -/
  | call {pid : Pid} {state : σ}
      (before : InSweep start (some pid) state)
      (nonzero : pid ≠ 0)
      (call : CursorCall) :
      InSweep start (some pid) (scanner.perform call state)

/-- The contract `main` relies on, for a scanner that holds the given table when
it has been restarted. -/
structure CursorContract (start : σ) (table : List Process) : Prop where
  /-- At every position, all answers are about the process returned last. -/
  cursor : ∀ pid state, scanner.InSweep start (some pid) state → pid ≠ 0 →
    ∃ row ∈ table, row.pid = pid ∧
      scanner.getCurPid state = pid ∧
      scanner.getCurPpid state = row.parent ∧
      scanner.Enumerates (scanner.getTasksStart state) row.threads
  /-- Every sweep ends and requests each process exactly once. -/
  sampled : ∀ kernel entries, ∃ enough sampled, ∀ fuel ≥ enough,
    sweep scanner kernel fuel start entries = some sampled ∧
      (sampled.requests.map (·.leader)).Perm (table.map (·.pid))

/-! ## Scanners that follow a table -/

/-- A scanner follows the rows of a table: at every position of a sweep it
stands for the rows still to come and the current one. -/
structure Follows
    (start : σ)
    (table : List Process)
    (standsFor : List Process → Option Process → σ → Prop) : Prop where
  /-- A sweep begins in front of the table. -/
  restart : standsFor table none (scanner.restart start)
  /-- Behind the last row `next` returns zero. -/
  next_nil : ∀ {current state}, standsFor [] current state →
    (scanner.next state).1 = 0 ∧
      standsFor [] none (scanner.next state).2
  /-- In front of a row `next` returns its process. -/
  next_cons : ∀ {row rest current state},
    standsFor (row :: rest) current state →
    (scanner.next state).1 = row.pid ∧
      standsFor rest (some row) (scanner.next state).2
  /-- The other calls do not move it. -/
  perform : ∀ {rest row state}, standsFor rest (some row) state →
    ∀ call, standsFor rest (some row) (scanner.perform call state)
  /-- `get_cur_pid` answers about the current row. -/
  getCurPid : ∀ {rest row state}, standsFor rest (some row) state →
    scanner.getCurPid state = row.pid
  /-- `get_cur_ppid` answers about the current row. -/
  getCurPpid : ∀ {rest row state}, standsFor rest (some row) state →
    scanner.getCurPpid state = row.parent
  /-- The threads of the current row are enumerated. -/
  enumerates : ∀ {rest row state}, standsFor rest (some row) state →
    scanner.Enumerates (scanner.getTasksStart state) row.threads

variable {scanner} {start : σ} {table : List Process}
  {standsFor : List Process → Option Process → σ → Prop}

namespace Follows

/-- Every position of a sweep stands for a split of the table, the current row
being the last one in front. -/
theorem inSweep
    (follows : scanner.Follows start table standsFor)
    {last : Option Pid}
    {state : σ}
    (reached : scanner.InSweep start last state) :
    ∃ done rest current, done ++ rest = table ∧ standsFor rest current state ∧
      (∀ row ∈ current, row ∈ done ∧ last = some row.pid) ∧
      ∀ pid ≠ 0, last = some pid → current.isSome := by
  induction reached with
  | restart =>
      exact ⟨[], table, none, rfl, follows.restart, by simp, by simp⟩
  | @next last state _ inductionHypothesis =>
      obtain ⟨done, rest, current, rfl, stands, -, -⟩ := inductionHypothesis
      cases rest with
      | nil =>
          obtain ⟨zero, stands⟩ := follows.next_nil stands
          refine ⟨done, [], none, rfl, stands, by simp, ?_⟩
          intro pid nonzero isLast
          exact absurd (Option.some.inj isLast ▸ zero) nonzero
      | cons row rest =>
          obtain ⟨returned, stands⟩ := follows.next_cons stands
          refine ⟨done ++ [row], rest, some row, by simp, stands, ?_, by simp⟩
          rintro row ⟨⟩
          exact ⟨by simp, congrArg some returned⟩
  | @call pid state _ nonzero call inductionHypothesis =>
      obtain ⟨done, rest, current, split, stands, isCurrent, present⟩ :=
        inductionHypothesis
      obtain ⟨row, rfl⟩ := Option.isSome_iff_exists.mp (present pid nonzero rfl)
      exact ⟨done, rest, some row, split, follows.perform stands call, isCurrent,
        present⟩

/-- The loop over the threads requests those of the current row. -/
theorem tasksLoop
    (follows : scanner.Follows start table standsFor)
    (kernel : Kernel)
    {rest : List Process}
    {row : Process}
    {state : σ}
    (stands : standsFor rest (some row) state)
    {tasks : List Pid}
    (enumerates : scanner.Enumerates state tasks)
    (tgits : Taskstats) :
    ∃ final, standsFor rest (some row) final ∧ ∀ fuel > tasks.length,
      Collector.tasksLoop scanner kernel fuel state tgits =
        some (tasks.foldl (addTask kernel) tgits, tasks, final) := by
  induction enumerates generalizing tgits with
  | @stop state last =>
      refine ⟨_, follows.perform stands .tasksNext, fun fuel more => ?_⟩
      obtain ⟨fuel, rfl⟩ := Nat.exists_eq_succ_of_ne_zero (Nat.ne_zero_of_lt more)
      simp [Collector.tasksLoop, last, PidScanner.perform]
  | @task state tpid tasks returned nonzero _ inductionHypothesis =>
      obtain ⟨final, standsFinal, loop⟩ := inductionHypothesis
        (follows.perform stands .tasksNext) (addTask kernel tgits tpid)
      refine ⟨final, standsFinal, fun fuel more => ?_⟩
      obtain ⟨fuel, rfl⟩ := Nat.exists_eq_succ_of_ne_zero (Nat.ne_zero_of_lt more)
      have rounds := loop fuel (by simpa using more)
      simp [Collector.tasksLoop, returned, nonzero, rounds]

/-- `dump_taskstat` requests the current row as a leader. -/
theorem dumpTaskstat
    (follows : scanner.Follows start table standsFor)
    (kernel : Kernel)
    {rest : List Process}
    {row : Process}
    (before : Sampled σ)
    (stands : standsFor rest (some row) before.state) :
    ∃ after : Sampled σ, standsFor rest (some row) after.state ∧
      after.requests.map (·.leader) =
        before.requests.map (·.leader) ++ [row.pid] ∧
      ∀ fuel > row.threads.length,
        Collector.dumpTaskstat scanner kernel fuel before = some after := by
  have leader := follows.getCurPid stands
  cases answer : getTaskstats kernel row.pid with
  | none =>
      refine ⟨writeTaskstat scanner
        { before with
          requests := before.requests ++ [{ leader := row.pid, tasks := [] }] } none,
        stands, by simp, fun fuel _ => ?_⟩
      simp only [Collector.dumpTaskstat, getTgidTaskstats, leader, answer,
        Option.map_some]
  | some tgits =>
      obtain ⟨final, standsFinal, loop⟩ := follows.tasksLoop kernel
        (follows.perform stands .tasksStart) (follows.enumerates stands) tgits
      refine ⟨writeTaskstat scanner
        { before with
          state := scanner.getTasksStop final
          requests := before.requests ++
            [{ leader := row.pid, tasks := row.threads }] }
        (some (row.threads.foldl (addTask kernel) tgits)), ?_, by simp, ?_⟩
      · rw [state_writeTaskstat]
        exact follows.perform standsFinal .tasksStop
      · intro fuel more
        have rounds := loop fuel more
        simp only [PidScanner.perform] at rounds
        simp only [Collector.dumpTaskstat, getTgidTaskstats, leader, answer,
          rounds, Option.map_some]

/-- The loop over the processes requests the rows to come, each once. -/
theorem sampleLoop
    (follows : scanner.Follows start table standsFor)
    (kernel : Kernel)
    {rest : List Process}
    (nonzero : ∀ row ∈ rest, row.pid ≠ 0)
    {current : Option Process}
    (before : Sampled σ)
    (stands : standsFor rest current before.state) :
    ∃ enough after, ∀ fuel ≥ enough,
      Collector.sampleLoop scanner kernel fuel before = some after ∧
        after.requests.map (·.leader) =
          before.requests.map (·.leader) ++ rest.map (·.pid) := by
  induction rest generalizing current before with
  | nil =>
      obtain ⟨zero, _⟩ := follows.next_nil stands
      refine ⟨1, { before with state := (scanner.next before.state).2 },
        fun fuel more => ?_⟩
      obtain ⟨fuel, rfl⟩ := Nat.exists_eq_succ_of_ne_zero (Nat.ne_zero_of_lt more)
      constructor
      · simp only [Collector.sampleLoop, zero, if_true]
      · simp
  | cons row rest inductionHypothesis =>
      obtain ⟨returned, standsRow⟩ := follows.next_cons stands
      obtain ⟨middle, standsMiddle, requestedRow, dumped⟩ :=
        follows.dumpTaskstat kernel
          { before with state := (scanner.next before.state).2 } standsRow
      obtain ⟨enough, after, loop⟩ := inductionHypothesis
        (fun row member => nonzero row (List.mem_cons_of_mem _ member))
        middle standsMiddle
      refine ⟨max enough (row.threads.length + 1) + 1, after, fun fuel more => ?_⟩
      obtain ⟨fuel, rfl⟩ := Nat.exists_eq_succ_of_ne_zero (Nat.ne_zero_of_lt more)
      obtain ⟨finished, requested⟩ := loop fuel (by omega)
      constructor
      · simp only [Collector.sampleLoop, returned, nonzero row (by simp), if_false,
          dumped fuel (by omega), Option.bind_some, finished]
      · rw [requested, requestedRow]
        simp

end Follows

/-- A scanner that follows the rows of its table keeps the contract. -/
theorem Follows.cursorContract
    (follows : scanner.Follows start table standsFor)
    (nonzero : ∀ row ∈ table, row.pid ≠ 0) :
    scanner.CursorContract start table where
  cursor := by
    intro pid state reached pidNonzero
    obtain ⟨done, rest, current, rfl, stands, isCurrent, present⟩ :=
      follows.inSweep reached
    obtain ⟨row, rfl⟩ :=
      Option.isSome_iff_exists.mp (present pid pidNonzero rfl)
    obtain ⟨inDone, same⟩ := isCurrent row rfl
    obtain rfl : pid = row.pid := Option.some.inj same
    exact ⟨row, List.mem_append_left rest inDone, rfl, follows.getCurPid stands,
      follows.getCurPpid stands, follows.enumerates stands⟩
  sampled := by
    intro kernel entries
    obtain ⟨enough, after, loop⟩ := follows.sampleLoop kernel nonzero
      ⟨_, entries, [], []⟩ follows.restart
    refine ⟨enough, after, fun fuel more => ?_⟩
    obtain ⟨finished, requested⟩ := loop fuel more
    exact ⟨finished, by rw [requested]; rfl⟩

end PidScanner

/-! ## The scanner over `/proc` -/

namespace ProcPidScanner

/-- A scanner over `/proc` stands for the processes among the unread entries and
for the entry returned last. -/
def StandsFor
    (rest : List Process)
    (current : Option Process)
    (ps : ProcPidScanner) : Prop :=
  procTable ps.unread = rest ∧
    (∀ row ∈ rest ++ current.toList, 0 ∉ row.threads) ∧
    ∀ row ∈ current, ps.curPid = row.pid ∧
      ∃ ent, ps.curEnt = some ent ∧ ent.row = row

/-- Without a process among the unread entries `next` returns zero. -/
theorem next_nil (ps : ProcPidScanner) {ents : List Dirent}
    (noProcess : procTable ents = []) :
    procPidScannerNextFrom ps ents =
      (0, { ps with unread := [], curEnt := none }) := by
  induction ents with
  | nil => rfl
  | cons ent ents inductionHypothesis =>
      by_cases digit : startsWithDigit ent.name
      · simp [procTable_cons digit] at noProcess
      · rw [procTable_cons_of_not digit] at noProcess
        rw [procPidScannerNextFrom, if_neg digit]
        exact inductionHypothesis noProcess

/-- Otherwise `next` returns the first one. -/
theorem next_cons (ps : ProcPidScanner) {ents : List Dirent}
    {row : Process} {rest : List Process}
    (split : procTable ents = row :: rest) :
    ∃ ent unread execs, ent.row = row ∧ procTable unread = rest ∧
      procPidScannerNextFrom ps ents =
        (row.pid,
          { ps with
            unread := unread
            curEnt := some ent
            curPid := row.pid
            execs := execs }) := by
  induction ents with
  | nil => exact absurd split (by simp [procTable])
  | cons ent ents inductionHypothesis =>
      by_cases digit : startsWithDigit ent.name
      · rw [procTable_cons digit] at split
        obtain ⟨rfl, isRest⟩ := List.cons.inj split
        refine ⟨ent, ents, ps.execs ++ [atoi ent.name], rfl, isRest, ?_⟩
        rw [procPidScannerNextFrom, if_pos digit]
        rfl
      · rw [procTable_cons_of_not digit] at split
        rw [procPidScannerNextFrom, if_neg digit]
        exact inductionHypothesis split

/-- `get_tasks_next` returns the first thread among the unread names. -/
theorem tasksNextFrom_eq (pid : Pid) (names : List (List Char)) :
    (tasksNextFrom pid names).1 = (taskPids pid names).headD 0 ∧
      taskPids pid (tasksNextFrom pid names).2 = (taskPids pid names).tail := by
  induction names with
  | nil => exact ⟨rfl, rfl⟩
  | cons name names inductionHypothesis =>
      by_cases task : startsWithDigit name ∧ atoi name ≠ pid
      · simp [tasksNextFrom, taskPids, task]
      · have skipped : taskPids pid (name :: names) = taskPids pid names := by
          by_cases digit : startsWithDigit name
          · have leader : atoi name = pid := by simpa [digit] using task
            simp [taskPids, digit, leader]
          · simp [taskPids, digit]
        rw [tasksNextFrom, if_neg task, skipped]
        exact inductionHypothesis

/-- The threads of the open directory are enumerated. -/
theorem enumerates (ps : ProcPidScanner) {names : List (List Char)}
    {tasks : List Pid}
    (opened : ps.procTask = some names)
    (listed : taskPids ps.curPid names = tasks)
    (nonzero : 0 ∉ tasks) :
    procPidScanner.Enumerates ps tasks := by
  induction tasks generalizing ps names with
  | nil =>
      refine .stop ?_
      simp [procPidScanner, procPidScannerGetTasksNext, opened,
        tasksNextFrom_eq, listed]
  | cons tpid tasks inductionHypothesis =>
      obtain ⟨returned, left⟩ := tasksNextFrom_eq ps.curPid names
      rw [listed] at returned left
      have result : procPidScanner.getTasksNext ps =
          (tpid, { ps with
            procTask := some (tasksNextFrom ps.curPid names).2 }) := by
        simp only [procPidScanner, procPidScannerGetTasksNext, opened, returned,
          List.headD_cons]
      refine .task (by rw [result]) (fun zero => nonzero (by simp [zero])) ?_
      rw [result]
      exact inductionHypothesis _ rfl left
        fun member => nonzero (List.mem_cons_of_mem _ member)

/-- A scanner over `/proc` follows its table. -/
theorem follows (ps : ProcPidScanner)
    (nonzero : ∀ row ∈ procTable ps.proc, 0 ∉ row.threads) :
    procPidScanner.Follows ps (procTable ps.proc) StandsFor where
  restart := ⟨rfl, by simpa using nonzero, by simp⟩
  next_nil := by
    rintro current state ⟨noProcess, -, -⟩
    have result := next_nil state noProcess
    change procPidScanner.next state = _ at result
    rw [result]
    exact ⟨rfl, rfl, by simp, by simp⟩
  next_cons := by
    rintro row rest current state ⟨split, threads, -⟩
    obtain ⟨ent, unread, execs, isRow, isRest, result⟩ := next_cons state split
    change procPidScanner.next state = _ at result
    rw [result]
    refine ⟨rfl, isRest, ?_, ?_⟩
    · intro other member
      exact threads other (by simp at member ⊢; tauto)
    · rintro row ⟨⟩
      exact ⟨rfl, ent, rfl, isRow⟩
  perform := by
    rintro rest row state stands call
    cases call with
    | getCur => exact stands
    | tasksStart => exact stands
    | tasksNext =>
        simp only [PidScanner.perform, procPidScanner, procPidScannerGetTasksNext]
        split <;> exact stands
    | tasksStop => exact stands
  getCurPid := fun ⟨_, _, isCurrent⟩ => (isCurrent _ rfl).1
  getCurPpid := by
    rintro rest row state ⟨-, -, isCurrent⟩
    obtain ⟨-, ent, -, rfl⟩ := isCurrent row rfl
    rfl
  enumerates := by
    rintro rest row state ⟨-, threads, isCurrent⟩
    obtain ⟨samePid, ent, isEnt, rfl⟩ := isCurrent _ rfl
    have nonzeroTasks := threads ent.row (by simp)
    cases task : ent.task with
    | none =>
        have noTasks : ent.row.threads = [] := by
          simp [Dirent.row, task, taskPids]
        rw [noTasks]
        refine .stop ?_
        simp [procPidScanner, procPidScannerGetTasksStart,
          procPidScannerGetTasksNext, isEnt, task]
    | some names =>
        have tasks : ent.row.threads = taskPids state.curPid names := by
          rw [samePid]
          simp [Dirent.row, task]
        exact enumerates (procPidScannerGetTasksStart state)
          (by simp [procPidScannerGetTasksStart, isEnt, task]) tasks.symm
          nonzeroTasks

end ProcPidScanner

/-! ## The scanner over the netlink table -/

namespace NetLinkPidScanner

/-- A scanner with an empty table follows it. -/
theorem follows_empty {nls : NetLinkPidScanner} (empty : nls.imported = []) :
    netlinkPidScanner.Follows nls []
      (fun rest current nls => rest = [] ∧ current = none ∧ nls.procs = []) where
  restart := ⟨rfl, rfl, empty⟩
  next_nil := by
    rintro current state ⟨-, rfl, noRow⟩
    simp [netlinkPidScanner, netlinkPidScannerNext, noRow]
  next_cons := by simp
  perform := by simp
  getCurPid := by simp
  getCurPpid := by simp
  enumerates := by simp

/-- At the first row already the current process is another one. -/
theorem not_cursorContract {nls : NetLinkPidScanner}
    (distinct : (nls.imported.map (·.pid)).Nodup)
    (nonzero : ∀ row ∈ nls.imported, row.pid ≠ 0)
    (nonempty : nls.imported ≠ []) :
    ¬netlinkPidScanner.CursorContract nls nls.imported := by
  intro contract
  obtain ⟨row, rest, split⟩ := List.exists_cons_of_ne_nil nonempty
  have moved : netlinkPidScanner.next (netlinkPidScanner.restart nls) =
      (row.pid, { netlinkPidScannerRestart nls with curProc := 1 }) := by
    simp [netlinkPidScanner, netlinkPidScannerNext, netlinkPidScannerRestart,
      split]
  have rowNonzero : row.pid ≠ 0 := nonzero row (by simp [split])
  obtain ⟨-, -, -, answer, -⟩ := contract.cursor _ _ (.next .restart)
    (by rw [moved]; exact rowNonzero)
  rw [moved] at answer
  simp only [netlinkPidScanner, netlinkPidScannerGetCurPid,
    netlinkPidScannerRestart, split] at answer
  cases rest with
  | nil => exact rowNonzero answer.symm
  | cons second rest =>
      rw [split] at distinct
      have different : row.pid ≠ second.pid := by
        simp at distinct
        tauto
      exact different answer.symm

end NetLinkPidScanner

/-! ## Both scanners -/

/-- A scanner of either kind, at the beginning of a sweep. -/
inductive ScannerInput
  /-- A scanner over `/proc`. -/
  | proc (ps : ProcPidScanner)
  /-- A scanner over the netlink table. -/
  | netlink (nls : NetLinkPidScanner)

namespace ScannerInput

/-- The process table the scanner holds in the sweep. -/
def table : ScannerInput → List Process
  | .proc ps => procTable ps.proc
  | .netlink nls => nls.imported

/-- The netlink table, if the scanner holds one. -/
def netlinkTable : ScannerInput → List Process
  | .proc _ => []
  | .netlink nls => nls.imported

/-- Pids are distinct, and neither they nor thread ids are zero. -/
structure Valid (input : ScannerInput) : Prop where
  /-- Each process has one row. -/
  distinct : (input.table.map (·.pid)).Nodup
  /-- Zero is no process. -/
  nonzero : ∀ row ∈ input.table, row.pid ≠ 0
  /-- Zero is no thread. -/
  tasksNonzero : ∀ row ∈ input.table, 0 ∉ row.threads

/-- The scanner keeps the cursor contract. -/
def Contract : ScannerInput → Prop
  | .proc ps => procPidScanner.CursorContract ps (procTable ps.proc)
  | .netlink nls => netlinkPidScanner.CursorContract nls nls.imported

end ScannerInput

/-- A scanner keeps the cursor contract if and only if it is one over `/proc` or
its netlink table is empty. -/
theorem cursorContract_iff
    (input : ScannerInput)
    (valid : input.Valid) :
    input.Contract ↔ input.netlinkTable = [] := by
  cases input with
  | proc ps =>
      refine iff_of_true ?_ rfl
      exact (ps.follows valid.tasksNonzero).cursorContract valid.nonzero
  | netlink nls =>
      constructor
      · intro contract
        by_contra nonempty
        exact nls.not_cursorContract valid.distinct valid.nonzero nonempty contract
      · intro empty
        change nls.imported = [] at empty
        change netlinkPidScanner.CursorContract nls nls.imported
        rw [empty]
        exact (NetLinkPidScanner.follows_empty empty).cursorContract (by simp)

/-- The netlink table of a sweep with the processes 1 and 2. -/
def twoProcesses : NetLinkPidScanner :=
  { NetLinkPidScanner.fresh with
    procs := [Process.fresh 1, { Process.fresh 2 with parent := 1 }] }

/-- In a sweep over the processes 1 and 2 the process 1 is never requested. -/
theorem not_contract_twoProcesses :
    (ScannerInput.netlink twoProcesses).Valid ∧
      ¬(ScannerInput.netlink twoProcesses).Contract ∧
      (sweep netlinkPidScanner (fun _ => none) 9 twoProcesses .init).map
        (·.requests.map (·.leader)) = some [2, 0] := by
  have valid : (ScannerInput.netlink twoProcesses).Valid :=
    ⟨by decide, by decide, by decide⟩
  refine ⟨valid, ?_, by decide⟩
  exact twoProcesses.not_cursorContract valid.distinct valid.nonzero (by decide)

/-- The scanner over `/proc` with two processes, one of which has two more threads. -/
theorem contract_twoEntries :
    (ScannerInput.proc
      { proc := [⟨['s', 'e', 'l', 'f'], none⟩, ⟨['4'], some [['4'], ['5'], ['6']]⟩,
          ⟨['7'], some [['7']]⟩]
        unread := []
        curEnt := none
        curPid := 0
        procTask := none
        execs := [] }).Contract :=
  (cursorContract_iff _ ⟨by decide, by decide, by decide⟩).mpr rfl

end Collector
end Bootchart
