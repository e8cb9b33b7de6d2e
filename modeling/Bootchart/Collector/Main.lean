import Bootchart.Collector.RunningPid
import Bootchart.Library.Exclusion
import Bootchart.Library.Run

/-!
# Collectors side by side

Any number of processes may run `main` at the same time: collectors, probes, dumpers and those
that only sleep. They share the file systems that `enter_environment` mounts, and know of each
other by searching the directory of processes. One that finds nobody collects, or cleans up if it
is a probe.

A search takes time. A process that is there from `opendir` to the end of the directory is shown
by it; one that comes or goes in between may be shown or not. The directory stays open when it is
unmounted meanwhile, but what is read of a process is read by its path, and is then not there. One
process is looked at in one step.
-/

namespace Bootchart
namespace Collector

open Library (Text Phase)

/-- Where a process that runs `main` stands. -/
inductive Stage
  /-- Before its arguments are parsed. -/
  | starting
  /-- In `usleep`. -/
  | sleeping
  /-- Before `enter_environment`. -/
  | entering (args : Arguments)
  /-- Behind `setup_sigaction`. -/
  | entered (args : Arguments)
  /-- Before `bootchart_find_running_pid`. -/
  | ready (args : Arguments)
  /-- In its loop. Of the processes that were there in the beginning, `unseen` have not been
  shown. -/
  | searching (args : Arguments) (unseen : List Nat)
  /-- Not a dumper, and nobody was found. -/
  | alone (args : Arguments)
  /-- In the sampling loop. -/
  | collecting (args : Arguments)
  /-- A dumper that has found a process. -/
  | dumping (args : Arguments) (pid : Pid)
  /-- At `exit`. -/
  | leaving (cleanEnvironment : Bool)
  /-- Gone. -/
  | exited
  deriving DecidableEq

namespace Stage

/-- The arguments, from where they are parsed on. -/
def args? : Stage → Option Arguments
  | entering args => some args
  | entered args => some args
  | ready args => some args
  | searching args _ => some args
  | alone args => some args
  | collecting args => some args
  | dumping args _ => some args
  | _ => none

/-- Where `main` goes on when the search is over. -/
def searched (args : Arguments) : Option Pid → Stage
  | some pid => if args.dumpPath.isSome then dumping args pid else leaving false
  | none => if args.dumpPath.isSome then leaving true else alone args

/-- What a process has to do with the others. -/
def phase : Stage → Phase Nat
  | searching _ unseen => .looking {i | i ∈ unseen}
  | alone _ => .inside
  | collecting _ => .inside
  | _ => .away

end Stage

/-- A process that runs `main`. -/
structure Proc where
  /-- What others see of it. -/
  running : Running
  /-- Where it stands. -/
  stage : Stage

/-- All processes, also those that are gone, and what they share. -/
structure System where
  /-- The processes, in the order in which they were started. -/
  procs : List Proc
  /-- Whether the file systems of `enter_environment` are mounted. -/
  mounted : Bool

/-- What a process does, or what happens to it. -/
inductive Move
  /-- Parse the arguments. -/
  | parse
  /-- Wake up. -/
  | wake
  /-- `enter_environment`. -/
  | enter (succeeds : Bool)
  /-- The checks for an initrd. -/
  | check (refused : Bool)
  /-- Begin the search. -/
  | opendir
  /-- Look at a process. -/
  | readdir (index : Nat)
  /-- End the search. -/
  | enddir
  /-- `buffers_extract_and_dump`, behind the search. -/
  | extract
  /-- Go on alone. -/
  | proceed (opened : Bool)
  /-- Leave at `exit`. -/
  | leave
  /-- `SIGTERM` behind `setup_sigaction`. -/
  | term
  /-- Any other end. -/
  | die
  deriving DecidableEq

namespace System

/-- Nobody is there. -/
def init : System where
  procs := []
  mounted := false

/-- A process is gone, or was never there. -/
def isGone (system : System) (index : Nat) : Bool :=
  match system.procs[index]? with
  | some proc => proc.stage = .exited
  | none => true

/-- The processes that are there. -/
def present (system : System) : List Nat :=
  (List.range system.procs.length).filter (!system.isGone ·)

/-- What is read of a process by its path below `PROC_PATH`: nothing when it is gone, or when
nothing is mounted there. -/
def shown (system : System) (other : Proc) : ProcEntry :=
  if other.stage = .exited ∨ system.mounted = false then
    { other.running.entry with exe := none, cmdline := none }
  else other.running.entry

/-- What a move of a process leads to: where it stands then, and whether the file systems are
mounted. Since no command line is empty, the arguments that `examine` is given do not matter. -/
def move (program : Text) (system : System) (proc : Proc) : Move → Option (Stage × Bool)
  | .parse =>
      match proc.stage with
      | .starting =>
          match ownArguments proc.running.words with
          | none => some (.exited, system.mounted)
          | some args =>
              some (if args.usleepTime > 0 then .sleeping else .entering args, system.mounted)
      | _ => none
  | .wake =>
      match proc.stage with
      | .sleeping => some (.exited, system.mounted)
      | _ => none
  | .enter succeeds =>
      match proc.stage with
      | .entering args =>
          some (if succeeds then (.entered args, true) else (.exited, system.mounted))
      | _ => none
  | .check refused =>
      match proc.stage with
      | .entered args =>
          let fails := args.dumpPath.isNone && !args.relativeTime && refused
          some (if fails then .leaving true else .ready args, system.mounted)
      | _ => none
  | .opendir =>
      match proc.stage with
      | .ready args =>
          -- Without a directory `readdir` crashes.
          some (if system.mounted then .searching args system.present else .exited,
            system.mounted)
      | _ => none
  | .readdir index =>
      match proc.stage, system.procs[index]? with
      | .searching args unseen, some other =>
          let rest := .searching args (unseen.filter (· ≠ index))
          match examine program proc.running.pid argumentsSetDefaults (system.shown other) with
          | none => some (.exited, system.mounted)
          | some (some pid, _) => some (.searched args (some pid), system.mounted)
          | some (none, _) => some (rest, system.mounted)
      | _, _ => none
  | .enddir =>
      match proc.stage with
      | .searching args unseen =>
          if unseen.all system.isGone then some (.searched args none, system.mounted) else none
      | _ => none
  | .extract =>
      match proc.stage with
      | .dumping _ _ => some (.leaving true, system.mounted)
      | _ => none
  | .proceed opened =>
      match proc.stage with
      | .alone args =>
          if args.probeRunning then some (.exited, false)
          else some (if system.mounted && opened then .collecting args else .exited,
            system.mounted)
      | _ => none
  | .leave =>
      match proc.stage with
      | .leaving cleanEnvironment => some (.exited, !cleanEnvironment && system.mounted)
      | _ => none
  | .term =>
      match proc.stage with
      | .starting | .sleeping | .entering _ | .exited => none
      | _ => some (.exited, false)
  | .die => if proc.stage = .exited then none else some (.exited, system.mounted)

end System

/-- What happens next. -/
inductive Event
  /-- A process is started. -/
  | start (running : Running)
  /-- A process makes a move. -/
  | move (index : Nat) (move : Move)

/-- One step of all processes. A new process has a pid that no other has at the time. -/
def System.step (program : Text) (system : System) : Event → Option System
  | .start running =>
      if isCollector program running.exe ∧
          ∀ proc ∈ system.procs, proc.stage ≠ .exited → proc.running.pid ≠ running.pid then
        some { system with procs := system.procs ++ [{ running := running, stage := .starting }] }
      else none
  | .move index action =>
      system.procs[index]?.bind fun proc =>
        (system.move program proc action).map fun (stage, mounted) =>
          { procs := system.procs.set index { proc with stage := stage }, mounted := mounted }

end Collector
end Bootchart
