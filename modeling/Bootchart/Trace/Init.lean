import Bootchart.ProcessTree.Init
import Bootchart.Trace.Compile
import Bootchart.Trace.Crop
import Bootchart.Trace.Parse

/-!
# Making a trace

`Trace.__init__` parses the logs, checks that those it cannot do without are there,
links the processes, crops the statistics, and builds the process tree.
-/

namespace Bootchart

open Library (Text Dict)
open Parsing

namespace Trace

/-- The options that `Trace.__init__` reads. -/
structure Options where
  /-- `crop_after`; an empty text is as good as none. -/
  cropAfter : Option Text
  /-- `annotate`; none is as good as an empty list. -/
  annotate : List Text
  /-- `prune`. -/
  prune : Bool

/-- Why there is no trace. -/
inductive Failure
  /-- An exception of a parser, or one for a trace that is not valid. -/
  | raised (exception : Exception)
  /-- `UnboundLocalError`: there is no process to crop after. -/
  | unboundLocalError
  /-- `compile` or the making of the tree does not return. -/
  | endless
  deriving DecidableEq

/-- A trace as `__init__` leaves it. -/
structure Made where
  /-- `headers`. -/
  headers : Headers
  /-- `ps_stats`, `cpu_stats` and `disk_stats`. -/
  stats : Stats
  /-- Whether `taskstats` is set. -/
  taskstats : Bool
  /-- `kernel`. -/
  kernel : Option (List Process)
  /-- Whether `parent_map` is set. -/
  accurateParentage : Bool
  /-- `mem_stats`. -/
  memStats : Option (List MemSample)
  /-- `times`. -/
  times : List (Option ℚ)
  /-- `proc_tree`. -/
  procTree : ProcessTree.Finished

/-- The message for a trace that is not valid. -/
def emptyState (paths : List Text) : Text :=
  "empty state: '".toList ++ [',', ' '].intercalate paths ++
    "' does not contain a valid bootchart".toList

/-- `valid`: the logs that a trace cannot do without, if they are all there. -/
def required (state : Trace) : Option (Headers × Stats) := do
  let headers ← state.headers
  let diskStats ← state.diskStats
  let psStats ← state.psStats
  let cpuStats ← state.cpuStats
  return (headers, { psStats := psStats, cpuStats := cpuStats, diskStats := diskStats })

/-- The times that one argument of `annotate` adds: none for every process up to the
first with one of the names, and then the start time of that one. -/
def annotated (names : List Text) : List Process → List (Option ℚ)
  | [] => []
  | proc :: processes =>
      if names.any fun name => name = proc.cmd then [some proc.startTime]
      else none :: annotated names processes

/-- The linked and cropped statistics and the idle time. -/
def prepare (state : Trace) (stats : Stats) (options : Options) :
    Except Failure (Stats × Option ℚ) :=
  match compile state.cmdline state.parentMap stats.psStats with
  | none => .error .endless
  | some psStats =>
      let stats := { stats with psStats := psStats }
      match options.cropAfter with
      | none | some [] => .ok (stats, none)
      | some cropAfter =>
          match stats.crop cropAfter with
          | none => .error .unboundLocalError
          | some result => .ok result

/-- The key of the monitored application in the headers. -/
def profileProcess : Text :=
  "profile.process".toList

/-- `Trace.__init__` from the parsed logs on, without the tree of the kernel log. -/
def finish (state : Trace) (paths : List Text) (options : Options) :
    Except Failure Made :=
  match state.required with
  | none => .error (.raised (.parseError (emptyState paths)))
  | some (headers, stats) =>
      match prepare state stats options with
      | .error failure => .error failure
      | .ok (stats, idle) =>
          match ProcessTree.init stats.psStats.samplePeriod (headers.get? profileProcess)
              options.prune state.parentMap.isSome (state.kernel.getD [])
              stats.psStats.processMap with
          | none => .error .endless
          | some procTree =>
              .ok
                { headers := headers
                  stats := stats
                  taskstats := state.taskstats
                  kernel := state.kernel
                  accurateParentage := state.parentMap.isSome
                  memStats := state.memStats
                  times := idle :: options.annotate.flatMap fun procnames =>
                    annotated (shortNames procnames) stats.psStats.processMap.values
                  procTree := procTree }

/-- `Trace.__init__`, for the files that are found under the paths. -/
def init (paths : List Text) (files : List File) (options : Options) :
    Except Failure Made :=
  match parsePaths files with
  | .error exception => .error (.raised exception)
  | .ok state => state.finish paths options

/-! ## What a trace is made of -/

/-- What holds before anything is parsed and after each file holds in the end. -/
theorem parsePaths_induction
    (holds : Trace → Prop)
    {files : List File}
    (first : holds empty)
    (step : ∀ file ∈ files, ∀ state next, holds state → doParse state file = .ok next →
      holds next)
    {state : Trace}
    (parsed : parsePaths files = .ok state) : holds state := by
  unfold parsePaths at parsed
  generalize empty = start at first parsed
  induction files generalizing start with
  | nil =>
      obtain rfl := Except.ok.inj parsed
      exact first
  | cons file files inductionHypothesis =>
      rw [List.foldlM_cons] at parsed
      obtain ⟨middle, isMiddle, rest⟩ := Library.bind_eq_ok.mp parsed
      exact inductionHypothesis
        (fun other member => step other (List.mem_cons_of_mem _ member)) middle
        (step file (by simp) start middle first isMiddle) rest

/-- A file changes the statistics of processes only if it is a process log, and the
kernel log only if it is one. -/
theorem doParse_cases
    {file : File}
    {state next : Trace}
    (parsed : doParse state file = .ok next) :
    (next.psStats = state.psStats ∨
      (Log.ofName file.1 = some .taskstats ∧
        parseTaskstatsLog file.2 = .ok next.psStats) ∨
      (Log.ofName file.1 = some .procPs ∧ parseProcPsLog file.2 = .ok next.psStats)) ∧
    (next.kernel = state.kernel ∨ next.kernel = some (parseDmesg file.2)) := by
  unfold doParse at parsed
  split at parsed
  next log isLog =>
    obtain ⟨contents, isContents, rfl⟩ := Library.map_eq_ok.mp parsed
    cases log with
    | taskstats =>
        obtain ⟨psStats, isParsed, rfl⟩ := Library.map_eq_ok.mp isContents
        exact ⟨.inr (.inl ⟨isLog, isParsed⟩), .inl rfl⟩
    | procPs =>
        obtain ⟨psStats, isParsed, rfl⟩ := Library.map_eq_ok.mp isContents
        exact ⟨.inr (.inr ⟨isLog, isParsed⟩), .inl rfl⟩
    | procDiskstats =>
        obtain ⟨numCpu, -, rest⟩ := Library.bind_eq_ok.mp isContents
        obtain ⟨diskStats, -, same⟩ := Library.bind_eq_ok.mp rest
        obtain rfl := Except.ok.inj same
        exact ⟨.inl rfl, .inl rfl⟩
    | dmesg =>
        obtain rfl := Except.ok.inj isContents
        exact ⟨.inl rfl, .inr rfl⟩
    | header | procStat | procMeminfo | cmdline2 | paternity | kernelPacct =>
        obtain ⟨value, -, rfl⟩ := Library.map_eq_ok.mp isContents
        exact ⟨.inl rfl, .inl rfl⟩
  next =>
    obtain rfl := Except.ok.inj parsed
    exact ⟨.inl rfl, .inl rfl⟩

/-- The processes of the kernel log, if there is one, have neither samples nor parents, and no
negative pids. -/
theorem bare_parsePaths
    {files : List File}
    {state : Trace}
    (parsed : parsePaths files = .ok state) :
    ∀ process ∈ state.kernel.getD [], Bare process ∧ 0 ≤ process.pid := by
  have first : ∀ process ∈ empty.kernel.getD [], Bare process ∧ 0 ≤ process.pid := by
    simp [empty]
  refine parsePaths_induction (fun state => ∀ process ∈ state.kernel.getD [],
    Bare process ∧ 0 ≤ process.pid) first ?_ parsed
  intro file _ state next bare isNext process member
  rcases (doParse_cases isNext).2 with same | isDmesg
  · exact bare process (same ▸ member)
  · rw [isDmesg, Option.getD_some] at member
    exact bare_parseDmesg member

/-- The processes after linking and cropping are those after linking, or what cropping
leaves of them. -/
theorem prepare_cases
    {state : Trace}
    {stats prepared : Stats}
    {options : Options}
    {idle : Option ℚ}
    (isPrepared : prepare state stats options = .ok (prepared, idle)) :
    ∃ linked, compile state.cmdline state.parentMap stats.psStats = some linked ∧
      ∀ key process, prepared.psStats.processMap.get? key = some process →
        ∃ original, linked.processMap.get? key = some original ∧
          (process = original ∨ ∃ cropAt, process = cropped cropAt original) := by
  unfold prepare at isPrepared
  split at isPrepared
  · contradiction
  next linked compiled =>
    refine ⟨linked, compiled, fun key process isProcess => ?_⟩
    simp only at isPrepared
    split at isPrepared
    · obtain ⟨rfl, -⟩ := Prod.mk.inj (Except.ok.inj isPrepared)
      exact ⟨process, isProcess, .inl rfl⟩
    · obtain ⟨rfl, -⟩ := Prod.mk.inj (Except.ok.inj isPrepared)
      exact ⟨process, isProcess, .inl rfl⟩
    · split at isPrepared
      · contradiction
      next result isCropped =>
        obtain rfl := Except.ok.inj isPrepared
        obtain ⟨proc, -, same⟩ := Option.map_eq_some_iff.mp isCropped
        split at same
        · obtain ⟨rfl, -⟩ := Prod.mk.inj same
          exact ⟨process, isProcess, .inl rfl⟩
        next found _ =>
          obtain ⟨rfl, -⟩ := Prod.mk.inj same
          rw [Stats.cropTo, Dict.get?_filterMapValues, Option.bind_eq_some_iff]
            at isProcess
          obtain ⟨original, isOriginal, isKept⟩ := isProcess
          split at isKept
          · exact ⟨original, isOriginal, .inr ⟨_, (Option.some.inj isKept).symm⟩⟩
          · contradiction

/-- What a trace is made of. -/
theorem init_eq_ok
    {paths : List Text}
    {files : List File}
    {options : Options}
    {made : Made}
    (isMade : init paths files options = .ok made) :
    ∃ state stats idle, parsePaths files = .ok state ∧
      state.required = some (made.headers, stats) ∧
      prepare state stats options = .ok (made.stats, idle) ∧
      made.kernel = state.kernel ∧
      (made.times = idle :: options.annotate.flatMap fun procnames =>
        annotated (shortNames procnames) made.stats.psStats.processMap.values) ∧
      ProcessTree.init made.stats.psStats.samplePeriod (made.headers.get? profileProcess)
        options.prune made.accurateParentage (made.kernel.getD [])
        made.stats.psStats.processMap = some made.procTree := by
  unfold init at isMade
  split at isMade
  · contradiction
  next state parsed =>
    unfold Trace.finish at isMade
    split at isMade
    · contradiction
    next headers stats isRequired =>
      split at isMade
      · contradiction
      next prepared idle isPrepared =>
        split at isMade
        · contradiction
        next procTree isTree =>
          obtain rfl := Except.ok.inj isMade
          exact ⟨state, stats, idle, parsed, isRequired, isPrepared, rfl, rfl, isTree⟩

/-! ## Processes in the order of their pids

What sorts the processes is well-founded recursion and does not evaluate; a trace whose processes
are in order already can be computed without it.
-/

namespace Made

/-- The processes from which the tree is made are in the order of their pids. -/
def InOrder (made : Made) : Prop :=
  (ProcessTree.processIds (made.kernel.getD []) made.stats.psStats.processMap).Pairwise
    fun first second => decide
      ((ProcessTree.objects (made.kernel.getD []) made.stats.psStats.processMap first).pid ≤
        (ProcessTree.objects (made.kernel.getD []) made.stats.psStats.processMap second).pid) =
          true

instance : DecidablePred InOrder := fun _ => inferInstanceAs (Decidable (List.Pairwise _ _))

/-- The tree of processes that are in order. -/
def orderedTree (made : Made) (prune : Bool) : Option ProcessTree.Finished :=
  ProcessTree.finish made.stats.psStats.samplePeriod (made.headers.get? profileProcess) prune
    made.accurateParentage
    (ProcessTree.objects (made.kernel.getD []) made.stats.psStats.processMap)
    (ProcessTree.processIds (made.kernel.getD []) made.stats.psStats.processMap)

/-- What is computed of a trace in order with its tree holds of it. -/
theorem exists_of_inOrder
    (paths : List Text)
    (files : List File)
    (options : Options)
    (holds : Made → Bool)
    (returns : (init paths files options).toOption.any fun made =>
      decide made.InOrder && (made.orderedTree options.prune).any fun tree =>
        holds { made with procTree := tree }) :
    ∃ made, init paths files options = .ok made ∧ made.InOrder ∧ holds made = true := by
  cases isMade : init paths files options with
  | error failure =>
      rw [isMade] at returns
      contradiction
  | ok made =>
      rw [isMade, Except.toOption, Option.any_some, Bool.and_eq_true, decide_eq_true_eq,
        Option.any_eq_true] at returns
      obtain ⟨inOrder, tree, isTree, result⟩ := returns
      obtain ⟨state, stats, idle, -, -, -, -, -, isFinished⟩ := init_eq_ok isMade
      rw [ProcessTree.init_of_sorted inOrder] at isFinished
      obtain rfl := Option.some.inj (isTree.symm.trans isFinished)
      exact ⟨made, rfl, inOrder, result⟩

end Made

end Trace
end Bootchart
