import Bootchart.Collector.SkippedSamples
import Bootchart.Parsing.TaskstatsLine

/-!
# The log of the processes

At each turn of its loop the collector writes the time, the lines of the processes that it does
not skip, and an empty line. What is skipped at a turn depends on the turns before it.
-/

namespace Bootchart
namespace Collector

open Library (Aspects)
open Parsing (taskstatLog)

/-- A turn of the loop: the time, and what there is to tell of the processes, in the order in
which the scanner visits them. -/
structure Turn where
  /-- The time that has passed. -/
  time : Nat
  /-- What has been asked of the kernel. -/
  samples : List Sample

/-- What the loop keeps from turn to turn. -/
structure ProcessLog where
  /-- The table of `get_pid_entry`. -/
  pids : List PidEntry
  /-- What has been passed to `per_pid_file`. -/
  file : Bytes

/-- Samples come to a table. -/
def dumpSamples (pids : List PidEntry) (samples : List Sample) : TaskstatLog :=
  samples.foldl TaskstatLog.dumpTaskstat { pids := pids, written := [] }

namespace ProcessLog

/-- Before the first turn. -/
def fresh : ProcessLog where
  pids := []
  file := []

/-- What a turn of the loop passes to `per_pid_file`. -/
def next (log : ProcessLog) (turn : Turn) : ProcessLog :=
  let logged := dumpSamples log.pids turn.samples
  { pids := logged.pids
    file := log.file ++ (decimal turn.time ++ [10]) ++ logged.text ++ [10] }

end ProcessLog

/-- `taskstats.log` behind some turns. -/
def processLog (turns : List Turn) : Bytes :=
  (turns.foldl ProcessLog.next .fresh).file

/-! ## What is written at the turns -/

/-- A sample more. -/
theorem dumpSamples_concat (pids : List PidEntry) (samples : List Sample) (sample : Sample) :
    dumpSamples pids (samples ++ [sample]) = (dumpSamples pids samples).dumpTaskstat sample := by
  rw [dumpSamples, List.foldl_append]
  rfl

/-- Samples come to a log: those before stay. -/
theorem foldl_dumpTaskstat (samples : List Sample) (logged : TaskstatLog) :
    samples.foldl TaskstatLog.dumpTaskstat logged =
      { pids := (dumpSamples logged.pids samples).pids
        written := logged.written ++ (dumpSamples logged.pids samples).written } := by
  induction samples using List.reverseRecOn with
  | nil => simp [dumpSamples]
  | append_singleton samples sample inductionHypothesis =>
      rw [List.foldl_append, inductionHypothesis, dumpSamples_concat, List.foldl_cons,
        List.foldl_nil, TaskstatLog.dumpTaskstat, TaskstatLog.dumpTaskstat]
      dsimp only
      split
      · rfl
      · rw [List.append_assoc]

/-- More samples. -/
theorem dumpSamples_append (pids : List PidEntry) (first second : List Sample) :
    dumpSamples pids (first ++ second) =
      { pids := (dumpSamples (dumpSamples pids first).pids second).pids
        written := (dumpSamples pids first).written ++
          (dumpSamples (dumpSamples pids first).pids second).written } := by
  rw [dumpSamples, List.foldl_append, foldl_dumpTaskstat]
  rfl

/-- The samples written at each turn, and its time. -/
def framesFrom (pids : List PidEntry) : List Turn → List (Int × List Sample)
  | [] => []
  | turn :: turns =>
      (turn.time, (dumpSamples pids turn.samples).written) ::
        framesFrom (dumpSamples pids turn.samples).pids turns

/-- All samples. -/
def sampled (turns : List Turn) : List Sample :=
  turns.flatMap Turn.samples

/-- The frames of turns behind others. -/
theorem framesFrom_append (pids : List PidEntry) (first second : List Turn) :
    framesFrom pids (first ++ second) =
      framesFrom pids first ++ framesFrom (dumpSamples pids (sampled first)).pids second := by
  induction first generalizing pids with
  | nil => rfl
  | cons turn first inductionHypothesis =>
      rw [List.cons_append, framesFrom, inductionHypothesis, framesFrom, List.cons_append]
      have all : sampled (turn :: first) = turn.samples ++ sampled first := List.flatMap_cons
      rw [all, dumpSamples_append]

/-- What is written at the turns is what is written of their samples. -/
theorem flatMap_framesFrom (pids : List PidEntry) (turns : List Turn) :
    (framesFrom pids turns).flatMap Prod.snd = (dumpSamples pids (sampled turns)).written := by
  induction turns generalizing pids with
  | nil => rfl
  | cons turn turns inductionHypothesis =>
      have all : sampled (turn :: turns) = turn.samples ++ sampled turns := List.flatMap_cons
      rw [framesFrom, List.flatMap_cons, inductionHypothesis, all, dumpSamples_append]

/-- The times of the frames are those of the turns. -/
theorem map_fst_framesFrom (pids : List PidEntry) (turns : List Turn) :
    (framesFrom pids turns).map Prod.fst = turns.map fun turn => (turn.time : Int) := by
  induction turns generalizing pids with
  | nil => rfl
  | cons turn turns inductionHypothesis =>
      rw [framesFrom, List.map_cons, inductionHypothesis, List.map_cons]

/-- What is written are samples of the turn. -/
theorem written_sublist (pids : List PidEntry) (samples : List Sample) :
    (dumpSamples pids samples).written.Sublist samples := by
  induction samples using List.reverseRecOn with
  | nil => exact List.Sublist.refl _
  | append_singleton samples sample inductionHypothesis =>
      rw [dumpSamples_concat, TaskstatLog.dumpTaskstat]
      split
      · exact inductionHypothesis.trans (List.sublist_append_left _ _)
      · exact inductionHypothesis.append (List.Sublist.refl _)

/-! ## The file -/

/-- The parent that is printed. -/
def Sample.printedPpid (sample : Sample) : Pid :=
  if sample.curPpid = 0 then sample.ts.acPpid else sample.curPpid

/-- What is printed of the samples of a frame. -/
def printedFrame (frame : Int × List Sample) : Int × List (Taskstats × Pid) :=
  (frame.1, frame.2.map fun sample => (sample.ts, sample.printedPpid))

/-- The file behind more turns. -/
theorem file_foldl_next (log : ProcessLog) (turns : List Turn) :
    (turns.foldl ProcessLog.next log).file =
      log.file ++ taskstatLog ((framesFrom log.pids turns).map printedFrame) := by
  induction turns generalizing log with
  | nil => exact (List.append_nil _).symm
  | cons turn turns inductionHypothesis =>
      have text : ∀ samples : List Sample, samples.flatMap Sample.line =
          (samples.map fun sample => (sample.ts, sample.printedPpid)).flatMap
            fun line => taskstatLine line.1 line.2 := by
        intro samples
        rw [List.flatMap_map]
        rfl
      rw [List.foldl_cons, inductionHypothesis, framesFrom, List.map_cons, taskstatLog,
        taskstatLog, List.flatMap_cons]
      simp only [ProcessLog.next, TaskstatLog.text, text, printedFrame, List.append_assoc]

/-- The log consists of the frames. -/
theorem processLog_eq (turns : List Turn) :
    processLog turns = taskstatLog ((framesFrom [] turns).map printedFrame) :=
  file_foldl_next .fresh turns

/-! ## The loop over the sweeps -/

section Sweeps

variable {σ : Type} {scanner : PidScanner σ}

/-- The turns of the loop of `main`, with the time and the answers of the kernel at each. -/
def processTurns (scanner : PidScanner σ) (fuel : Nat) :
    σ → PidEntries → Bytes → List (Nat × Kernel) → Option Bytes
  | _, _, file, [] => some file
  | state, entries, file, turn :: turns =>
      (sweep scanner turn.2 fuel state entries).bind fun swept =>
        processTurns scanner fuel swept.state swept.entries
          (file ++ (decimal turn.1 ++ [10]) ++ swept.log ++ [10]) turns

/-- What the loop writes is the log of some turns at its times. -/
theorem exists_turns_processTurns
    {fuel : Nat}
    {state : σ}
    {entries : PidEntries}
    {log : ProcessLog}
    {answers : List (Nat × Kernel)}
    {file : Bytes}
    (same : ∀ pid, 0 ≤ pid → entryAt log.pids pid = entries pid)
    (numbered : ∀ turn ∈ answers, ∀ pid, (turn.2 pid).isSome → 0 ≤ pid)
    (ran : processTurns scanner fuel state entries log.file answers = some file) :
    ∃ turns : List Turn, turns.map Turn.time = answers.map Prod.fst ∧
      file = (turns.foldl ProcessLog.next log).file := by
  induction answers generalizing state entries log with
  | nil => exact ⟨[], rfl, (Option.some.inj ran).symm⟩
  | cons turn answers inductionHypothesis =>
      rw [List.forall_mem_cons] at numbered
      obtain ⟨swept, isSwept, ranRest⟩ := Option.bind_eq_some_iff.mp ran
      have agrees : Agrees [] { pids := log.pids, written := [] }
          { state := scanner.restart state, entries := entries, log := [], requests := [] } :=
        ⟨same, rfl⟩
      obtain ⟨samples, agreesNext⟩ := exists_samples_sampleLoop numbered.1 agrees isSwept
      let next := log.next { time := turn.1, samples := samples }
      have isNext : next.file = log.file ++ (decimal turn.1 ++ [10]) ++ swept.log ++ [10] := by
        have text : swept.log = (dumpSamples log.pids samples).text := agreesNext.log
        rw [text]
        rfl
      rw [← isNext] at ranRest
      obtain ⟨turns, times, isFile⟩ :=
        inductionHypothesis agreesNext.entries numbered.2 ranRest
      refine ⟨{ time := turn.1, samples := samples } :: turns, ?_, isFile⟩
      rw [List.map_cons, List.map_cons, times]

end Sweeps

end Collector
end Bootchart
