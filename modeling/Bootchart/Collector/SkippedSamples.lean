import Bootchart.Collector.Taskstat
import Bootchart.Library.Bitmap
import Bootchart.Library.Changes

/-!
# Samples that are not written

`dump_taskstat` writes no line for a sample with the parent and the sum of the times of the one
before it of the same process. The lines tell the name and three times, so that it depends on
the samples whether the last line of a process stands for the samples that were skipped.
-/

namespace Bootchart
namespace Collector

open Library (Aspects)

/-! ## The table of entries -/

/-- An entry before it is first written. -/
def PidEntry.zero : PidEntry where
  ppid := 0
  timeTotal := 0

/-- `get_pid_entry`: the table, grown with zeros if it has no entry for the pid. -/
def getPidEntry (pids : List PidEntry) (pid : Nat) : List PidEntry :=
  if pids.length ≤ pid then
    pids ++ List.replicate (pid + 512 - pids.length) PidEntry.zero
  else pids

/-- The entry of a pid, zero if the table has not grown to it. -/
def entryAt (pids : List PidEntry) (pid : Pid) : PidEntry :=
  pids.getD pid.toNat PidEntry.zero

/-- The table grows to the pid. -/
theorem lt_length_getPidEntry (pids : List PidEntry) (pid : Nat) :
    pid < (getPidEntry pids pid).length := by
  rw [getPidEntry]
  split
  · rw [List.length_append, List.length_replicate]
    omega
  · omega

/-- The entries stay while the table grows. -/
theorem entryAt_getPidEntry (pids : List PidEntry) (pid : Nat) (other : Pid) :
    entryAt (getPidEntry pids pid) other = entryAt pids other := by
  rw [getPidEntry]
  split
  next => exact Library.getD_append_replicate pids _ _ _
  next => rfl

/-- Entries behind a write to one of them. -/
theorem entryAt_set
    {pids : List PidEntry}
    {pid other : Pid}
    (isPid : 0 ≤ pid)
    (isOther : 0 ≤ other)
    (inside : pid.toNat < pids.length)
    (entry : PidEntry) :
    entryAt (pids.set pid.toNat entry) other =
      if other = pid then entry else entryAt pids other := by
  have sameIndex : other.toNat = pid.toNat ↔ other = pid := by
    constructor
    · intro equal
      rw [← Int.toNat_of_nonneg isOther, equal, Int.toNat_of_nonneg isPid]
    · intro equal
      rw [equal]
  rw [entryAt, entryAt, Library.getD_set inside]
  exact if_congr sameIndex rfl rfl

/-! ## Samples and lines -/

/-- A sample of a process: its statistics, and its parent as the scanner knows it. Process
numbers are not negative. -/
structure Sample where
  /-- What `get_tgid_taskstats` returned. -/
  ts : Taskstats
  /-- What `pid_scanner_get_cur_ppid` returns. -/
  curPpid : Pid
  /-- The kernel answers for a process. -/
  acPid_nonneg : 0 ≤ ts.acPid

/-- The line of a sample. -/
def Sample.line (sample : Sample) : Bytes :=
  taskstatLine sample.ts (if sample.curPpid = 0 then sample.ts.acPpid else sample.curPpid)

/-- The entry that a sample leaves. -/
def Sample.entry (sample : Sample) : PidEntry where
  ppid := sample.ts.acPpid
  timeTotal := sample.ts.cpuRunRealTotal + sample.ts.blkioDelayTotal + sample.ts.swapinDelayTotal

/-- What a line tells the reader about the process: the name and the three times. -/
def Sample.content (sample : Sample) : Bytes × BitVec 64 × BitVec 64 × BitVec 64 :=
  (sample.ts.acComm, sample.ts.cpuRunRealTotal, sample.ts.blkioDelayTotal,
    sample.ts.swapinDelayTotal)

/-- All times are zero. -/
def Sample.Idle (sample : Sample) : Prop :=
  sample.ts.cpuRunRealTotal = 0 ∧ sample.ts.blkioDelayTotal = 0 ∧ sample.ts.swapinDelayTotal = 0

/-- The table of `get_pid_entry`, and the samples whose lines were written. -/
structure TaskstatLog where
  /-- `pids`; `pids_size` is its length. -/
  pids : List PidEntry
  /-- The samples written. -/
  written : List Sample

namespace TaskstatLog

/-- Before the first sample. -/
def fresh : TaskstatLog where
  pids := []
  written := []

/-- The text of the log. -/
def text (logged : TaskstatLog) : Bytes :=
  logged.written.flatMap Sample.line

/-- `dump_taskstat`, once the statistics are there. -/
def dumpTaskstat (logged : TaskstatLog) (sample : Sample) : TaskstatLog :=
  let ts := sample.ts
  let pids := getPidEntry logged.pids ts.acPid.toNat
  let entry := entryAt pids ts.acPid
  let timeTotal := ts.cpuRunRealTotal + ts.blkioDelayTotal + ts.swapinDelayTotal
  if entry.timeTotal = timeTotal ∧ entry.ppid = ts.acPpid then
    { logged with pids := pids }
  else
    { pids := pids.set ts.acPid.toNat { ppid := ts.acPpid, timeTotal := timeTotal }
      written := logged.written ++ [sample] }

/-- A sample adds nothing to the log. -/
def Skips (logged : TaskstatLog) (sample : Sample) : Prop :=
  (logged.dumpTaskstat sample).text = logged.text

/-- The log behind some samples. -/
def after (samples : List Sample) : TaskstatLog :=
  samples.foldl dumpTaskstat fresh

/-- The last line of the process has the name and the three times of a sample, or there is no
line and all times are zero. -/
def Tells (logged : TaskstatLog) (sample : Sample) : Prop :=
  match (logged.written.filter (·.ts.acPid = sample.ts.acPid)).getLast? with
  | none => sample.Idle
  | some line => line.content = sample.content

/-- The log tells every sample that is skipped. -/
def TellsSkipped (samples : List Sample) : Prop :=
  ∀ done sample, done ++ [sample] <+: samples →
    (after done).Skips sample → (after done).Tells sample

end TaskstatLog

/-- Samples belong to processes and are compared by their entries. -/
def sampleAspects : Aspects Sample Pid PidEntry (Bytes × BitVec 64 × BitVec 64 × BitVec 64) where
  owner sample := sample.ts.acPid
  key := Sample.entry
  start := PidEntry.zero
  content := Sample.content
  Empty := Sample.Idle

/-- Samples of a process with the parent and the sum of the times of the sample before it have
its name and its three times, and as long as parents and sums are zero, all times are zero. -/
def SumsTell (samples : List Sample) : Prop :=
  sampleAspects.KeysTell samples

/-! ## The lines and the samples -/

/-- A line is not empty. -/
theorem line_ne_nil (sample : Sample) : sample.line ≠ [] :=
  List.append_ne_nil_of_right_ne_nil _ (List.cons_ne_nil _ _)

/-- The condition of `dump_taskstat` compares entries. -/
theorem sameEntry_iff (entry : PidEntry) (sample : Sample) :
    entry.timeTotal = sample.ts.cpuRunRealTotal + sample.ts.blkioDelayTotal +
        sample.ts.swapinDelayTotal ∧ entry.ppid = sample.ts.acPpid ↔ sample.entry = entry := by
  cases entry
  rw [Sample.entry, PidEntry.mk.injEq, and_comm]
  exact and_congr eq_comm eq_comm

namespace TaskstatLog

variable {logged : TaskstatLog} {sample : Sample}

/-- A sample with the entry of its process is not written. -/
theorem dumpTaskstat_of_same (same : sample.entry = entryAt logged.pids sample.ts.acPid) :
    logged.dumpTaskstat sample =
      { logged with pids := getPidEntry logged.pids sample.ts.acPid.toNat } := by
  rw [dumpTaskstat, entryAt_getPidEntry]
  exact if_pos ((sameEntry_iff _ sample).mpr same)

/-- A sample with another entry is written. -/
theorem dumpTaskstat_of_ne (changed : sample.entry ≠ entryAt logged.pids sample.ts.acPid) :
    logged.dumpTaskstat sample =
      { pids := (getPidEntry logged.pids sample.ts.acPid.toNat).set sample.ts.acPid.toNat
          sample.entry
        written := logged.written ++ [sample] } := by
  rw [dumpTaskstat, entryAt_getPidEntry]
  exact if_neg fun same => changed ((sameEntry_iff _ sample).mp same)

/-- A sample is skipped if it has the entry of its process. -/
theorem skips_iff : logged.Skips sample ↔ sample.entry = entryAt logged.pids sample.ts.acPid := by
  constructor
  · intro skips
    by_contra changed
    rw [Skips, dumpTaskstat_of_ne changed] at skips
    simp [text, line_ne_nil] at skips
  · intro same
    rw [Skips, dumpTaskstat_of_same same]
    rfl

/-- A log tells a sample if its lines do. -/
theorem tells_iff : logged.Tells sample ↔ sampleAspects.Told logged.written sample := by
  have sameLast : sampleAspects.last logged.written (sampleAspects.owner sample) =
      (logged.written.filter (·.ts.acPid = sample.ts.acPid)).getLast? := rfl
  rw [Tells, Aspects.Told, sameLast]
  cases (logged.written.filter (·.ts.acPid = sample.ts.acPid)).getLast? with
  | none => rfl
  | some line => rfl

/-- The entries behind one more sample. -/
theorem entryAt_dumpTaskstat {pid : Pid} (isPid : 0 ≤ pid) :
    entryAt (logged.dumpTaskstat sample).pids pid =
      if pid = sample.ts.acPid then sample.entry else entryAt logged.pids pid := by
  by_cases same : sample.entry = entryAt logged.pids sample.ts.acPid
  · rw [dumpTaskstat_of_same same, entryAt_getPidEntry]
    split
    next isOwner => rw [isOwner, same]
    next => rfl
  · rw [dumpTaskstat_of_ne same,
      entryAt_set sample.acPid_nonneg isPid (lt_length_getPidEntry _ _), entryAt_getPidEntry]

/-- The table has the last entries, and the lines are those that a recorder of changes keeps. -/
theorem after_eq (samples : List Sample) :
    (∀ pid, 0 ≤ pid → entryAt (after samples).pids pid = sampleAspects.lastKey samples pid) ∧
      (after samples).written = (sampleAspects.recorded samples).kept := by
  induction samples using List.reverseRecOn with
  | nil => exact ⟨fun _ _ => rfl, rfl⟩
  | append_singleton samples sample inductionHypothesis =>
      obtain ⟨entries, lines⟩ := inductionHypothesis
      have last : after (samples ++ [sample]) = (after samples).dumpTaskstat sample := by
        rw [after, List.foldl_append]
        rfl
      constructor
      · intro pid isPid
        rw [last, entryAt_dumpTaskstat isPid, entries pid isPid,
          sampleAspects.lastKey_append_singleton]
        exact if_congr eq_comm rfl rfl
      · rw [last, sampleAspects.kept_append_singleton]
        have isEntry := entries _ sample.acPid_nonneg
        by_cases same : sampleAspects.key sample =
            sampleAspects.lastKey samples (sampleAspects.owner sample)
        · rw [dumpTaskstat_of_same (same.trans isEntry.symm), if_pos same, lines]
        · rw [dumpTaskstat_of_ne fun still => same (still.trans isEntry), if_neg same, lines]

/-- The log tells every sample that is skipped if and only if the sums tell the samples. -/
theorem tellsSkipped_iff_sumsTell (samples : List Sample) :
    TellsSkipped samples ↔ SumsTell samples := by
  rw [SumsTell, ← sampleAspects.tellsSkipped_iff]
  apply forall₃_congr
  intro done sample _
  obtain ⟨entries, lines⟩ := after_eq done
  rw [skips_iff, entries _ sample.acPid_nonneg, tells_iff, lines, sampleAspects.keys_recorded]
  rfl

/-- Two samples of process 7. A thread that ran for two nanoseconds has exited in between, and
the process has waited for a device as long. -/
def threadGone : List Sample :=
  [{ ts :=
      { acPid := 7
        acPpid := 1
        acComm := [115, 104]
        cpuRunRealTotal := 5
        blkioDelayTotal := 0
        swapinDelayTotal := 0 }
     curPpid := 1
     acPid_nonneg := by decide },
   { ts :=
      { acPid := 7
        acPpid := 1
        acComm := [115, 104]
        cpuRunRealTotal := 3
        blkioDelayTotal := 2
        swapinDelayTotal := 0 }
     curPpid := 1
     acPid_nonneg := by decide }]

/-- The second sample is skipped, and the line of the first has other times. -/
theorem not_tellsSkipped_threadGone : ¬TellsSkipped threadGone := by
  intro tells
  have second := tells [threadGone[0]] threadGone[1] (List.prefix_refl _)
    (skips_iff.mpr (by decide +kernel))
  have changed : threadGone[0].entry ≠ entryAt fresh.pids threadGone[0].ts.acPid := by
    decide +kernel
  have first : (after [threadGone[0]]).written = [threadGone[0]] :=
    congrArg TaskstatLog.written (dumpTaskstat_of_ne changed)
  rw [Tells, first] at second
  have sameTimes : threadGone[0].content = threadGone[1].content := second
  exact absurd sameTimes (by decide +kernel)

end TaskstatLog

/-! ## The sampling loop -/

section

variable {σ : Type} {scanner : PidScanner σ} {kernel : Kernel}

/-- The table stands for the entries of a sweep, and the log goes on behind some text. -/
structure Agrees (before : Bytes) (logged : TaskstatLog) (sampled : Sampled σ) : Prop where
  /-- The entries are in the table. -/
  entries : ∀ pid, 0 ≤ pid → entryAt logged.pids pid = sampled.entries pid
  /-- The lines of the sweep are the last ones. -/
  log : before ++ sampled.log = logged.text

/-- A sample comes to both. -/
theorem agrees_writeTaskstat
    {before : Bytes}
    {logged : TaskstatLog}
    {sampled : Sampled σ}
    (agrees : Agrees before logged sampled)
    {sample : Sample}
    (isParent : sample.curPpid = scanner.getCurPpid sampled.state) :
    Agrees before (logged.dumpTaskstat sample)
      (writeTaskstat scanner sampled (some sample.ts)) := by
  have isEntry := agrees.entries _ sample.acPid_nonneg
  rw [writeTaskstat]
  by_cases same : sample.entry = entryAt logged.pids sample.ts.acPid
  · rw [if_pos ((sameEntry_iff _ sample).mpr (same.trans isEntry))]
    refine ⟨fun pid isPid => ?_, ?_⟩
    · rw [TaskstatLog.entryAt_dumpTaskstat isPid, ← agrees.entries pid isPid]
      split
      next isOwner => rw [same, isOwner]
      next => rfl
    · rw [agrees.log, TaskstatLog.skips_iff.mpr same]
  · rw [if_neg fun still => same (((sameEntry_iff _ sample).mp still).trans isEntry.symm)]
    refine ⟨fun pid isPid => ?_, ?_⟩
    · rw [TaskstatLog.entryAt_dumpTaskstat isPid, agrees.entries pid isPid]
      exact (Function.update_apply _ _ _ _).symm
    · rw [TaskstatLog.dumpTaskstat_of_ne same, TaskstatLog.text, List.flatMap_append,
        List.flatMap_singleton, ← TaskstatLog.text, ← agrees.log, List.append_assoc, Sample.line,
        isParent]

/-- A thread does not change the process of the sums. -/
theorem acPid_addTask (tgits : Taskstats) (tpid : Pid) :
    (addTask kernel tgits tpid).acPid = tgits.acPid := by
  rw [addTask]
  cases getTaskstats kernel tpid <;> rfl

/-- The threads do not change the process of the sums. -/
theorem acPid_tasksLoop
    {fuel : Nat}
    {state next : σ}
    {tgits sums : Taskstats}
    {tasks : List Pid}
    (ran : tasksLoop scanner kernel fuel state tgits = some (sums, tasks, next)) :
    sums.acPid = tgits.acPid := by
  induction fuel generalizing state tgits tasks with
  | zero => cases ran
  | succ fuel inductionHypothesis =>
      rw [tasksLoop] at ran
      split at ran
      split at ran
      next =>
        cases ran
        rfl
      next =>
        obtain ⟨⟨rest, tasks, last⟩, ranRest, same⟩ := Option.map_eq_some_iff.mp ran
        cases same
        rw [inductionHypothesis ranRest, acPid_addTask]

/-- Statistics are those of a process for which the kernel answers. -/
theorem acPid_getTgidTaskstats
    {fuel : Nat}
    {state next : σ}
    {ts : Taskstats}
    {requested : Requests}
    (ran : getTgidTaskstats scanner kernel fuel state = some (some ts, requested, next)) :
    (kernel ts.acPid).isSome := by
  rw [getTgidTaskstats] at ran
  split at ran
  next => cases ran
  next leader answer =>
    obtain ⟨⟨sums, tasks, last⟩, ranTasks, same⟩ := Option.map_eq_some_iff.mp ran
    cases same
    obtain ⟨answered, isLeader⟩ := Option.filter_eq_some_iff.mp answer
    rw [acPid_tasksLoop ranTasks, of_decide_eq_true isLeader, answered]
    rfl

/-- The sampling loop brings samples to the log, for a kernel that has no processes with negative
numbers. -/
theorem exists_samples_sampleLoop
    (numbered : ∀ pid, (kernel pid).isSome → 0 ≤ pid)
    {before : Bytes}
    {logged : TaskstatLog}
    {sampled result : Sampled σ}
    (agrees : Agrees before logged sampled)
    {fuel : Nat}
    (ran : sampleLoop scanner kernel fuel sampled = some result) :
    ∃ samples : List Sample,
      Agrees before (samples.foldl TaskstatLog.dumpTaskstat logged) result := by
  induction fuel generalizing logged sampled with
  | zero => cases ran
  | succ fuel inductionHypothesis =>
      rw [sampleLoop] at ran
      split at ran
      split at ran
      next =>
        cases ran
        exact ⟨[], agrees.entries, agrees.log⟩
      next =>
        obtain ⟨next, dumped, ranRest⟩ := Option.bind_eq_some_iff.mp ran
        obtain ⟨⟨ts, requested, state⟩, answered, rfl⟩ := Option.map_eq_some_iff.mp dumped
        cases ts with
        | none =>
            have same : Agrees before logged
                { sampled with
                  state := state
                  requests := sampled.requests ++ [requested] } :=
              ⟨agrees.entries, agrees.log⟩
            exact inductionHypothesis same ranRest
        | some ts =>
            let sample : Sample :=
              { ts := ts
                curPpid := scanner.getCurPpid state
                acPid_nonneg := numbered _ (acPid_getTgidTaskstats answered) }
            have asked : Agrees before logged
                { sampled with
                  state := state
                  requests := sampled.requests ++ [requested] } :=
              ⟨agrees.entries, agrees.log⟩
            have written : Agrees before (logged.dumpTaskstat sample) _ :=
              agrees_writeTaskstat asked rfl
            obtain ⟨samples, agreesRest⟩ := inductionHypothesis written ranRest
            exact ⟨sample :: samples, agreesRest⟩

end

end Collector
end Bootchart
