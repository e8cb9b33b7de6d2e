import Bootchart.Collector.ProcessLog
import Bootchart.Library.Accumulated
import Bootchart.Parsing.TaskstatsTotals

/-!
# What the processes used

The collector skips samples and the reader makes several processes of one that changes its name,
and neither loses anything: at any time the samples that were read of a pid add up to the totals
that the kernel has told last.
-/

namespace Bootchart
namespace Parsing

open Library (Text Dict Aspects)
open Collector (Sample Turn TaskstatLog dumpSamples framesFrom printedFrame processLog sampled)

/-! ## Equal sums -/

namespace Counter

/-- The counter in the statistics of a process. -/
def told (counter : Counter) (sample : Sample) : BitVec 64 :=
  match counter with
  | cpu => sample.ts.cpuRunRealTotal
  | blkio => sample.ts.blkioDelayTotal
  | swapin => sample.ts.swapinDelayTotal

end Counter

/-- No counter is more than in another sample. -/
def NoneAbove (first second : Sample) : Prop :=
  ∀ counter : Counter, (counter.told first).toNat ≤ (counter.told second).toNat

/-- The sum of the counters is a number of 64 bits. -/
def FitsSum (sample : Sample) : Prop :=
  (Counter.cpu.told sample).toNat + (Counter.blkio.told sample).toNat +
    (Counter.swapin.told sample).toNat < 2 ^ 64

/-- Samples are compared by their entries, and tell their counters. -/
def counterAspects : Aspects Sample Collector.Pid Collector.PidEntry (Counter → BitVec 64) where
  owner sample := sample.ts.acPid
  key := Sample.entry
  start := Collector.PidEntry.zero
  content sample counter := counter.told sample
  Empty := Sample.Idle

/-- The sum of a sample without overflow. -/
theorem toNat_timeTotal {sample : Sample} (fits : FitsSum sample) :
    sample.entry.timeTotal.toNat = (Counter.cpu.told sample).toNat +
      (Counter.blkio.told sample).toNat + (Counter.swapin.told sample).toNat := by
  rw [FitsSum] at fits
  change (Counter.cpu.told sample + Counter.blkio.told sample +
    Counter.swapin.told sample).toNat = _
  rw [BitVec.toNat_add, BitVec.toNat_add]
  omega

/-- Equal sums of counters of which none decreased are sums of equal counters. -/
theorem told_eq_of_sameSum
    {first second : Sample}
    (fitsFirst : FitsSum first)
    (fitsSecond : FitsSum second)
    (noneAbove : NoneAbove first second)
    (sameSum : second.entry.timeTotal = first.entry.timeTotal)
    (counter : Counter) : counter.told first = counter.told second := by
  have sums := congrArg BitVec.toNat sameSum
  rw [toNat_timeTotal fitsFirst, toNat_timeTotal fitsSecond] at sums
  have cpu := noneAbove .cpu
  have blkio := noneAbove .blkio
  have swapin := noneAbove .swapin
  apply BitVec.eq_of_toNat_eq
  cases counter <;> omega

/-- A sum is zero if all its counters are. -/
theorem idle_of_sum_zero {sample : Sample} (fits : FitsSum sample)
    (isZero : sample.entry.timeTotal = 0) : sample.Idle := by
  have sum := toNat_timeTotal fits
  have none : ∀ counter : Counter, counter.told sample = 0 := by
    intro counter
    apply BitVec.eq_of_toNat_eq
    rw [isZero] at sum
    have zero : (0 : BitVec 64).toNat = 0 := rfl
    cases counter <;> omega
  exact ⟨none .cpu, none .blkio, none .swapin⟩

/-- If no counter decreases and no sum overflows, sums tell the counters. -/
theorem keysTell_counters
    {samples : List Sample}
    (fits : ∀ sample ∈ samples, FitsSum sample)
    (grows : ∀ pid, (samples.filter (·.ts.acPid = pid)).Pairwise NoneAbove) :
    counterAspects.KeysTell samples := by
  intro done sample isPrefix sameKey
  have inSamples : ∀ other ∈ done ++ [sample], other ∈ samples := fun _ member =>
    isPrefix.subset member
  have fitsHere := fits sample (inSamples sample (by simp))
  constructor
  · intro unstarted
    rw [counterAspects.lastKey_of_unstarted unstarted] at sameKey
    exact idle_of_sum_zero fitsHere (congrArg Collector.PidEntry.timeTotal sameKey)
  · intro started
    rw [Aspects.lastKey] at sameKey
    cases isLast : counterAspects.last done (counterAspects.owner sample) with
    | none =>
        have noneBefore : done.filter (counterAspects.owner · = counterAspects.owner sample) = [] :=
          List.getLast?_eq_none_iff.mp isLast
        refine absurd (fun other member same => ?_) started
        have inFilter : other ∈ done.filter (counterAspects.owner · = counterAspects.owner sample) :=
          List.mem_filter.mpr ⟨member, decide_eq_true same⟩
        rw [noneBefore] at inFilter
        exact absurd inFilter List.not_mem_nil
    | some other =>
        obtain ⟨member, sameOwner⟩ := counterAspects.mem_of_last isLast
        have related : NoneAbove other sample := by
          have both := (grows sample.ts.acPid).sublist (isPrefix.sublist.filter _)
          rw [List.filter_append, List.pairwise_append] at both
          exact both.2.2 other (List.mem_filter.mpr ⟨member, decide_eq_true sameOwner⟩) sample
            (by simp)
        have fitsOther := fits other (inSamples other (List.mem_append_left _ member))
        rw [isLast] at sameKey
        have sameSum : sample.entry.timeTotal = other.entry.timeTotal :=
          congrArg Collector.PidEntry.timeTotal sameKey
        rw [Option.map_some]
        apply congrArg some
        funext counter
        exact told_eq_of_sameSum fitsOther fitsHere related sameSum counter

/-- What was told last of a counter of a process, zero if nothing was. -/
def lastTold (counter : Counter) (pid : Collector.Pid) (samples : List Sample) : Nat :=
  (((samples.filter (·.ts.acPid = pid)).getLast?.map counter.told).getD 0).toNat

/-- Samples that are skipped change nothing of what was told last. -/
theorem lastTold_written
    {samples : List Sample}
    (fits : ∀ sample ∈ samples, FitsSum sample)
    (grows : ∀ pid, (samples.filter (·.ts.acPid = pid)).Pairwise NoneAbove)
    (counter : Counter)
    (pid : Collector.Pid) :
    lastTold counter pid (dumpSamples [] samples).written = lastTold counter pid samples := by
  have areKept : (dumpSamples [] samples).written = (counterAspects.recorded samples).kept :=
    (TaskstatLog.after_eq samples).2
  have standsFor := counterAspects.standsFor_recorded (keysTell_counters fits grows)
  rw [← areKept] at standsFor
  obtain ⟨none_iff, sameContent⟩ := standsFor pid
  change (((counterAspects.last (dumpSamples [] samples).written pid).map counter.told).getD
    0).toNat = (((counterAspects.last samples pid).map counter.told).getD 0).toNat
  apply congrArg BitVec.toNat
  cases isLast : counterAspects.last (dumpSamples [] samples).written pid with
  | none =>
      have unstarted := none_iff.mp isLast
      cases isLastTold : counterAspects.last samples pid with
      | none => rfl
      | some sample =>
          obtain ⟨member, same⟩ := counterAspects.mem_of_last isLastTold
          have isZero : sample.entry = Collector.PidEntry.zero := unstarted sample member same
          obtain ⟨cpu, blkio, swapin⟩ := idle_of_sum_zero (fits sample member)
            (congrArg Collector.PidEntry.timeTotal isZero)
          cases counter with
          | cpu => exact cpu.symm
          | blkio => exact blkio.symm
          | swapin => exact swapin.symm
  | some other =>
      have sameLast := sameContent other isLast
      cases isLastTold : counterAspects.last samples pid with
      | none =>
          rw [isLastTold] at sameLast
          cases sameLast
      | some sample =>
          rw [isLastTold, Option.map_some, Option.some_inj] at sameLast
          exact (congrFun sameLast counter).symm

/-! ## The lines of the log -/

/-- The record of the line of a sample. -/
def recordOf (sample : Sample) : TaskstatRecord :=
  lineRecord (sample.ts, sample.printedPpid) (nameOf (sample.ts, sample.printedPpid))

/-- The records of frames. -/
def linesOf (frames : List (Int × List Sample)) : List TimedRecord :=
  timedRecords (frames.map fun frame => (frame.1, frame.2.map recordOf))

/-- The records of frames without their times. -/
theorem map_snd_linesOf (frames : List (Int × List Sample)) :
    (linesOf frames).map Prod.snd = (frames.flatMap Prod.snd).map recordOf := by
  induction frames with
  | nil => rfl
  | cons frame frames inductionHypothesis =>
      have first : linesOf (frame :: frames) =
          (frame.2.map recordOf).map (fun record => (frame.1, record)) ++ linesOf frames := by
        rw [linesOf, timedRecords, List.map_cons, List.flatMap_cons]
        rfl
      rw [first, List.map_append, inductionHypothesis, List.flatMap_cons, List.map_append,
        List.map_map]
      apply congrArg (· ++ _)
      exact List.map_id _

/-- The totals of a pid do not depend on the times. -/
theorem totalsOf_eq (counter : Counter) (pid : Int) (lines : List TimedRecord) :
    totalsOf counter pid lines =
      ((lines.map Prod.snd).filter (·.opid = pid)).map counter.logged := by
  rw [totalsOf, List.filter_map, List.map_map]
  rfl

/-- The names of a pid do not depend on the times. -/
theorem loggedNames_eq (pid : Int) (lines : List TimedRecord) :
    loggedNames pid lines = ((lines.map Prod.snd).filter (·.opid = pid)).map (·.cmd) := by
  rw [loggedNames, List.filter_map, List.map_map]
  rfl

/-- The records of a process. -/
theorem filter_map_recordOf (pid : Int) (samples : List Sample) :
    (samples.map recordOf).filter (·.opid = pid) =
      (samples.filter (·.ts.acPid = pid)).map recordOf :=
  List.filter_map

/-- A total that can be written is written as it is. -/
theorem logged_recordOf {sample : Sample} (writable : Writable sample.ts) (counter : Counter) :
    counter.logged (recordOf sample) = (counter.told sample).toNat := by
  cases counter with
  | cpu => exact toInt_eq_toNat writable.cpu_nonneg
  | blkio => exact toInt_eq_toNat writable.blkio_nonneg
  | swapin => exact toInt_eq_toNat writable.swapin_nonneg

/-- The totals of a process in the lines of frames. -/
theorem totalsOf_linesOf
    {frames : List (Int × List Sample)}
    (writable : ∀ sample ∈ frames.flatMap Prod.snd, Writable sample.ts)
    (counter : Counter)
    (pid : Int) :
    totalsOf counter pid (linesOf frames) =
      ((frames.flatMap Prod.snd).filter (·.ts.acPid = pid)).map fun sample =>
        ((counter.told sample).toNat : Int) := by
  rw [totalsOf_eq, map_snd_linesOf, filter_map_recordOf, List.map_map]
  apply List.map_congr_left
  intro sample member
  exact logged_recordOf (writable sample (List.mem_of_mem_filter member)) counter

/-- The last total in the lines of frames is what was told last. -/
theorem lastTotal_linesOf
    {frames : List (Int × List Sample)}
    (writable : ∀ sample ∈ frames.flatMap Prod.snd, Writable sample.ts)
    (counter : Counter)
    (pid : Int) :
    lastTotal counter pid (linesOf frames) = lastTold counter pid (frames.flatMap Prod.snd) := by
  rw [lastTotal, totalsOf_linesOf writable, List.getLast?_map, lastTold]
  cases ((frames.flatMap Prod.snd).filter (·.ts.acPid = pid)).getLast? <;> rfl

/-! ## Fewer names -/

/-- Neighbours do not differ more often if elements are left out. -/
theorem changes_le_of_sublist {first second : List Text} (sublist : first.Sublist second) :
    changes first ≤ changes second := by
  suffices both : changes first ≤ changes second ∧
      ∀ name, changes (name :: first) ≤ changes (name :: second) from both.1
  induction sublist with
  | slnil => exact ⟨Nat.le_refl _, fun _ => Nat.le_refl _⟩
  | @cons first second left sublist inductionHypothesis =>
      have more : ∀ names, changes names ≤ changes (left :: names) := by
        intro names
        cases names with
        | nil => exact Nat.le_refl _
        | cons other names => exact Nat.le_add_left _ _
      have between : ∀ name, changes (name :: second) ≤ changes (name :: left :: second) := by
        intro name
        cases second with
        | nil => exact Nat.zero_le _
        | cons other second =>
            simp only [changes]
            by_cases same : name = left
            · rw [if_pos same, same, Nat.zero_add]
            · rw [if_neg same]
              split <;> omega
      exact ⟨inductionHypothesis.1.trans (more second), fun name =>
        (inductionHypothesis.2 name).trans (between name)⟩
  | cons_cons both sublist inductionHypothesis =>
      exact ⟨inductionHypothesis.2 both, fun name =>
        Nat.add_le_add_left (inductionHypothesis.2 both) _⟩

/-! ## What is read -/

/-- What the processes under the keys of a pid used up to a time. -/
def usedUntil (counter : Counter) (pid time : Int) (processMap : Dict Int Process) : ℚ :=
  processMap.sum fun key process =>
    if key / 1000 = pid then
      Library.accumulated ProcessSample.time counter.sampled process.samples time
    else 0

/-- The processes of the reader. -/
def TaskstatState.processes (state : TaskstatState) : Dict Int Process :=
  state.processMap.mapValues fun _ entry => entry.process

section Step

variable {state : TaskstatState} {line : TimedRecord} {done : List TimedRecord}

/-- The samples behind a line. -/
theorem samples_advanced :
    (state.advanced line).process.samples = (state.target line).process.samples ++
      (taskstatSample line.1 (state.target line).process line.2).toList := rfl

/-- A process that is new has no samples. -/
theorem samples_target_of_none
    (isNew : state.processMap.get? (state.keyAfter line) = none) :
    (state.target line).process.samples = [] := by
  cases state.effect line with
  | created _ _ target _ => rw [target]; rfl
  | continued entry present _ keyAfter _ _ =>
      rw [keyAfter, present] at isNew
      cases isNew
  | renamed _ _ _ _ target _ => rw [target]; rfl

/-- A line adds its sample to those of its pid. -/
theorem usedUntil_next
    (regular : Regular done state)
    (few : ∀ opid, nameChanges opid (done ++ [line]) < 1000)
    (counter : Counter)
    (pid time : Int) :
    usedUntil counter pid time (state.next line).processes =
      usedUntil counter pid time state.processes +
        if line.2.opid = pid then
          Library.accumulated ProcessSample.time counter.sampled
            (taskstatSample line.1 (state.target line).process line.2).toList time
        else 0 := by
  have before : nameChanges line.2.opid done < 1000 :=
    Nat.lt_of_le_of_lt (nameChanges_le _) (few line.2.opid)
  have fewHere := few line.2.opid
  have isKey := regular.keyAfter_eq before
  have ownPid : state.keyAfter line / 1000 = line.2.opid := by omega
  have vacant := regular.vacant fewHere
  have replaced := state.processMap.sum_set (state.keyAfter line) (state.advanced line)
    fun key entry => if key / 1000 = pid then
      Library.accumulated ProcessSample.time counter.sampled entry.process.samples (time : ℚ)
    else 0
  rw [usedUntil, usedUntil, TaskstatState.processes, TaskstatState.processes,
    Dict.sum_mapValues, Dict.sum_mapValues, TaskstatState.processMap_next]
  cases present : state.processMap.get? (state.keyAfter line) with
  | none =>
      rw [present, ownPid, samples_advanced, samples_target_of_none present] at replaced
      rw [Option.map_none, Option.getD_none, add_zero, List.nil_append] at replaced
      exact replaced
  | some entry =>
      rw [present, ownPid, samples_advanced, target_of_get? vacant present,
        Library.accumulated_append, Option.map_some, Option.getD_some] at replaced
      rw [target_of_get? vacant present]
      split at replaced
      next same => rw [if_pos same]; linarith
      next different => rw [if_neg different]; linarith

/-- A sample has the time of its line. -/
theorem accumulated_sample (counter : Counter) (time : Int) :
    Library.accumulated ProcessSample.time counter.sampled
        (taskstatSample line.1 (state.target line).process line.2).toList (time : ℚ) =
      if line.1 ≤ time then added counter state line else 0 := by
  rw [added]
  cases isSample : taskstatSample line.1 (state.target line).process line.2 with
  | none =>
      rw [Option.map_none, Option.getD_none, ite_self]
      rfl
  | some sample =>
      have isTime : sample.time = (line.1 : ℚ) := by
        rw [taskstatSample] at isSample
        split at isSample
        · cases isSample
          rfl
        · cases isSample
      rw [Library.accumulated, Option.toList_some, List.filter_singleton, isTime]
      by_cases atMost : line.1 ≤ time
      · have atMostAsTime : (line.1 : ℚ) ≤ time := Int.cast_le.mpr atMost
        rw [if_pos atMost, decide_eq_true atMostAsTime]
        exact add_zero _
      · have notAsTime : ¬(line.1 : ℚ) ≤ time := fun still => atMost (Int.cast_le.mp still)
        rw [if_neg atMost, decide_eq_false notAsTime]
        rfl

/-- The lines up to a time make the samples up to that time. -/
theorem usedUntil_afterLines
    {done : List TimedRecord}
    (few : ∀ opid, nameChanges opid done < 1000)
    (never : ∀ opid, NeverDecrease opid done)
    (times : done.Pairwise fun first second => first.1 ≤ second.1)
    (counter : Counter)
    (pid time : Int) :
    usedUntil counter pid time (afterLines done).processes =
      lastTotal counter pid (done.filter (·.1 ≤ time)) := by
  induction done using List.reverseRecOn with
  | nil =>
      change usedUntil counter pid time (TaskstatState.init).processes = 0
      rw [usedUntil, TaskstatState.processes, Dict.sum_mapValues]
      change (if (1000 : Int) / 1000 = pid then _ else 0) + 0 = 0
      rw [add_zero]
      split <;> rfl
  | append_singleton done line inductionHypothesis =>
      have fewBefore : ∀ opid, nameChanges opid done < 1000 := fun opid =>
        Nat.lt_of_le_of_lt (nameChanges_le opid) (few opid)
      have neverBefore : ∀ opid, NeverDecrease opid done := fun opid => (never opid).before
      have telescoped := telescoped_afterLines fewBefore neverBefore
      rw [List.pairwise_append] at times
      rw [afterLines_concat, usedUntil_next telescoped.regular few,
        inductionHypothesis fewBefore neverBefore times.1, List.filter_append]
      rcases le_or_gt line.1 time with atMost | later
      · -- All lines before this one count as well.
        have all : done.filter (·.1 ≤ time) = done := by
          rw [List.filter_eq_self]
          intro other member
          exact decide_eq_true ((times.2.2 other member line (by simp)).trans atMost)
        have isShown : [line].filter (·.1 ≤ time) = [line] := by simp [atMost]
        rw [all, isShown, lastTotal_concat]
        split
        next same =>
          subst same
          have remembers : ∀ other : Counter,
              other.remembered ((afterLines done).target line).process =
                lastTotal other line.2.opid done := telescoped.remembered_target
          have atLeast : ∀ other : Counter,
              other.remembered ((afterLines done).target line).process ≤
                other.logged line.2 :=
            fun other => (remembers other).trans_le ((never line.2.opid).lastTotal_le other)
          rw [accumulated_sample, if_pos atMost, added_eq counter atLeast, remembers]
          ring
        next => exact add_zero _
      · have isHidden : [line].filter (·.1 ≤ time) = [] := by simp [later]
        rw [isHidden, List.append_nil, accumulated_sample, if_neg (not_le.mpr later), ite_self,
          add_zero]

end Step

/-! ## Whole logs -/

/-- The names told of a process, in order. The process 1 is called `[init]` at first. -/
def namesTold (pid : Int) (samples : List Sample) : List Text :=
  (if pid = 1 then [initEntry.process.cmd] else []) ++
    (samples.filter (·.ts.acPid = pid)).map fun sample => (recordOf sample).cmd

/-- The kernel accounts for the processes: its clock and its counters do not go back. -/
structure Accountable (turns : List Turn) : Prop where
  /-- The time does not go back. -/
  times : turns.Pairwise fun first second => first.time ≤ second.time
  /-- The lines can be read. -/
  readable : ∀ sample ∈ sampled turns, Writable sample.ts ∧ PlainName sample.ts.acComm
  /-- The counters are small. -/
  fits : ∀ sample ∈ sampled turns, FitsSum sample
  /-- The counters of a process do not decrease. -/
  grows : ∀ pid, ((sampled turns).filter (·.ts.acPid = pid)).Pairwise NoneAbove
  /-- No process changes its name a thousand times. -/
  few : ∀ pid, changes (namesTold pid (sampled turns)) < 1000

section Log

variable {turns : List Turn}

/-- What is written was told. -/
theorem sublist_sampled (turns : List Turn) :
    ((framesFrom [] turns).flatMap Prod.snd).Sublist (sampled turns) := by
  rw [Collector.flatMap_framesFrom]
  exact Collector.written_sublist [] (sampled turns)

/-- The log is read line by line. -/
theorem taskstatRecords_processLog (accountable : Accountable turns) :
    taskstatRecords (processLog turns) =
      .ok ((framesFrom [] turns).map fun frame => (frame.1, frame.2.map recordOf)) := by
  have written : ∀ frame ∈ framesFrom [] turns, ∀ sample ∈ frame.2, sample ∈ sampled turns :=
    fun frame inLog sample inFrame => (sublist_sampled turns).subset
      (List.mem_flatMap.mpr ⟨frame, inLog, inFrame⟩)
  have named : ∀ sample ∈ sampled turns,
      Library.Utf8.decode sample.ts.acComm =
        some (nameOf (sample.ts, sample.printedPpid)) ∧
        ' ' ∉ nameOf (sample.ts, sample.printedPpid) := by
    intro sample member
    obtain ⟨name, encoded, noSpace, -⟩ := (accountable.readable sample member).2
    have decoded := Library.Utf8.decode_eq_some.mpr encoded
    have isName : nameOf (sample.ts, sample.printedPpid) = name := by
      rw [nameOf, decoded]
      rfl
    rw [isName]
    exact ⟨decoded, noSpace⟩
  have ofPrinted : ∀ frame ∈ (framesFrom [] turns).map printedFrame, ∀ line ∈ frame.2,
      ∃ sample ∈ sampled turns, line = (sample.ts, sample.printedPpid) := by
    intro frame inLog line inFrame
    obtain ⟨frame, inFrames, rfl⟩ := List.mem_map.mp inLog
    obtain ⟨sample, inSamples, rfl⟩ := List.mem_map.mp inFrame
    exact ⟨sample, written frame inFrames sample inSamples, rfl⟩
  rw [Collector.processLog_eq, taskstatRecords_eq]
  · rw [List.map_map]
    apply congrArg Except.ok
    apply List.map_congr_left
    intro frame inLog
    have keepsAll : (frame.2.map fun sample => (sample.ts, sample.printedPpid)).filter
        (fun line => ' ' ∉ nameOf line) =
          frame.2.map fun sample => (sample.ts, sample.printedPpid) := by
      rw [List.filter_eq_self]
      intro line inFrame
      obtain ⟨sample, inSamples, rfl⟩ := List.mem_map.mp inFrame
      exact decide_eq_true (named sample (written frame inLog sample inSamples)).2
    rw [Function.comp_apply, printedFrame, readFrame, keepsAll, List.map_map]
    rfl
  · intro frame inLog line inFrame
    obtain ⟨sample, member, rfl⟩ := ofPrinted frame inLog line inFrame
    exact (accountable.readable sample member).1
  · intro frame inLog line inFrame
    obtain ⟨sample, member, rfl⟩ := ofPrinted frame inLog line inFrame
    exact (named sample member).1

/-- The time of a line is one of the times. -/
theorem exists_of_mem_linesOf
    {pids : List Collector.PidEntry}
    {line : TimedRecord}
    (member : line ∈ linesOf (framesFrom pids turns)) :
    ∃ turn ∈ turns, line.1 = turn.time := by
  obtain ⟨frame, inFrames, inFrame⟩ := List.mem_flatMap.mp member
  obtain ⟨record, -, rfl⟩ := List.mem_map.mp inFrame
  obtain ⟨original, inTurns, rfl⟩ := List.mem_map.mp inFrames
  have isTime : original.1 ∈ (framesFrom pids turns).map Prod.fst := List.mem_map_of_mem inTurns
  rw [Collector.map_fst_framesFrom] at isTime
  obtain ⟨turn, inLog, same⟩ := List.mem_map.mp isTime
  exact ⟨turn, inLog, same.symm⟩

/-- The lines are in the order of their times. -/
theorem pairwise_linesOf
    {frames : List (Int × List Sample)}
    (times : (frames.map Prod.fst).Pairwise (· ≤ ·)) :
    (linesOf frames).Pairwise fun first second => first.1 ≤ second.1 := by
  rw [linesOf, timedRecords, List.flatMap_map, List.pairwise_flatMap]
  constructor
  · intro frame _
    rw [List.pairwise_map]
    exact List.pairwise_of_forall fun _ _ => le_rfl
  · rw [List.pairwise_map] at times
    apply times.imp
    intro first second atMost line inFirst other inSecond
    obtain ⟨_, -, rfl⟩ := List.mem_map.mp inFirst
    obtain ⟨_, -, rfl⟩ := List.mem_map.mp inSecond
    exact atMost

/-- What is written are samples that were told. -/
theorem writable_written (accountable : Accountable turns) :
    ∀ sample ∈ (framesFrom [] turns).flatMap Prod.snd, Writable sample.ts := fun sample member =>
  (accountable.readable sample ((sublist_sampled turns).subset member)).1

/-- No pid of the log changes its name a thousand times. -/
theorem nameChanges_linesOf (accountable : Accountable turns) (pid : Int) :
    nameChanges pid (linesOf (framesFrom [] turns)) < 1000 := by
  apply Nat.lt_of_le_of_lt _ (accountable.few pid)
  rw [nameChanges, namesOf, loggedNames_eq, map_snd_linesOf, filter_map_recordOf, List.map_map,
    namesTold]
  exact changes_le_of_sublist
    ((List.Sublist.refl _).append (((sublist_sampled turns).filter _).map _))

/-- No counter of the log decreases. -/
theorem neverDecrease_linesOf (accountable : Accountable turns) (pid : Int) :
    NeverDecrease pid (linesOf (framesFrom [] turns)) := by
  have totals := fun counter : Counter =>
    totalsOf_linesOf (writable_written accountable) counter pid
  constructor
  · intro counter total member
    rw [totals] at member
    obtain ⟨sample, -, rfl⟩ := List.mem_map.mp member
    exact Int.natCast_nonneg _
  · intro counter
    rw [totals, List.pairwise_map]
    exact ((accountable.grows pid).sublist ((sublist_sampled turns).filter _)).imp
      fun noneAbove => Int.ofNat_le.mpr (noneAbove counter)

/-- The beginning of turns that are accounted for. -/
theorem Accountable.front {back : List Turn} (accountable : Accountable (turns ++ back)) :
    Accountable turns := by
  have all : sampled (turns ++ back) = sampled turns ++ sampled back := List.flatMap_append
  have inAll : ∀ sample ∈ sampled turns, sample ∈ sampled (turns ++ back) := by
    intro sample member
    rw [all]
    exact List.mem_append_left _ member
  have sublist : (sampled turns).Sublist (sampled (turns ++ back)) := by
    rw [all]
    exact List.sublist_append_left _ _
  refine ⟨(List.pairwise_append.mp accountable.times).1,
    fun sample member => accountable.readable sample (inAll sample member),
    fun sample member => accountable.fits sample (inAll sample member),
    fun pid => (accountable.grows pid).sublist (sublist.filter _), fun pid => ?_⟩
  exact Nat.lt_of_le_of_lt (changes_le_of_sublist
    ((List.Sublist.refl _).append ((sublist.filter _).map _))) (accountable.few pid)

/-- The last totals of the lines up to a time are those told last up to then. -/
theorem lastTotal_processLog
    (accountable : Accountable turns)
    (counter : Counter)
    (pid time : Int) :
    lastTotal counter pid ((linesOf (framesFrom [] turns)).filter (·.1 ≤ time)) =
      lastTold counter pid (sampled (turns.filter fun turn => (turn.time : Int) ≤ time)) := by
  have sorted : turns.Pairwise fun first second => (first.time : Int) ≤ second.time :=
    accountable.times.imp Int.ofNat_le.mpr
  obtain ⟨front, back, rfl, inFront, inBack⟩ := Library.exists_append_of_sorted sorted time
  have keepsFront : (front ++ back).filter (fun turn => (turn.time : Int) ≤ time) = front := by
    rw [List.filter_append, List.filter_eq_self.mpr fun turn member =>
        decide_eq_true (inFront turn member),
      List.filter_eq_nil_iff.mpr fun turn member => by simpa using inBack turn member,
      List.append_nil]
  have lines : (linesOf (framesFrom [] (front ++ back))).filter (·.1 ≤ time) =
      linesOf (framesFrom [] front) := by
    have split : ∀ first second : List (Int × List Sample),
        linesOf (first ++ second) = linesOf first ++ linesOf second := by
      intro first second
      rw [linesOf, List.map_append, timedRecords, List.flatMap_append]
      rfl
    rw [Collector.framesFrom_append, split, List.filter_append]
    have kept : (linesOf (framesFrom [] front)).filter (·.1 ≤ time) =
        linesOf (framesFrom [] front) := by
      rw [List.filter_eq_self]
      intro line member
      obtain ⟨turn, inTurns, same⟩ := exists_of_mem_linesOf member
      exact decide_eq_true (same ▸ inFront turn inTurns)
    have left : ∀ pids, (linesOf (framesFrom pids back)).filter (·.1 ≤ time) = [] := by
      intro pids
      rw [List.filter_eq_nil_iff]
      intro line member
      obtain ⟨turn, inTurns, same⟩ := exists_of_mem_linesOf member
      rw [decide_eq_true_eq, same]
      exact not_le.mpr (inBack turn inTurns)
    rw [kept, left, List.append_nil]
  have accountableFront := accountable.front
  rw [lines, keepsFront, lastTotal_linesOf (writable_written accountableFront),
    Collector.flatMap_framesFrom,
    lastTold_written accountableFront.fits accountableFront.grows]

/-- However samples are skipped and processes change their names, at any time the samples of a pid
add up to what the kernel has told last of each counter. -/
theorem usedUntil_processLog
    (accountable : Accountable turns)
    (several : 2 ≤ turns.length) :
    ∃ stats, parseTaskstatsLog (processLog turns) = .ok (some stats) ∧
      stats.sampleCount = turns.length ∧
      ∀ (counter : Counter) (pid time : Int), usedUntil counter pid time stats.processMap =
        lastTold counter pid (sampled (turns.filter fun turn => (turn.time : Int) ≤ time)) := by
  let frames := (framesFrom [] turns).map fun frame => (frame.1, frame.2.map recordOf)
  have sameLength : frames.length = turns.length := by
    have lengths := congrArg List.length (Collector.map_fst_framesFrom [] turns)
    rw [List.length_map, List.length_map] at lengths
    rw [List.length_map, lengths]
  have read : taskstatRecords (processLog turns) = .ok frames :=
    taskstatRecords_processLog accountable
  have long : ¬frames.length < 2 := by omega
  have nonempty : frames ≠ [] := by
    intro none
    rw [none, List.length_nil] at sameLength
    omega
  obtain ⟨first, isFirst⟩ : ∃ first, frames.head? = some first :=
    ⟨_, List.head?_eq_some_head nonempty⟩
  have isLast : frames.getLast? = some (frames.getLast nonempty) :=
    List.getLast?_eq_some_getLast nonempty
  refine ⟨{
    processMap := (runTaskstats frames).processes
    sampleCount := frames.length
    samplePeriod := (((frames.getLast nonempty).1 - first.1 : Int) : ℚ) / (frames.length - 1)
    startTime := first.1
    endTime := (frames.getLast nonempty).1 }, ?_, sameLength, fun counter pid time => ?_⟩
  · rw [parseTaskstatsLog, read]
    simp only [bind, Except.bind, pure, Except.pure, isFirst, isLast, if_neg long]
    rfl
  · have times : ((framesFrom [] turns).map Prod.fst).Pairwise (· ≤ ·) := by
      rw [Collector.map_fst_framesFrom, List.pairwise_map]
      exact accountable.times.imp Int.ofNat_le.mpr
    dsimp only
    rw [runTaskstats_eq]
    change usedUntil counter pid time (afterLines (linesOf (framesFrom [] turns))).processes = _
    rw [usedUntil_afterLines (nameChanges_linesOf accountable)
      (neverDecrease_linesOf accountable) (pairwise_linesOf times),
      lastTotal_processLog accountable]
    exact Int.cast_natCast _

end Log

/-! ## A process that changes its name -/

/-- A sample of a process that waited for nothing. -/
def runningSample (pid : Nat) (name : Text) (cpu : BitVec 64) : Sample where
  ts :=
    { acPid := pid
      acPpid := 1
      acComm := Library.Utf8.encode name
      cpuRunRealTotal := cpu
      blkioDelayTotal := 0
      swapinDelayTotal := 0 }
  curPpid := 1
  acPid_nonneg := Int.natCast_nonneg pid

/-- The process 7 does nothing until the second turn, and then runs another program. -/
def threeTurns : List Turn :=
  [{ time := 10, samples := [runningSample 1 ['i', 'n', 'i', 't'] 3, runningSample 7 ['s', 'h'] 5] },
    { time := 20, samples := [runningSample 7 ['s', 'h'] 5] },
    { time := 30, samples := [runningSample 7 ['l', 's'] 9] }]

/-- The sum of such a sample is the time on the processor. -/
theorem fitsSum_runningSample (pid : Nat) (name : Text) (cpu : BitVec 64) :
    FitsSum (runningSample pid name cpu) :=
  cpu.isLt

/-- The counters are in the order of these times. -/
theorem noneAbove_runningSample
    {first second : BitVec 64}
    (atMost : first.toNat ≤ second.toNat)
    (pid : Nat)
    (name other : Text) :
    NoneAbove (runningSample pid name first) (runningSample pid other second) := by
  intro counter
  cases counter with
  | cpu => exact atMost
  | blkio => exact Nat.le_refl _
  | swapin => exact Nat.le_refl _

/-- Its samples. -/
theorem filter_threeTurns (pid : Int) :
    (sampled threeTurns).filter (·.ts.acPid = pid) =
      if pid = 1 then [runningSample 1 ['i', 'n', 'i', 't'] 3]
      else if pid = 7 then [runningSample 7 ['s', 'h'] 5, runningSample 7 ['s', 'h'] 5,
        runningSample 7 ['l', 's'] 9]
      else [] := by
  by_cases isInit : pid = 1
  · subst isInit
    rfl
  · by_cases isShell : pid = 7
    · subst isShell
      rfl
    · simp [sampled, threeTurns, runningSample, Ne.symm isInit, Ne.symm isShell, isInit, isShell]

/-- The kernel accounts for the processes. -/
theorem accountable_threeTurns : Accountable threeTurns where
  times := by decide
  readable := by
    have ofName : ∀ (pid : Nat) (name : Text) (cpu : BitVec 64),
        Writable (runningSample pid name cpu).ts → ' ' ∉ name →
        (∀ c ∈ name.head?, ¬IsParen c) → (∀ c ∈ name.getLast?, ¬IsParen c) →
        Writable (runningSample pid name cpu).ts ∧
          PlainName (runningSample pid name cpu).ts.acComm :=
      fun _ name _ writable noSpace first last => ⟨writable, name, rfl, noSpace, first, last⟩
    intro sample member
    change sample ∈ [runningSample 1 ['i', 'n', 'i', 't'] 3, runningSample 7 ['s', 'h'] 5,
      runningSample 7 ['s', 'h'] 5, runningSample 7 ['l', 's'] 9] at member
    simp only [List.mem_cons, List.not_mem_nil, or_false] at member
    rcases member with rfl | rfl | rfl | rfl
    all_goals
      refine ofName _ _ _ ⟨by decide, by decide, by decide, by decide, by decide, by decide⟩
        (by decide) (by simp [IsParen]) (by simp [IsParen])
  fits := by
    simp [sampled, threeTurns, fitsSum_runningSample]
  grows := by
    intro pid
    rw [filter_threeTurns]
    split
    · exact List.pairwise_singleton _ _
    · split
      · have three : ∀ first second third : Sample, NoneAbove first second →
            NoneAbove first third → NoneAbove second third →
            [first, second, third].Pairwise NoneAbove := by
          intro first second third toSecond toThird fromSecond
          simp [toSecond, toThird, fromSecond]
        exact three _ _ _ (noneAbove_runningSample (by decide) 7 _ _)
          (noneAbove_runningSample (by decide) 7 _ _) (noneAbove_runningSample (by decide) 7 _ _)
      · exact List.Pairwise.nil
  few := by
    intro pid
    rw [namesTold, filter_threeTurns]
    by_cases isInit : pid = 1
    · rw [if_pos isInit, if_pos isInit]
      decide
    · rw [if_neg isInit, if_neg isInit]
      split <;> decide

/-- The samples of this process add up. -/
theorem usedUntil_processLog_threeTurns :
    ∃ stats, parseTaskstatsLog (processLog threeTurns) = .ok (some stats) ∧
      stats.sampleCount = threeTurns.length ∧
      ∀ (counter : Counter) (pid time : Int), usedUntil counter pid time stats.processMap =
        lastTold counter pid (sampled (threeTurns.filter fun turn => (turn.time : Int) ≤ time)) :=
  usedUntil_processLog accountable_threeTurns (by decide)

example : (dumpSamples [] (sampled threeTurns)).written.length = 3 ∧
    lastTold .cpu 7 (sampled (threeTurns.filter fun turn => (turn.time : Int) ≤ 25)) = 5 := by
  decide +kernel

end Parsing
end Bootchart
