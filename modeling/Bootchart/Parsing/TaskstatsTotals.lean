import Bootchart.Parsing.TaskstatsKeys
import Mathlib.Tactic.Linarith
import Mathlib.Tactic.Ring

/-!
# The totals of the samples

The samples of the processes made for a pid add up to the totals logged last for
it, as long as the totals never decrease and the pid does not change its name a
thousand times, its change from `[init]` included.
-/

namespace Bootchart
namespace Parsing

open Library (Text Dict)

/-- The counters of a line. -/
inductive Counter
  /-- Time on the processor. -/
  | cpu
  /-- Time waiting for devices. -/
  | blkio
  /-- Time waiting for pages. -/
  | swapin
  deriving DecidableEq

namespace Counter

/-- The total in a line. -/
def logged (counter : Counter) (record : TaskstatRecord) : Int :=
  match counter with
  | cpu => record.cpuNs
  | blkio => record.blkioDelayNs
  | swapin => record.swapinDelayNs

/-- The total a process remembers. -/
def remembered (counter : Counter) (process : Process) : Int :=
  match counter with
  | cpu => process.lastCpuNs
  | blkio => process.lastBlkioDelayNs
  | swapin => process.lastSwapinDelayNs

/-- The value in a sample. -/
def sampled (counter : Counter) (sample : ProcessSample) : ℚ :=
  match counter with
  | cpu => sample.cpuSample.cpu
  | blkio => sample.cpuSample.io
  | swapin => sample.cpuSample.swap

/-- The values in the samples of a process. -/
def total (counter : Counter) (entry : Entry) : ℚ :=
  (entry.process.samples.map counter.sampled).sum

end Counter

/-- The values in the samples of all processes made for a pid. -/
def madeTotal (counter : Counter) (state : TaskstatState) (opid : Int) : ℚ :=
  (((state.processMap.values ++ state.overwritten).filter (·.madeFor = opid)).map
    counter.total).sum

/-- The totals logged for a pid, in order. -/
def totalsOf (counter : Counter) (opid : Int) (done : List TimedRecord) : List Int :=
  (done.filter (·.2.opid = opid)).map fun line => counter.logged line.2

/-- The total logged last for a pid, zero if there is none. -/
def lastTotal (counter : Counter) (opid : Int) (done : List TimedRecord) : Int :=
  (totalsOf counter opid done).getLast?.getD 0

/-- The counters of a pid are not negative and never decrease. -/
structure NeverDecrease (opid : Int) (done : List TimedRecord) : Prop where
  /-- They are not negative. -/
  nonneg : ∀ counter, ∀ total ∈ totalsOf counter opid done, 0 ≤ total
  /-- They never decrease. -/
  pairwise : ∀ counter, (totalsOf counter opid done).Pairwise (· ≤ ·)

section Step

variable {state : TaskstatState} {line : TimedRecord} {done : List TimedRecord}
variable {opid : Int} (counter : Counter)

/-- The contribution of a process to the samples of a pid. -/
def contribution (opid : Int) (entry : Entry) : ℚ :=
  if entry.madeFor = opid then counter.total entry else 0

/-- The values in the samples, as sums over the map and the overwritten
processes. -/
theorem madeTotal_eq_sum :
    madeTotal counter state opid =
      state.processMap.sum (fun _ entry => contribution counter opid entry) +
        (state.overwritten.map (contribution counter opid)).sum := by
  have filtered : ∀ entries : List Entry,
      ((entries.filter (·.madeFor = opid)).map counter.total).sum =
        (entries.map (contribution counter opid)).sum := by
    intro entries
    induction entries with
    | nil => rfl
    | cons entry entries inductionHypothesis =>
        by_cases same : entry.madeFor = opid <;>
          simp [contribution, same, inductionHypothesis]
  rw [madeTotal, filtered, List.map_append, List.sum_append, Dict.values, List.map_map]
  rfl

/-- What a line adds to the values in the samples of the process it is applied
to. -/
def added (state : TaskstatState) (line : TimedRecord) : ℚ :=
  (((taskstatSample line.1 (state.target line).process line.2).map
    counter.sampled).getD 0)

/-- The values in the samples of the process a line is applied to. -/
theorem total_advanced :
    counter.total (state.advanced line) =
      counter.total (state.target line) + added counter state line := by
  cases sampled : taskstatSample line.1 (state.target line).process line.2 <;>
    simp [Counter.total, TaskstatState.advanced, Entry.advance, added, sampled]

/-- The contribution of the process a line is applied to. -/
theorem contribution_advanced :
    contribution counter opid (state.advanced line) =
      contribution counter opid (state.target line) +
        if (state.target line).madeFor = opid then added counter state line else 0 := by
  have madeFor : (state.advanced line).madeFor = (state.target line).madeFor := rfl
  rw [contribution, contribution, madeFor, total_advanced]
  split
  · rfl
  · rw [add_zero]

/-- A process without samples contributes nothing. -/
theorem contribution_eq_zero
    {entry : Entry}
    (unsampled : entry.process.samples = []) :
    contribution counter opid entry = 0 := by
  simp [contribution, Counter.total, unsampled]

/-- A line adds to the samples of the pid its process was made for; a process
that is overwritten still counts. -/
theorem madeTotal_next :
    madeTotal counter (state.next line) opid =
      madeTotal counter state opid +
        if (state.target line).madeFor = opid then added counter state line else 0 := by
  have contributed : contribution counter opid (state.advanced line) = _ :=
    contribution_advanced counter
  rw [madeTotal_eq_sum, madeTotal_eq_sum]
  cases state.effect line with
  | created absent _ target next =>
      have replaced := state.processMap.sum_set (state.keyOf line) (state.advanced line)
        fun _ entry => contribution counter opid entry
      have unsampled : (state.target line).process.samples = [] := by rw [target]; rfl
      rw [contribution_eq_zero counter unsampled] at contributed
      rw [absent] at replaced
      simp only [next, Option.map_none, Option.getD_none] at replaced ⊢
      linarith
  | continued entry present _ _ target next =>
      have replaced := state.processMap.sum_set (state.keyOf line) (state.advanced line)
        fun _ entry => contribution counter opid entry
      rw [present, ← target] at replaced
      simp only [next, Option.map_some, Option.getD_some] at replaced ⊢
      linarith
  | renamed entry _ _ _ target next =>
      have replaced := state.processMap.sum_set (state.keyOf line + 1)
        (state.advanced line) fun _ entry => contribution counter opid entry
      have unsampled : (state.target line).process.samples = [] := by rw [target]; rfl
      rw [contribution_eq_zero counter unsampled] at contributed
      have moved : (((state.processMap.get? (state.keyOf line + 1)).toList.map
          (contribution counter opid)).sum) =
          ((state.processMap.get? (state.keyOf line + 1)).map
            (contribution counter opid)).getD 0 := by
        cases state.processMap.get? (state.keyOf line + 1) <;> simp
      simp only [next, List.map_append, List.sum_append, moved]
      linarith

/-! ## Telescoping -/

/-- The totals of a pid after a line. -/
theorem totalsOf_concat :
    totalsOf counter opid (done ++ [line]) =
      if line.2.opid = opid then totalsOf counter opid done ++ [counter.logged line.2]
      else totalsOf counter opid done := by
  split
  next same => simp [totalsOf, same]
  next different => simp [totalsOf, different]

/-- The last total of a pid after a line. -/
theorem lastTotal_concat :
    lastTotal counter opid (done ++ [line]) =
      if line.2.opid = opid then counter.logged line.2
      else lastTotal counter opid done := by
  rw [lastTotal, totalsOf_concat]
  split
  · rw [List.getLast?_concat]
    rfl
  · rfl

/-- Counters that never decrease did not before. -/
theorem NeverDecrease.before (never : NeverDecrease opid (done ++ [line])) :
    NeverDecrease opid done := by
  have isPrefix : ∀ counter, totalsOf counter opid done <+:
      totalsOf counter opid (done ++ [line]) := by
    intro counter
    rw [totalsOf_concat]
    split
    · exact List.prefix_append _ _
    · exact List.prefix_refl _
  exact ⟨fun counter total member =>
      never.nonneg counter total ((isPrefix counter).subset member),
    fun counter => (never.pairwise counter).sublist (isPrefix counter).sublist⟩

/-- A total is at least the one before. -/
theorem NeverDecrease.lastTotal_le (never : NeverDecrease line.2.opid (done ++ [line])) :
    lastTotal counter line.2.opid done ≤ counter.logged line.2 := by
  have nonneg := never.nonneg counter
  have pairwise := never.pairwise counter
  rw [totalsOf_concat, if_pos rfl] at nonneg pairwise
  unfold lastTotal
  cases isLast : (totalsOf counter line.2.opid done).getLast? with
  | none => exact nonneg _ (by simp)
  | some last =>
      exact (List.pairwise_append.mp pairwise).2.2 last (List.mem_of_getLast? isLast) _
        (List.mem_singleton_self _)

/-- What is remembered of a pid after a line. -/
theorem remembered_advanced :
    counter.remembered (state.advanced line).process = counter.logged line.2 := by
  cases counter <;> rfl

/-- If no counter decreased, a line adds the difference to what is remembered,
also when there is no sample because nothing advanced. -/
theorem added_eq
    (atLeast : ∀ counter : Counter,
      counter.remembered (state.target line).process ≤ counter.logged line.2) :
    added counter state line =
      counter.logged line.2 - counter.remembered (state.target line).process := by
  have cpu : ((state.target line).process.lastCpuNs : ℚ) ≤ line.2.cpuNs :=
    Int.cast_le.mpr (atLeast .cpu)
  have blkio : ((state.target line).process.lastBlkioDelayNs : ℚ) ≤
      line.2.blkioDelayNs := Int.cast_le.mpr (atLeast .blkio)
  have swapin : ((state.target line).process.lastSwapinDelayNs : ℚ) ≤
      line.2.swapinDelayNs := Int.cast_le.mpr (atLeast .swapin)
  simp only [added, taskstatSample]
  split
  next advanced =>
    cases counter <;> simp [Counter.sampled, Counter.logged, Counter.remembered,
      CPUSample.cpu]
  next still =>
    cases counter <;>
      simp only [Counter.logged, Counter.remembered, Option.map_none,
        Option.getD_none] <;>
      linarith

/-- The samples of a pid add up to its last totals, which its process remembers. -/
structure Telescoped (done : List TimedRecord) (state : TaskstatState) : Prop where
  /-- The keys are regular. -/
  regular : Regular done state
  /-- The samples add up. -/
  madeTotal : ∀ counter opid, madeTotal counter state opid = lastTotal counter opid done
  /-- The last totals are remembered. -/
  remembered : ∀ counter opid entry,
    state.processMap.get? (state.currentKey opid) = some entry →
      counter.remembered entry.process = lastTotal counter opid done

/-- At the start nothing is logged. -/
theorem telescoped_init : Telescoped [] .init := by
  refine ⟨regular_init, fun counter opid => ?_, fun counter opid entry present => ?_⟩
  · rw [madeTotal_eq_sum]
    change contribution counter opid initEntry + 0 + 0 = _
    rw [contribution_eq_zero counter rfl]
    simp [lastTotal, totalsOf]
  · rw [TaskstatState.init, Dict.get?_set] at present
    split at present
    next =>
      obtain rfl := Option.some.inj present
      cases counter <;> rfl
    next => simp at present

/-- A pid without names has no totals. -/
theorem totalsOf_eq_nil (unnamed : namesOf opid done = []) :
    totalsOf counter opid done = [] := by
  have noLines := (List.append_eq_nil_iff.mp unnamed).2
  rw [totalsOf, List.map_eq_nil_iff.mp noLines, List.map_nil]

/-- A process hands over what it remembers. -/
theorem remembered_target_of_get?
    {entry : Entry}
    (present : state.processMap.get? (state.keyOf line) = some entry) :
    counter.remembered (state.target line).process =
      counter.remembered entry.process := by
  cases state.effect line with
  | created absent _ _ _ => exact nomatch absent.symm.trans present
  | continued other isOther _ _ target _ =>
      rw [target, Option.some.inj (present.symm.trans isOther)]
  | renamed other isOther _ _ target _ =>
      rw [target, Option.some.inj (present.symm.trans isOther)]
      cases counter <;> rfl

/-- What is remembered by the process a line is applied to. -/
theorem Telescoped.remembered_target
    (telescoped : Telescoped done state)
    (counter : Counter) :
    counter.remembered (state.target line).process =
      lastTotal counter line.2.opid done := by
  cases state.effect line with
  | created absent _ target _ =>
      have unnamed : namesOf line.2.opid done = [] := by
        rw [← List.getLast?_eq_none_iff, Option.eq_none_iff_forall_ne_some]
        intro name isLast
        obtain ⟨entry, present, -⟩ := telescoped.regular.current _ name isLast
        exact nomatch absent.symm.trans present
      rw [lastTotal, totalsOf_eq_nil counter unnamed, target]
      cases counter <;> rfl
  | continued entry present _ _ _ _ =>
      exact (remembered_target_of_get? counter present).trans
        (telescoped.remembered counter _ entry present)
  | renamed entry present _ _ _ _ =>
      exact (remembered_target_of_get? counter present).trans
        (telescoped.remembered counter _ entry present)

/-- A line keeps the samples adding up. -/
theorem Telescoped.next
    (telescoped : Telescoped done state)
    (few : ∀ opid, nameChanges opid (done ++ [line]) < 1000)
    (never : NeverDecrease line.2.opid (done ++ [line])) :
    Telescoped (done ++ [line]) (state.next line) := by
  have before : nameChanges line.2.opid done < 1000 :=
    Nat.lt_of_le_of_lt (nameChanges_le _) (few line.2.opid)
  have remembers : ∀ counter : Counter,
      counter.remembered (state.target line).process =
        lastTotal counter line.2.opid done := telescoped.remembered_target
  have regular := telescoped.regular.next few
  refine ⟨regular, fun counter opid => ?_, fun counter opid entry present => ?_⟩
  · rw [madeTotal_next, (telescoped.regular.target_own before).1, telescoped.madeTotal,
      lastTotal_concat]
    split
    next same =>
      subst same
      have atLeast : ∀ other : Counter,
          other.remembered (state.target line).process ≤ other.logged line.2 :=
        fun other => (remembers other).trans_le (never.lastTotal_le other)
      rw [added_eq counter atLeast, remembers]
      ring
    next => exact add_zero _
  · rw [lastTotal_concat]
    rw [currentKey_next, TaskstatState.processMap_next] at present
    split at present
    next same =>
      rw [Dict.get?_set_self] at present
      obtain rfl := Option.some.inj present
      rw [if_pos same.symm, remembered_advanced]
    next different =>
      have moved := telescoped.regular.keyAfter_eq before
      have fewHere := few line.2.opid
      have fewOther : nameChanges opid done < 1000 :=
        Nat.lt_of_le_of_lt (nameChanges_le opid) (few opid)
      have otherPid := telescoped.regular.currentKey_div fewOther
      rw [Dict.get?_set_of_ne (by omega)] at present
      rw [if_neg (Ne.symm different)]
      exact telescoped.remembered counter opid entry present

end Step

/-- A run in which no counter decreases and no pid changes its name a thousand times
adds up. -/
theorem telescoped_afterLines
    {done : List TimedRecord}
    (few : ∀ opid, nameChanges opid done < 1000)
    (never : ∀ opid, NeverDecrease opid done) :
    Telescoped done (afterLines done) := by
  induction done using List.reverseRecOn with
  | nil => exact telescoped_init
  | append_singleton done line inductionHypothesis =>
      rw [afterLines_concat]
      have before := inductionHypothesis
        (fun opid => Nat.lt_of_le_of_lt (nameChanges_le opid) (few opid))
        fun opid => (never opid).before
      exact before.next few (never line.2.opid)

/-- The samples of the processes made for a pid add up to its last totals. -/
theorem madeTotal_eq_lastTotal
    (frames : List (Int × List TaskstatRecord))
    (few : ∀ opid, nameChanges opid (timedRecords frames) < 1000)
    (never : ∀ opid, NeverDecrease opid (timedRecords frames)) :
    ∀ counter opid, madeTotal counter (runTaskstats frames) opid =
      lastTotal counter opid (timedRecords frames) := by
  rw [runTaskstats_eq]
  exact (telescoped_afterLines few never).madeTotal

/-- A log in which the process 7 changes its name once. -/
def renamedFrames : List (Int × List TaskstatRecord) :=
  [(1, [{ opid := 7, ppid := 1, cmd := ['a'], cpuNs := 5, blkioDelayNs := 1,
          swapinDelayNs := 0 }]),
    (2, [{ opid := 7, ppid := 1, cmd := ['b'], cpuNs := 9, blkioDelayNs := 1,
           swapinDelayNs := 0 }])]

/-- After it the samples of the process 7 add up to the last total. -/
theorem madeTotal_renamedFrames :
    madeTotal .cpu (runTaskstats renamedFrames) 7 = 9 := by
  have lines : ∀ opid : Int, (timedRecords renamedFrames).filter (·.2.opid = opid) =
      if opid = 7 then timedRecords renamedFrames else [] := by
    intro opid
    split
    next same => subst same; rfl
    next different => simp [timedRecords, renamedFrames, Ne.symm different]
  refine (madeTotal_eq_lastTotal renamedFrames (fun opid => ?_) (fun opid => ?_)
    .cpu 7).trans ?_
  · rw [nameChanges, namesOf, loggedNames, lines]
    by_cases isInit : opid = 1
    · subst isInit
      decide
    · simp only [isInit, if_false]
      split <;> decide
  · constructor <;> intro counter <;> rw [totalsOf, lines] <;> split <;>
      cases counter <;> decide
  · decide

/-! ## The thousandth change of name -/

/-- The log of the thousand changes of name, and another line of the process 2. -/
def meetingLog : List (Int × List (Collector.Taskstats × Collector.Pid)) :=
  churnLog 1000 ++ [(2000, [neighbour 9])]

/-- The lines about a pid among the first ones. -/
theorem filter_churnLines (count : Nat) (opid : Int) :
    (churnLines count).filter (·.2.opid = opid) =
      if opid = 1 then (List.range count).map churnLine
      else if opid = 2 then [neighbourLine 1 5]
      else [] := by
  have churned : ∀ line ∈ (List.range count).map churnLine, line.2.opid = 1 := by
    intro line member
    obtain ⟨index, -, rfl⟩ := List.mem_map.mp member
    rfl
  have first : (neighbourLine 1 5).2.opid = 2 := rfl
  rw [churnLines, List.filter_cons, first]
  by_cases isFirst : opid = 1
  · subst isFirst
    exact List.filter_eq_self.mpr fun line member => decide_eq_true (churned line member)
  · have none : ((List.range count).map churnLine).filter (·.2.opid = opid) = [] :=
      List.filter_eq_nil_iff.mpr fun line member =>
        by simpa [churned line member] using Ne.symm isFirst
    by_cases isSecond : opid = 2
    · subst isSecond
      simp [none]
    · simp [none, isFirst, isSecond, Ne.symm isSecond]

/-- The lines about a pid. -/
theorem filter_meetingLines (count : Nat) (opid : Int) :
    (churnLines count ++ [neighbourLine 2000 9]).filter (·.2.opid = opid) =
      if opid = 1 then (List.range count).map churnLine
      else if opid = 2 then [neighbourLine 1 5, neighbourLine 2000 9]
      else [] := by
  have last : (neighbourLine 2000 9).2.opid = 2 := rfl
  rw [List.filter_append, filter_churnLines, List.filter_cons, last]
  by_cases isFirst : opid = 1
  · simp [isFirst]
  · by_cases isSecond : opid = 2
    · simp [isSecond]
    · simp [isFirst, isSecond, Ne.symm isSecond]

/-- No counter of the log decreases. -/
theorem neverDecrease_churnLines (count : Nat) (opid : Int) :
    NeverDecrease opid (churnLines count ++ [neighbourLine 2000 9]) := by
  have churned : ∀ (counter : Counter) (indices : List Nat),
      (indices.map churnLine).map (fun line => counter.logged line.2) =
        List.replicate indices.length (counter.logged (churnLine 0).2) := by
    intro counter indices
    rw [List.map_map]
    exact List.map_eq_replicate_iff.mpr fun index _ => by cases counter <;> rfl
  constructor <;> intro counter <;> rw [totalsOf, filter_meetingLines]
  · split
    · rw [churned]
      intro total member
      rw [List.eq_of_mem_replicate member]
      cases counter <;> decide
    · split <;> cases counter <;> decide
  · split
    · rw [churned, List.pairwise_replicate]
      exact Or.inr le_rfl
    · split <;> cases counter <;> decide

/-- The log is read. -/
theorem taskstatRecords_meetingLog :
    taskstatRecords (taskstatLog meetingLog) = .ok (meetingLog.map readFrame) := by
  have writable : ∀ frame ∈ meetingLog, ∀ sample ∈ frame.2, Writable sample.1 ∧
      Library.Utf8.decode sample.1.acComm = some (nameOf sample) := by
    intro frame inLog sample inFrame
    rcases List.mem_append.mp inLog with inChurn | isLast
    · exact writable_churnLog 1000 frame inChurn sample inFrame
    · obtain rfl := List.mem_singleton.mp isLast
      obtain rfl := List.mem_singleton.mp inFrame
      have decoded : Library.Utf8.decode (neighbour 9).1.acComm = some ['c'] :=
        Library.Utf8.decode_encode ['c']
      refine ⟨⟨by decide, by decide, by decide, by decide, by decide, by decide⟩, ?_⟩
      rw [nameOf, decoded]
      rfl
  exact taskstatRecords_eq
    (fun frame inLog sample inFrame => (writable frame inLog sample inFrame).1)
    fun frame inLog sample inFrame => (writable frame inLog sample inFrame).2

/-- The lines of the log. -/
theorem timedRecords_meetingLog :
    timedRecords (meetingLog.map readFrame) =
      churnLines 1000 ++ [neighbourLine 2000 9] := by
  have last : readFrame (2000, [neighbour 9]) = (2000, [(neighbourLine 2000 9).2]) := by
    rw [readFrame_singleton _ _ ['c'] rfl (by decide)]
    rfl
  have append : ∀ first second : List (Int × List TaskstatRecord),
      timedRecords (first ++ second) = timedRecords first ++ timedRecords second :=
    fun _ _ => List.flatMap_append
  rw [meetingLog, List.map_append, append, timedRecords_churnLog, List.map_cons,
    List.map_nil, last]
  rfl

/-- The names logged for a process change less than a thousand times. -/
theorem changes_loggedNames_meetingLog (opid : Int) :
    changes (loggedNames opid (churnLines 1000 ++ [neighbourLine 2000 9])) < 1000 := by
  rw [loggedNames, filter_meetingLines]
  split
  · have changed := nameChanges_churnLines 1000
    rw [nameChanges, namesOf, loggedNames, filter_churnLines, if_pos rfl, if_pos rfl,
      List.range_succ_eq_map] at changed
    have different : initEntry.process.cmd ≠ (churnLine 0).2.cmd := by decide
    simp only [List.singleton_append, List.map_cons, changes, if_neg different] at changed
    rw [List.range_succ_eq_map, List.map_cons, List.map_cons]
    omega
  · split <;> decide

/-- What the last line finds: the process that overwrote the one of its pid. -/
theorem get?_meeting :
    ((afterLines (churnLines 999)).next (churnLine 999)).processMap.get?
        (((afterLines (churnLines 999)).next (churnLine 999)).keyOf
          (neighbourLine 2000 9)) =
      some ((afterLines (churnLines 999)).advanced (churnLine 999)) := by
  have keyAfter : (afterLines (churnLines 999)).keyAfter (churnLine 999) =
      (afterLines (churnLines 999)).currentKey 2 := by
    rcases keyAfter_cases (afterLines (churnLines 999)) (churnLine 999) with
      ⟨notRenamed, -⟩ | ⟨-, moved⟩
    · exact absurd churn_renames notRenamed
    · exact moved.trans churn_key
  rw [TaskstatState.keyOf, currentKey_next, if_neg (by decide),
    TaskstatState.processMap_next, keyAfter]
  exact Dict.get?_set_self _ _ _

/-- The last line continues what was counted for the process 1. -/
theorem remembered_meeting (counter : Counter) :
    counter.remembered (((afterLines (churnLines 999)).next (churnLine 999)).target
      (neighbourLine 2000 9)).process = counter.logged (churnLine 999).2 := by
  rw [remembered_target_of_get? counter get?_meeting, remembered_advanced]

/-- The last line is a change of name. -/
theorem meeting_renames : ((afterLines (churnLines 999)).next (churnLine 999)).Renames
    (neighbourLine 2000 9) := by
  refine ⟨_, get?_meeting, ?_⟩
  rw [cmd_advanced]
  decide

/-- A process is logged with a total of 2^64 - 5, which is written as a negative number. -/
def negativeLog : List (Int × List (Collector.Taskstats × Collector.Pid)) :=
  [(1, [neighbour (-5)])]

/-- The log is read. -/
theorem taskstatRecords_negativeLog :
    taskstatRecords (taskstatLog negativeLog) = .ok [(1, [(neighbourLine 1 (-5)).2])] := by
  decide +kernel

/-- The samples of the process 2 do not add up to its last total, although it and
the process 1 change their logged names less than a thousand times; and neither if a total is
negative, although it does not decrease. -/
theorem not_madeTotal_meetingLog :
    (∃ frames, taskstatRecords (taskstatLog meetingLog) = .ok frames ∧
      (∀ opid, changes (loggedNames opid (timedRecords frames)) < 1000) ∧
      (∀ opid, NeverDecrease opid (timedRecords frames)) ∧
      madeTotal .cpu (runTaskstats frames) 2 = 11 ∧
      lastTotal .cpu 2 (timedRecords frames) = 9) ∧
    ∃ frames, taskstatRecords (taskstatLog negativeLog) = .ok frames ∧
      (∀ opid, nameChanges opid (timedRecords frames) < 1000) ∧
      (∀ opid counter, (totalsOf counter opid (timedRecords frames)).Pairwise (· ≤ ·)) ∧
      madeTotal .cpu (runTaskstats frames) 2 = 0 ∧
      lastTotal .cpu 2 (timedRecords frames) = -5 := by
  have negative : ∀ opid, (timedRecords [(1, [(neighbourLine 1 (-5)).2])]).filter
      (·.2.opid = opid) = if opid = 2 then [neighbourLine 1 (-5)] else [] := by
    intro opid
    split
    next same => subst same; rfl
    next different => simp [timedRecords, neighbourLine, Ne.symm different]
  refine ⟨⟨_, taskstatRecords_meetingLog, ?_, ?_, ?_, ?_⟩,
    ⟨_, taskstatRecords_negativeLog, fun opid => ?_, fun opid counter => ?_, ?_, ?_⟩⟩
  · rw [timedRecords_meetingLog]
    exact changes_loggedNames_meetingLog
  · rw [timedRecords_meetingLog]
    exact neverDecrease_churnLines 1000
  · rw [runTaskstats_eq, timedRecords_meetingLog, churnLines_succ, afterLines_concat,
      afterLines_concat]
    have few : ∀ opid, nameChanges opid (churnLines 999) < 1000 :=
      nameChanges_churnLines_lt (by decide)
    have telescoped : Telescoped (churnLines 999) (afterLines (churnLines 999)) :=
      telescoped_afterLines few fun opid => (neverDecrease_churnLines 999 opid).before
    have first : madeTotal .cpu (afterLines (churnLines 999)) 2 = 5 := by
      rw [telescoped.madeTotal, lastTotal, totalsOf, filter_churnLines]
      rfl
    have other : ((afterLines (churnLines 999)).target (churnLine 999)).madeFor ≠ 2 := by
      rw [madeFor_target churn_renames]
      decide
    have own : (((afterLines (churnLines 999)).next (churnLine 999)).target
        (neighbourLine 2000 9)).madeFor = 2 := madeFor_target meeting_renames
    rw [madeTotal_next, madeTotal_next, first, if_neg other, if_pos own, added_eq,
      remembered_meeting]
    · norm_num [Counter.logged, churnLine, neighbourLine]
    · intro counter
      rw [remembered_meeting]
      cases counter <;> decide
  · rw [timedRecords_meetingLog, lastTotal_concat]
    rfl
  · by_cases isSecond : opid = 2
    · subst isSecond
      decide +kernel
    · rw [nameChanges, namesOf, loggedNames, negative, if_neg isSecond]
      split <;> simp [changes]
  · rw [totalsOf, negative]
    split <;> simp
  · decide +kernel
  · decide +kernel

end Parsing
end Bootchart
