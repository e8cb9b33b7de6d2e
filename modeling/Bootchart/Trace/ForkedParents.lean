import Bootchart.Library.Newcomers
import Bootchart.Parsing.PaternityLog
import Bootchart.Trace.Occurrence
import Bootchart.Trace.ParentSearch

/-!
# The parents that processes were forked from

The kernel tells of each fork, the collector logs it, and `Trace.compile` looks for parents in the
log. If no pid is used again, the search always ends, and what it finds is the nearest ancestor
of a process that was sampled.
-/

namespace Bootchart
namespace Trace

open Library (Dict Newcomers run)
open Parsing (Cmdline Paternity parents parsePaternityLog)
open Collector (NetLinkPidScanner NetlinkAction newsOf Action Buffers Client passed ValidNames
  totalChunks chunkSlots dumpBuffers)
open Collector.NetLinkPidScanner (created)

/-- The forks of processes of which none has been met before, and none is the idle task. -/
structure NoReuse (pairs : List Paternity) : Prop extends Newcomers pairs where
  /-- Zero is not forked. -/
  notZero : ∀ pair ∈ pairs, pair.1 ≠ 0

/-- The nearest process with a sample that another one descends from. -/
inductive NearestForked (pairs : List Paternity) (sampled : Int → Prop) : Int → Int → Prop
  /-- The process that forked it has a sample. -/
  | parent {child ppid : Int}
      (forked : (child, ppid) ∈ pairs)
      (notZero : ppid ≠ 0)
      (isSampled : sampled ppid) :
      NearestForked pairs sampled child ppid
  /-- The process that forked it has none. -/
  | above {child ppid ancestor : Int}
      (forked : (child, ppid) ∈ pairs)
      (notZero : ppid ≠ 0)
      (unsampled : ¬sampled ppid)
      (nearest : NearestForked pairs sampled ppid ancestor) :
      NearestForked pairs sampled child ancestor

/-- A process after linking has the nearest ancestor with a sample for its parent; if there is
none, the parent that was logged with it. -/
def HasForkedParent
    (pairs : List Paternity)
    (processMap : Dict Int Process)
    (process linked : Process) : Prop :=
  (∃ ancestor, NearestForked pairs (Sampled processMap) process.realPid ancestor ∧
    linked.ppid = (ancestor * 1000 : Int) ∧
    linked.parent = some (.mapped (ancestor * 1000))) ∨
  ((∀ ancestor, ¬NearestForked pairs (Sampled processMap) process.realPid ancestor) ∧
    linked.ppid = process.ppid ∧
    linked.parent = (keyOfPid processMap process.ppid).map .mapped)

section Search

variable {pairs : List Paternity} {processMap : Dict Int Process} {child ppid result : Int}

/-- The parent in the log is the one that forked the process. -/
theorem get?_parents_eq_some (noReuse : NoReuse pairs) (notZero : child ≠ 0) :
    (parents pairs).get? child = some ppid ↔ (child, ppid) ∈ pairs := by
  rw [Parsing.get?_parents, if_neg notZero, Option.or_none]
  constructor
  · intro isLast
    obtain ⟨pair, inPairs, rfl⟩ := List.mem_map.mp (List.mem_of_getLast? isLast)
    obtain ⟨member, same⟩ := List.mem_filter.mp inPairs
    rwa [← of_decide_eq_true same]
  · intro member
    have inPairs : ppid ∈ (pairs.filter (·.1 = child)).map (·.2) :=
      List.mem_map.mpr ⟨(child, ppid), List.mem_filter.mpr ⟨member, decide_eq_true rfl⟩, rfl⟩
    obtain ⟨last, isLast⟩ := Option.isSome_iff_exists.mp
      (List.getLast?_isSome.mpr (List.ne_nil_of_mem inPairs))
    obtain ⟨pair, isPair, rfl⟩ := List.mem_map.mp (List.mem_of_getLast? isLast)
    obtain ⟨inList, same⟩ := List.mem_filter.mp isPair
    obtain rfl := of_decide_eq_true same
    rw [isLast, noReuse.parent_unique inList member]

/-- Going on with the search is going to the process that forked the one before. -/
theorem mem_pairs_of_unsampledParent
    (noReuse : NoReuse pairs)
    (goesOn : unsampledParent (parents pairs) processMap child = some ppid) :
    (child, ppid) ∈ pairs := by
  obtain ⟨isParent, -⟩ := unsampledParent_eq_some.mp goesOn
  obtain ⟨notZero, logged, -⟩ := loggedParent_eq_some.mp isParent
  exact (get?_parents_eq_some noReuse notZero).mp logged

/-- The search ends. -/
theorem searchEnds_of_noReuse (noReuse : NoReuse pairs) (process : Process) :
    SearchEnds (some (parents pairs)) processMap process := by
  rintro _ ⟨⟩
  apply (Library.ends_iff_no_cycle fun _ _ => mem_keys_of_unsampledParent).mpr
  intro other _ cycle
  apply noReuse.not_ancestor_self other
  exact Relation.TransGen.mono (fun _ _ => mem_pairs_of_unsampledParent noReuse) _ _ cycle

/-- Without a fork there is no ancestor. -/
theorem not_nearestForked
    (none : ∀ ppid, (child, ppid) ∈ pairs → ppid = 0)
    (ancestor : Int) : ¬NearestForked pairs (Sampled processMap) child ancestor := by
  intro nearest
  cases nearest with
  | parent forked notZero => exact notZero (none _ forked)
  | above forked notZero => exact notZero (none _ forked)

/-- An ancestor is a process. -/
theorem NearestForked.ne_zero (nearest : NearestForked pairs (Sampled processMap) child result) :
    result ≠ 0 ∧ Sampled processMap result := by
  induction nearest with
  | parent _ notZero isSampled => exact ⟨notZero, isSampled⟩
  | above _ _ _ _ inductionHypothesis => exact inductionHypothesis

/-- What the search returns is the nearest ancestor, or zero if there is none. -/
theorem nearestForked_findParentIdFor
    (noReuse : NoReuse pairs)
    {fuel : Nat}
    (found : findParentIdFor (parents pairs) processMap fuel child = some result) :
    NearestForked pairs (Sampled processMap) child result ∨
      result = 0 ∧ ∀ ancestor, ¬NearestForked pairs (Sampled processMap) child ancestor := by
  fun_induction findParentIdFor (parents pairs) processMap fuel child with
  | case1 => contradiction
  | case2 fuel =>
      obtain rfl := Option.some.inj found
      refine .inr ⟨rfl, not_nearestForked fun ppid forked => ?_⟩
      exact absurd rfl (noReuse.notZero _ forked)
  | case3 fuel child notZero missing =>
      obtain rfl := Option.some.inj found
      refine .inr ⟨rfl, not_nearestForked fun ppid forked => ?_⟩
      rw [(get?_parents_eq_some noReuse notZero).mpr forked] at missing
      cases missing
  | case4 fuel child notZero logged =>
      obtain rfl := Option.some.inj found
      refine .inr ⟨rfl, not_nearestForked fun ppid forked => ?_⟩
      rw [(get?_parents_eq_some noReuse notZero).mpr forked] at logged
      exact Option.some.inj logged
  | case5 fuel child notZero ppid logged isProcess unsampled inductionHypothesis =>
      have forked := (get?_parents_eq_some noReuse notZero).mp logged
      rcases inductionHypothesis found with nearest | ⟨isZero, none⟩
      · exact .inl (.above forked isProcess unsampled nearest)
      · refine .inr ⟨isZero, fun ancestor nearest => ?_⟩
        cases nearest with
        | parent isOther _ isSampled =>
            rw [noReuse.parent_unique isOther forked] at isSampled
            exact unsampled isSampled
        | above isOther _ _ further =>
            rw [noReuse.parent_unique isOther forked] at further
            exact none ancestor further
  | case6 fuel child notZero ppid logged isProcess isSampled =>
      obtain rfl := Option.some.inj found
      have forked := (get?_parents_eq_some noReuse notZero).mp logged
      exact .inl (.parent forked isProcess (not_not.mp isSampled))

end Search

section Linking

variable {pairs : List Paternity} {cmdline : Option (Dict Int Cmdline)}
variable {psStats : ProcessStats} {process : Process}

/-- Command lines change nothing about who has a sample. -/
theorem sampled_merged : Sampled (merged cmdline psStats) = Sampled psStats.processMap := by
  funext pid
  exact propext (mem_keys_merged _)

/-- Command lines do not change the pid. -/
theorem realPid_mergeCmdline :
    (process.mergeCmdline cmdline).realPid = process.realPid := by
  rw [Process.realPid, Process.realPid, (mergeCmdline_pid cmdline process).1]

/-- Statistics do not change the parent that was logged. -/
theorem calcStats_ppid (process : Process) (samplePeriod : ℚ) :
    (process.calcStats samplePeriod).ppid = process.ppid := by
  unfold Process.calcStats
  simp only
  split <;> rfl

/-- A parent that has a sample is found under its key. -/
theorem keyOfPid_of_sampled
    {processMap : Dict Int Process}
    {pid : Int}
    (isSampled : Sampled processMap pid) :
    keyOfPid processMap ((pid * 1000 : Int) : ℚ) = some (pid * 1000) := by
  rw [keyOfPid, if_pos ⟨Rat.den_intCast _, by rwa [Rat.num_intCast]⟩, Rat.num_intCast]

/-- A process that has been re-parented. -/
theorem hasForkedParent_of_reparent
    (noReuse : NoReuse pairs)
    {reparented found : Process}
    {processMap : Dict Int Process}
    (sameKeys : ∀ key, key ∈ processMap.keys ↔ key ∈ psStats.processMap.keys)
    (isFound : reparent (some (parents pairs)) (merged cmdline psStats)
      (process.mergeCmdline cmdline) = some found)
    (samePpid : reparented.ppid = found.ppid)
    (isParent : reparented.parent = (keyOfPid processMap found.ppid).map .mapped) :
    HasForkedParent pairs psStats.processMap process reparented := by
  have sameKey : ∀ ppid, keyOfPid processMap ppid = keyOfPid psStats.processMap ppid := by
    intro ppid
    simp only [keyOfPid, sameKeys]
  rw [reparent, Option.map_eq_some_iff, realPid_mergeCmdline] at isFound
  obtain ⟨ppid, searched, rfl⟩ := isFound
  have nearest := nearestForked_findParentIdFor noReuse searched
  rw [sampled_merged] at nearest
  rw [sameKey] at isParent
  rcases nearest with nearest | ⟨rfl, none⟩
  · obtain ⟨notZero, isSampled⟩ := nearest.ne_zero
    rw [if_neg notZero] at samePpid isParent
    refine .inl ⟨ppid, nearest, samePpid, ?_⟩
    rw [isParent, keyOfPid_of_sampled isSampled]
    rfl
  · rw [if_pos rfl] at samePpid isParent
    rw [(mergeCmdline_pid cmdline process).2] at samePpid isParent
    exact .inr ⟨none, samePpid, isParent⟩

/-- Linking returns, and each process has the parent it was forked from. -/
theorem exists_compile_of_noReuse
    (noReuse : NoReuse pairs)
    (cmdline : Option (Dict Int Cmdline))
    (psStats : ProcessStats) :
    ∃ linked, compile cmdline (some (parents pairs)) psStats = some linked ∧
      ∀ key process, psStats.processMap.get? key = some process →
        ∃ after, linked.processMap.get? key = some after ∧
          HasForkedParent pairs psStats.processMap process after := by
  have returns : (compile cmdline (some (parents pairs)) psStats).isSome :=
    isSome_compile.mpr fun _ process _ => searchEnds_of_noReuse noReuse process
  obtain ⟨linked, compiled⟩ := Option.isSome_iff_exists.mp returns
  refine ⟨linked, compiled, ?_⟩
  intro key process isProcess
  obtain ⟨reparented, sameKeys, -, lookedUp⟩ := get?_compile compiled
  have isThere : key ∈ linked.processMap.keys :=
    (mem_keys_compile compiled key).mpr (Dict.mem_keys.mpr ⟨process, isProcess⟩)
  obtain ⟨after, isAfter⟩ := Dict.mem_keys.mp isThere
  refine ⟨after, isAfter, ?_⟩
  rw [lookedUp, isProcess, Option.bind_some, Option.map_eq_some_iff] at isAfter
  obtain ⟨found, isFound, rfl⟩ := isAfter
  apply hasForkedParent_of_reparent noReuse sameKeys isFound
  · rw [calcStats_ppid]
    rfl
  · rw [calcStats_parent]
    rfl

end Linking

/-- From the kernel's forks to the parents of the processes: if no pid is used again, the table
of chunks has not overflowed and the log of all news was written, then, whatever processes were
sampled, linking returns, and each of them gets the nearest of its ancestors that was sampled. -/
theorem exists_compile_dumpBuffers
    {news : List NetlinkAction}
    (noReuse : NoReuse ((newsOf news).filterMap created))
    {actions : List Action}
    {buffers : Buffers}
    (ran : run Buffers.step Buffers.init actions = some buffers)
    (valid : ValidNames buffers.names)
    {index : Nat}
    {client : Client}
    (present : buffers.clients[index]? = some client)
    (capacity : totalChunks actions buffers ≤ chunkSlots - 1)
    (idle : client.call = .idle)
    (complete : passed index actions = (NetLinkPidScanner.fresh.after news).paternityLog)
    (cmdline : Option (Dict Int Cmdline))
    (psStats : ProcessStats) :
    ∃ parentMap linked,
      parsePaternityLog (dumpBuffers buffers.sm (fun _ => []) client.file.dest) =
        .ok parentMap ∧
      compile cmdline (some parentMap) psStats = some linked ∧
      ∀ key process, psStats.processMap.get? key = some process →
        ∃ after, linked.processMap.get? key = some after ∧
          HasForkedParent ((newsOf news).filterMap created) psStats.processMap process
            after := by
  obtain ⟨linked, compiled, parented⟩ := exists_compile_of_noReuse noReuse cmdline psStats
  exact ⟨_, linked, Parsing.parsePaternityLog_dump ran valid present capacity idle complete,
    compiled, parented⟩

/-- Of the processes 1, 12 and 30, the second one was too short to be sampled. -/
def firstAndLast : ProcessStats where
  processMap := (Dict.empty.set 1000 (Process.new 1000 "init".toList 0 0)).set 30000
    (Process.new 30000 "sh".toList 12000 7)
  sampleCount := 10
  samplePeriod := 1
  startTime := 0
  endTime := 9

/-- The last process has a parent. -/
theorem exists_compile_dumpBuffers_wholeLines :
    ∃ parentMap linked,
      parsePaternityLog (dumpBuffers Parsing.wholeLinesBuffers.sm (fun _ => []) [97]) =
        .ok parentMap ∧
      compile none (some parentMap) firstAndLast = some linked ∧
      ∀ key process, firstAndLast.processMap.get? key = some process →
        ∃ after, linked.processMap.get? key = some after ∧
          HasForkedParent ((newsOf Parsing.twoForks).filterMap created) firstAndLast.processMap
            process after := by
  have ran : run Buffers.step Buffers.init Parsing.wholeLines =
      some Parsing.wholeLinesBuffers :=
    (Option.some_get Parsing.isSome_run_wholeLines).symm
  have present : Parsing.wholeLinesBuffers.clients[0]? =
      some { file := { dest := [97], cur := 0 }, call := .idle } := rfl
  have noReuse : NoReuse ((newsOf Parsing.twoForks).filterMap created) :=
    ⟨⟨by decide, by decide⟩, by decide⟩
  exact exists_compile_dumpBuffers noReuse ran ⟨by decide +kernel, by decide +kernel⟩ present
    (by decide +kernel) rfl (by decide +kernel) none firstAndLast

end Trace
end Bootchart
