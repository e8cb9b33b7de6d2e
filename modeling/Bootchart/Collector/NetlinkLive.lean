import Bootchart.Collector.NetlinkTable
import Mathlib.Data.List.Induction

/-!
# The netlink table follows the live processes

The kernel reports forks and exits in order. The bootstrap reads each process
from `/proc` at some moment of its own, possibly after events about it were
queued that will be imported over what it read. Once the whole queue has been
imported, in whatever batches, the table shows the live processes.
-/

namespace Bootchart
namespace Collector

open Library.SortedTable (lookup)

/-! ## Streams of kernel events -/

/-- The live processes after an event. -/
def liveStep (live : Finset Pid) : ProcEvent → Finset Pid
  | .fork _ _ childPid childTgid =>
      if childPid = childTgid then insert childTgid live else live
  | .exit processPid processTgid =>
      if processPid = processTgid then live.erase processPid else live
  | .exec _ => live
  | .other _ => live

/-- The live processes after a stream of events. -/
def liveAfter (live : Finset Pid) (stream : List ProcEvent) : Finset Pid :=
  stream.foldl liveStep live

/-- What the kernel reports: processes fork while not live and exit while live,
thread events name a live process. -/
def Allowed (live : Finset Pid) : ProcEvent → Prop
  | .fork _ _ childPid childTgid =>
      if childPid = childTgid then childTgid ∉ live else childTgid ∈ live
  | .exit _ processTgid => processTgid ∈ live
  | .exec _ => True
  | .other _ => True

/-- Every event of a stream is allowed when it happens. -/
def WellFormed (live : Finset Pid) : List ProcEvent → Prop
  | [] => True
  | ev :: stream => Allowed live ev ∧ WellFormed (liveStep live ev) stream

/-- A well-formed stream consists of two well-formed parts. -/
theorem wellFormed_append
    (live : Finset Pid)
    (first second : List ProcEvent) :
    WellFormed live (first ++ second) ↔
      WellFormed live first ∧ WellFormed (liveAfter live first) second := by
  induction first generalizing live with
  | nil => simp [WellFormed, liveAfter]
  | cons ev first inductionHypothesis =>
      simp only [List.cons_append, WellFormed, inductionHypothesis, and_assoc]
      rfl

/-- The live processes after the second of two streams. -/
theorem liveAfter_append
    (live : Finset Pid)
    (first second : List ProcEvent) :
    liveAfter live (first ++ second) =
      liveAfter (liveAfter live first) second :=
  List.foldl_append

/-- The parent an event records for a process, if it is its fork. -/
def forkParent (pid : Pid) : ProcEvent → Option Pid
  | .fork _ parentTgid childPid childTgid =>
      if childPid = childTgid ∧ pid = childTgid then some parentTgid else none
  | _ => none

/-- The parent of the last fork of a process. -/
def lastForkParent (pid : Pid) (stream : List ProcEvent) : Option Pid :=
  (stream.filterMap (forkParent pid)).getLast?

/-- The process itself, not one of its threads, forks or exits. -/
def LeaderEvent (pid : Pid) : ProcEvent → Prop
  | .fork _ _ childPid childTgid => childPid = childTgid ∧ pid = childTgid
  | .exit processPid processTgid => processPid = processTgid ∧ pid = processPid
  | .exec _ => False
  | .other _ => False

instance (pid : Pid) : DecidablePred (LeaderEvent pid)
  | .fork _ _ childPid childTgid =>
      inferInstanceAs (Decidable (childPid = childTgid ∧ pid = childTgid))
  | .exit processPid processTgid =>
      inferInstanceAs (Decidable (processPid = processTgid ∧ pid = processPid))
  | .exec _ => inferInstanceAs (Decidable False)
  | .other _ => inferInstanceAs (Decidable False)

/-- Other events do not change whether the process is live. -/
theorem mem_liveStep_of_not_leaderEvent
    {pid : Pid}
    {ev : ProcEvent}
    (other : ¬LeaderEvent pid ev)
    (live : Finset Pid) :
    pid ∈ liveStep live ev ↔ pid ∈ live := by
  cases ev with
  | fork parentPid parentTgid childPid childTgid =>
      by_cases leader : childPid = childTgid
      · have different : pid ≠ childTgid := fun same => other ⟨leader, same⟩
        simp [liveStep, leader, different]
      · simp [liveStep, leader]
  | exit processPid processTgid =>
      by_cases leader : processPid = processTgid
      · have different : pid ≠ processPid := fun same => other ⟨leader, same⟩
        simp [liveStep, leader, leader ▸ different]
      · simp [liveStep, leader]
  | exec processPid => rfl
  | other what => rfl

/-- Other events change at most whether the process is known, and only if it is
live. -/
theorem recordEvent_of_not_leaderEvent
    {pid : Pid}
    {ev : ProcEvent}
    (other : ¬LeaderEvent pid ev)
    {live : Finset Pid}
    (allowed : Allowed live ev)
    {record : Option Pid}
    (known : record.isSome ∨ pid ∉ live) :
    recordEvent pid record ev = record := by
  cases ev with
  | fork parentPid parentTgid childPid childTgid =>
      by_cases same : pid = childTgid
      · have thread : childPid ≠ childTgid := fun leader => other ⟨leader, same⟩
        have isLive : pid ∈ live := by simpa [Allowed, thread, same] using allowed
        obtain ⟨parent, rfl⟩ :=
          Option.isSome_iff_exists.mp (known.resolve_right (not_not.mpr isLive))
        simp [recordEvent, same, thread]
      · simp [recordEvent, same]
  | exit processPid processTgid => exact if_neg other
  | exec processPid => rfl
  | other what => rfl

/-- A stream without events of the leader. -/
theorem foldl_recordEvent_of_no_leaderEvent
    {pid : Pid}
    {live : Finset Pid}
    {stream : List ProcEvent}
    (wellFormed : WellFormed live stream)
    (others : ∀ ev ∈ stream, ¬LeaderEvent pid ev)
    (record : Option Pid)
    (known : record.isSome ∨ pid ∉ live) :
    (pid ∈ liveAfter live stream ↔ pid ∈ live) ∧
      stream.foldl (recordEvent pid) record = record := by
  induction stream generalizing live with
  | nil => exact ⟨Iff.rfl, rfl⟩
  | cons ev stream inductionHypothesis =>
      obtain ⟨allowed, wellFormedRest⟩ := wellFormed
      have other := others ev (by simp)
      have sameLive := mem_liveStep_of_not_leaderEvent other live
      obtain ⟨restLive, restRecord⟩ := inductionHypothesis wellFormedRest
        (fun later member => others later (List.mem_cons_of_mem _ member))
        (by rwa [sameLive])
      refine ⟨restLive.trans sameLive, ?_⟩
      rw [List.foldl_cons, recordEvent_of_not_leaderEvent other allowed known,
        restRecord]

/-- A stream splits at the last event of the leader, if it has one. -/
theorem exists_last_leaderEvent (pid : Pid) (stream : List ProcEvent) :
    (∀ ev ∈ stream, ¬LeaderEvent pid ev) ∨
      ∃ before ev behind, stream = before ++ ev :: behind ∧
        LeaderEvent pid ev ∧ ∀ later ∈ behind, ¬LeaderEvent pid later := by
  induction stream using List.reverseRecOn with
  | nil => exact Or.inl (by simp)
  | append_singleton stream ev inductionHypothesis =>
      by_cases leader : LeaderEvent pid ev
      · exact Or.inr ⟨stream, ev, [], rfl, leader, by simp⟩
      · rcases inductionHypothesis with none | ⟨before, last, behind, rfl, isLast, rest⟩
        · apply Or.inl
          intro other member
          rcases List.mem_append.mp member with old | new
          · exact none other old
          · exact List.mem_singleton.mp new ▸ leader
        · refine Or.inr ⟨before, last, behind ++ [ev], by simp, isLast, ?_⟩
          intro other member
          rcases List.mem_append.mp member with old | new
          · exact rest other old
          · exact List.mem_singleton.mp new ▸ leader

/-- Without events of the leader there is no fork of the process. -/
theorem lastForkParent_eq_none
    {pid : Pid}
    {stream : List ProcEvent}
    (others : ∀ ev ∈ stream, ¬LeaderEvent pid ev) :
    lastForkParent pid stream = none := by
  rw [lastForkParent, List.getLast?_eq_none_iff, List.filterMap_eq_nil_iff]
  intro ev member
  cases ev with
  | fork parentPid parentTgid childPid childTgid => exact if_neg (others _ member)
  | _ => rfl

/-- The last fork of a process is looked for from the end. -/
theorem lastForkParent_append
    {pid : Pid}
    {first second : List ProcEvent}
    (noneBehind : lastForkParent pid second = none) :
    lastForkParent pid (first ++ second) = lastForkParent pid first := by
  rw [lastForkParent, List.getLast?_eq_none_iff] at noneBehind
  rw [lastForkParent, List.filterMap_append, noneBehind, List.append_nil]
  rfl

/-- The record of a process after the whole stream, if it was read at any
moment of it: it is known if and only if it is live, and then with the parent of
its last fork. -/
theorem record_correct
    {pid : Pid}
    {live : Finset Pid}
    {stream : List ProcEvent}
    (wellFormed : WellFormed live stream)
    {readAt : Nat}
    {record : Option Pid}
    (snapshot : record.isSome ↔ pid ∈ liveAfter live (stream.take readAt)) :
    ((stream.foldl (recordEvent pid) record).isSome ↔
        pid ∈ liveAfter live stream) ∧
      ∀ parent, lastForkParent pid stream = some parent →
        pid ∈ liveAfter live stream →
        stream.foldl (recordEvent pid) record = some parent := by
  rcases exists_last_leaderEvent pid stream with
    others | ⟨before, ev, behind, rfl, leader, others⟩
  · -- The process was live all the time or never, so the moment does not matter.
    have readLive : pid ∈ liveAfter live (stream.take readAt) ↔ pid ∈ live := by
      have wellFormedRead : WellFormed live (stream.take readAt) := by
        rw [← List.take_append_drop readAt stream, wellFormed_append] at wellFormed
        exact wellFormed.1
      exact (foldl_recordEvent_of_no_leaderEvent wellFormedRead
        (fun ev member => others ev (List.mem_of_mem_take member))
        (some 0) (Or.inl rfl)).1
    obtain ⟨sameLive, sameRecord⟩ := foldl_recordEvent_of_no_leaderEvent
      wellFormed others record
      (by rw [snapshot, readLive]; exact em _)
    refine ⟨?_, ?_⟩
    · rw [sameRecord, sameLive, snapshot, readLive]
    · simp [lastForkParent_eq_none others]
  · -- The last event of the leader overrides everything before it.
    obtain ⟨-, allowed, wellFormedBehind⟩ := (wellFormed_append _ _ _).mp wellFormed
    have noneBehind := lastForkParent_eq_none others
    have lastFork : lastForkParent pid (before ++ ev :: behind) =
        lastForkParent pid (before ++ [ev]) := by
      rw [List.append_cons]
      exact lastForkParent_append noneBehind
    rw [lastFork, liveAfter_append, List.foldl_append, List.foldl_cons]
    change (_ ↔ pid ∈ liveAfter (liveStep (liveAfter live before) ev) behind) ∧
      ∀ parent, _ → pid ∈ liveAfter (liveStep (liveAfter live before) ev) behind → _
    cases ev with
    | fork parentPid parentTgid childPid childTgid =>
        obtain ⟨isLeader, rfl⟩ := leader
        have nowLive : pid ∈ liveStep (liveAfter live before)
            (.fork parentPid parentTgid childPid pid) := by
          simp [liveStep, isLeader]
        have nowRecorded : recordEvent pid (before.foldl (recordEvent pid) record)
            (.fork parentPid parentTgid childPid pid) = some parentTgid := by
          simp [recordEvent, isLeader]
        obtain ⟨sameLive, sameRecord⟩ := foldl_recordEvent_of_no_leaderEvent
          wellFormedBehind others (some parentTgid) (Or.inl rfl)
        rw [nowRecorded, sameRecord, sameLive]
        refine ⟨by simp [nowLive], fun parent isLast _ => ?_⟩
        simpa [lastForkParent, forkParent, isLeader] using isLast
    | exit processPid processTgid =>
        obtain ⟨isLeader, rfl⟩ := leader
        have notLive : pid ∉ liveStep (liveAfter live before)
            (.exit pid processTgid) := by
          simp [liveStep, isLeader]
        have nowRecorded : recordEvent pid (before.foldl (recordEvent pid) record)
            (.exit pid processTgid) = none := by
          simp [recordEvent, isLeader]
        obtain ⟨sameLive, sameRecord⟩ := foldl_recordEvent_of_no_leaderEvent
          wellFormedBehind others none (Or.inr notLive)
        rw [nowRecorded, sameRecord, sameLive]
        exact ⟨by simp [notLive], fun _ _ isLive => absurd isLive notLive⟩
    | exec processPid => exact leader.elim
    | other what => exact leader.elim

/-! ## Runs of the collector -/

/-- What happens to a scanner, in any order: the listener thread gets news, the
bootstrap reads a process, the sampling thread imports the queue. -/
inductive NetlinkAction
  /-- `handle_news` with an event of the kernel. -/
  | news (ev : ProcEvent)
  /-- The bootstrap reads a process and its threads. -/
  | bootstrap (pid : Pid) (tpids : List Pid)
  /-- `netlink_pid_scanner_restart`. -/
  | restart
  deriving DecidableEq

namespace NetLinkPidScanner

/-- The effect of an action. -/
def step (nls : NetLinkPidScanner) : NetlinkAction → NetLinkPidScanner
  | .news ev => handleNews nls ev
  | .bootstrap pid tpids => bootstrapProcess nls pid tpids
  | .restart => netlinkPidScannerRestart nls

/-- The effect of a list of actions. -/
def after (nls : NetLinkPidScanner) (actions : List NetlinkAction) :
    NetLinkPidScanner :=
  actions.foldl step nls

/-- The last action of a list starts from the state the others reach. -/
theorem after_snoc
    (nls : NetLinkPidScanner)
    (actions : List NetlinkAction)
    (action : NetlinkAction) :
    nls.after (actions ++ [action]) = (nls.after actions).step action := by
  simp [after]

/-- Two lists of actions, one after the other. -/
theorem after_append
    (nls : NetLinkPidScanner)
    (first second : List NetlinkAction) :
    nls.after (first ++ second) = (nls.after first).after second :=
  List.foldl_append

end NetLinkPidScanner

/-- The events of the kernel among the actions. -/
def newsOf (actions : List NetlinkAction) : List ProcEvent :=
  actions.filterMap fun
    | .news ev => some ev
    | _ => none

/-- The events among two lists of actions, one after the other. -/
theorem newsOf_append (first second : List NetlinkAction) :
    newsOf (first ++ second) = newsOf first ++ newsOf second :=
  List.filterMap_append

/-- The bootstrap runs before the first restart. -/
def BootstrapFirst (start sweeps : List NetlinkAction) : Prop :=
  .restart ∉ start ∧ ∀ pid tpids, .bootstrap pid tpids ∉ sweeps

open NetLinkPidScanner (after imported)

/-- The bootstrap of a process makes sure that it is recorded. -/
theorem actsOnRecords_bootstrap
    {nls : NetLinkPidScanner}
    (sorted : SortedByPid nls.procs)
    (pid : Pid)
    (tpids : List Pid) :
    ActsOnRecords nls.procs (bootstrapProcess nls pid tpids).procs
      (fun other record => if other = pid then some 0 else record) := by
  obtain ⟨sortedStart, start⟩ := actsOnRecords_insertPid sorted pid 0
  simp only [bootstrapProcess]
  generalize insertPid nls.procs pid 0 = procs at sortedStart start ⊢
  induction tpids generalizing procs with
  | nil => exact ⟨sortedStart, start⟩
  | cons tpid tpids inductionHypothesis =>
      obtain ⟨sortedNext, effect⟩ :=
        actsOnRecords_insertPidThread sortedStart pid tpid
      apply inductionHypothesis _ sortedNext
      intro other
      rw [effect, start]
      split <;> rfl

/-- News is imported behind what is queued already. -/
theorem import_handleNews
    (nls : NetLinkPidScanner)
    (ev : ProcEvent)
    (procs : List Process) :
    (handleNews nls ev).buffer.foldl importEvent procs =
      importEvent (nls.buffer.foldl importEvent procs) ev := by
  cases ev <;> simp [handleNews, importEvent]

/-- News does not touch the table. -/
@[simp] theorem procs_handleNews (nls : NetLinkPidScanner) (ev : ProcEvent) :
    (handleNews nls ev).procs = nls.procs := by
  cases ev <;> rfl

/-- Before the first restart the table holds what was bootstrapped, and the
queue what happened. -/
theorem after_start
    {start : List NetlinkAction}
    (noRestart : .restart ∉ start) :
    SortedByPid (after .fresh start).procs ∧
      (∀ pid, (recordedParent (after .fresh start).procs pid).isSome ↔
        ∃ tpids, .bootstrap pid tpids ∈ start) ∧
      ∀ procs, (after .fresh start).buffer.foldl importEvent procs =
        (newsOf start).foldl importEvent procs := by
  induction start using List.reverseRecOn with
  | nil =>
      refine ⟨List.Pairwise.nil, fun pid => ?_, fun _ => rfl⟩
      simp [after, NetLinkPidScanner.fresh, recordedParent,
        Library.SortedTable.lookup]
  | append_singleton start action inductionHypothesis =>
      obtain ⟨sorted, recorded, queued⟩ :=
        inductionHypothesis fun member => noRestart (by simp [member])
      rw [NetLinkPidScanner.after_snoc]
      cases action with
      | news ev =>
          unfold NetLinkPidScanner.step
          refine ⟨by simpa using sorted, fun pid => by simp [recorded], ?_⟩
          intro procs
          rw [import_handleNews, queued]
          simp [newsOf]
      | bootstrap pid tpids =>
          obtain ⟨sortedNext, effect⟩ := actsOnRecords_bootstrap sorted pid tpids
          refine ⟨sortedNext, fun other => ?_, fun procs => ?_⟩
          · rw [NetLinkPidScanner.step, effect]
            by_cases same : other = pid
            · simp [same]
            · simp [same, recorded]
          · have noNews : newsOf (start ++ [.bootstrap pid tpids]) =
                newsOf start := by
              simp [newsOf]
            rw [noNews]
            exact queued procs
      | restart => exact absurd (by simp) noRestart

/-- From the first restart on, no matter when the queue is imported, the table
and the queue together account for all news. -/
theorem imported_after
    {sweeps : List NetlinkAction}
    (noBootstrap : ∀ pid tpids, .bootstrap pid tpids ∉ sweeps)
    (nls : NetLinkPidScanner) :
    imported (nls.after sweeps) =
      (newsOf sweeps).foldl importEvent (imported nls) := by
  induction sweeps using List.reverseRecOn with
  | nil => rfl
  | append_singleton sweeps action inductionHypothesis =>
      have before := inductionHypothesis fun pid tpids member =>
        noBootstrap pid tpids (by simp [member])
      rw [NetLinkPidScanner.after_snoc]
      cases action with
      | news ev =>
          rw [NetLinkPidScanner.step, imported, import_handleNews,
            procs_handleNews, ← imported, before]
          simp [newsOf]
      | bootstrap pid tpids => exact absurd (by simp) (noBootstrap pid tpids)
      | restart =>
          have noNews : newsOf (sweeps ++ [.restart]) = newsOf sweeps := by
            simp [newsOf]
          rw [noNews]
          exact before

/-- Once all events have been imported, the table holds the live processes, each
once and in order, and each with the parent of its last fork. -/
theorem netlink_table_live
    {live : Finset Pid}
    {stream : List ProcEvent}
    (wellFormed : WellFormed live stream)
    {start sweeps : List NetlinkAction}
    (order : BootstrapFirst start sweeps)
    (reported : newsOf (start ++ sweeps) = stream)
    (readAt : Pid → Nat)
    (snapshot : ∀ pid, (∃ tpids, .bootstrap pid tpids ∈ start) ↔
      pid ∈ liveAfter live (stream.take (readAt pid)))
    (allImported : (after .fresh (start ++ sweeps)).buffer = []) :
    ((after .fresh (start ++ sweeps)).procs.map (·.pid)).Pairwise (· < ·) ∧
      (∀ pid, pid ∈ (after .fresh (start ++ sweeps)).procs.map (·.pid) ↔
        pid ∈ liveAfter live stream) ∧
      ∀ row ∈ (after .fresh (start ++ sweeps)).procs, ∀ parent,
        lastForkParent row.pid stream = some parent → row.parent = parent := by
  obtain ⟨sortedStart, recordedStart, queuedStart⟩ := after_start order.1
  -- The whole stream is imported over the bootstrapped table.
  have table : (after .fresh (start ++ sweeps)).procs =
      stream.foldl importEvent (after .fresh start).procs := by
    calc (after .fresh (start ++ sweeps)).procs
        = imported (after .fresh (start ++ sweeps)) := by
          rw [imported, allImported, List.foldl_nil]
      _ = (newsOf sweeps).foldl importEvent (imported (after .fresh start)) := by
          rw [NetLinkPidScanner.after_append, imported_after order.2]
      _ = stream.foldl importEvent (after .fresh start).procs := by
          rw [imported, queuedStart, ← List.foldl_append, ← newsOf_append, reported]
  obtain ⟨sorted, effect⟩ := actsOnRecords_import sortedStart stream
  rw [← table] at sorted effect
  have correct : ∀ pid, _ := fun pid => record_correct wellFormed
    ((recordedStart pid).trans (snapshot pid))
  simp only [← effect] at correct
  refine ⟨List.pairwise_map.mpr sorted, fun pid => ?_, ?_⟩
  · rw [← (correct pid).1, recordedParent, Option.isSome_map,
      Library.SortedTable.mem_map_key_iff_isSome]
  · intro row member parent lastFork
    have found := sorted.mem_iff_lookup.mp member
    have recorded : recordedParent (after .fresh (start ++ sweeps)).procs row.pid =
        some row.parent := by
      rw [recordedParent, found]
      rfl
    have isLive : row.pid ∈ liveAfter live stream := by
      rw [← (correct row.pid).1, recorded]
      rfl
    exact Option.some.inj
      (recorded.symm.trans ((correct row.pid).2 parent lastFork isLive))

/-- What is queued and bootstrapped before the first restart: process 2 and its
thread. -/
def overlapStart : List NetlinkAction :=
  [.news (.fork 1 1 2 2), .bootstrap 1 [], .bootstrap 2 [3], .news (.fork 2 2 3 2)]

/-- Process 4 comes and goes between two sweeps. -/
def overlapSweeps : List NetlinkAction :=
  [.restart, .news (.fork 2 2 4 4), .restart, .news (.exit 4 4), .restart]

/-- Process 2 is in the table in the end, process 4 is not. -/
theorem netlink_table_live_overlap :
    2 ∈ (after .fresh (overlapStart ++ overlapSweeps)).procs.map (·.pid) ∧
      4 ∉ (after .fresh (overlapStart ++ overlapSweeps)).procs.map (·.pid) := by
  have wellFormed : WellFormed {1}
      [.fork 1 1 2 2, .fork 2 2 3 2, .fork 2 2 4 4, .exit 4 4] := by
    simp [WellFormed, Allowed, liveStep]
  have order : BootstrapFirst overlapStart overlapSweeps :=
    ⟨by simp [overlapStart], by simp [overlapSweeps]⟩
  have live := (netlink_table_live wellFormed order rfl
    (fun pid => if pid = 2 then 2 else 0) (by
      intro pid
      by_cases second : pid = 2
      · simp [overlapStart, second, liveAfter, liveStep]
      · simp [overlapStart, second, liveAfter]) rfl).2.1
  exact ⟨(live 2).mpr (by simp [liveAfter, liveStep]),
    fun member => absurd ((live 4).mp member) (by simp [liveAfter, liveStep])⟩

end Collector
end Bootchart
