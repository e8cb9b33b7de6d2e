import Bootchart.Collector.NetlinkLive
import Bootchart.Library.Run
import Mathlib.Data.List.TakeWhile

/-!
# The threads of a process

`insert_pid_thread` appends to the array of a process, and `remove_pid_thread` is meant to close
the gap that a thread leaves. Its second index stays behind, so that entries are copied from
the beginning of the array.
-/

namespace Bootchart
namespace Collector

open Library.SortedTable (lookup)

/-! ## Threads that are live -/

/-- A thread of a process other than the leader exits. -/
def ThreadExit (pid : Pid) : ProcEvent → Prop
  | .exit processPid processTgid => processTgid = pid ∧ processPid ≠ processTgid
  | _ => False

/-- The threads of a process behind an event, in the order in which they were started. -/
def liveThreads (pid : Pid) (threads : List Pid) : ProcEvent → List Pid
  | .fork _ _ childPid childTgid =>
      if childTgid = pid ∧ childPid ≠ childTgid ∧ childPid ∉ threads then threads ++ [childPid]
      else threads
  | .exit processPid processTgid =>
      if processTgid = pid ∧ processPid ≠ processTgid then threads.filter (· ≠ processPid)
      else threads
  | _ => threads

/-- The threads that the table has of a process. -/
def recordedThreads (procs : List Process) (pid : Pid) : Option (List Pid) :=
  (lookup Process.pid procs pid).map (·.threads)

/-- Events of a process that stays live: the leader neither forks nor exits, and no thread of it
has the number zero. -/
structure Stays (pid : Pid) (evs : List ProcEvent) : Prop where
  /-- The leader stays. -/
  leader : ∀ ev ∈ evs, ¬LeaderEvent pid ev
  /-- Threads have numbers. -/
  nonzero : ∀ parentPid parentTgid, .fork parentPid parentTgid 0 pid ∉ evs

/-- All along some events the table has the threads that are live. -/
def RecordsThreads
    (pid : Pid)
    (procs : List Process)
    (threads : List Pid)
    (evs : List ProcEvent) : Prop :=
  ∀ done, done <+: evs →
    recordedThreads (done.foldl importEvent procs) pid =
      some (done.foldl (liveThreads pid) threads)

/-- When a thread exits, there is at most one. -/
def ExitsAlone (pid : Pid) (threads : List Pid) (evs : List ProcEvent) : Prop :=
  ∀ done ev, done ++ [ev] <+: evs → ThreadExit pid ev →
    (done.foldl (liveThreads pid) threads).length ≤ 1

/-! ## The array -/

section

variable {threads : List Pid} {thread : Pid} {i j : Nat}

/-- Entries inside an array without zeros are not zero. -/
theorem getD_ne_zero_iff (nonzero : 0 ∉ threads) : threads.getD i 0 ≠ 0 ↔ i < threads.length := by
  constructor
  · intro isEntry
    by_contra outside
    exact isEntry (List.getD_eq_default _ _ (Nat.not_lt.mp outside))
  · intro inside isZero
    rw [List.getD_eq_getElem _ _ inside] at isZero
    exact nonzero (isZero ▸ List.getElem_mem inside)

/-- The occurrences of a thread from an index on. -/
theorem count_drop (inside : i < threads.length) :
    (threads.drop i).count thread =
      (threads.drop (i + 1)).count thread + if threads.getD i 0 = thread then 1 else 0 := by
  rw [List.drop_eq_getElem_cons inside, List.count_cons, List.getD_eq_getElem _ _ inside]
  simp

/-- An array without zeros stays one if an entry is copied. -/
theorem nonzero_set (nonzero : 0 ∉ threads) (inside : j < threads.length) :
    0 ∉ threads.set i (threads.getD j 0) := by
  intro isZero
  rcases List.mem_or_eq_of_mem_set isZero with member | same
  · exact nonzero member
  · exact (getD_ne_zero_iff nonzero).mpr inside same.symm

/-- The array gets no shorter, and no entry becomes zero, while the second index stays
inside. -/
theorem removeThreadFrom_inside
    (nonzero : 0 ∉ threads)
    (inside : (threads.drop i).count thread + j < threads.length)
    (ordered : i ≤ threads.length) :
    (removeThreadFrom threads thread i j).length = threads.length ∧
      0 ∉ removeThreadFrom threads thread i j := by
  fun_induction removeThreadFrom with
  | case1 threads i j loop j' inductionHypothesis =>
      have here := (getD_ne_zero_iff nonzero).mp loop.1
      have counted : (threads.drop (i + 1)).count thread + j' < threads.length := by
        rw [count_drop here] at inside
        change _ + (if threads.getD i 0 = thread then j + 1 else j) < _
        split at inside
        next same => rw [if_pos same]; omega
        next other => rw [if_neg other]; omega
      have copied : j' < threads.length := by omega
      have rest := inductionHypothesis (nonzero_set nonzero copied) (by
        rw [List.drop_set_of_lt (Nat.lt_succ_self i), List.length_set]
        exact counted) (by rw [List.length_set]; omega)
      rwa [List.length_set] at rest
  | case2 threads i j stops =>
      have atEnd : i = threads.length := by
        by_contra other
        exact stops ⟨(getD_ne_zero_iff nonzero).mpr (by omega),
          (getD_ne_zero_iff nonzero).mpr (by omega)⟩
      rw [atEnd, List.take_length]
      exact ⟨rfl, nonzero⟩

/-- If the thread is not there, the loop copies the first entry. -/
theorem getElem?_removeThreadFrom
    {first : Pid}
    (isFirst : threads[0]? = some first)
    (nonzero : 0 ∉ threads)
    (absent : thread ∉ threads)
    (atFirst : j = 0)
    {k : Nat}
    (inside : k < threads.length)
    (copied : k < i → threads[k]? = some first) :
    (removeThreadFrom threads thread i j)[k]? = some first := by
  fun_induction removeThreadFrom with
  | case1 threads i j loop j' inductionHypothesis =>
      obtain ⟨positive, isEntry⟩ := List.getElem?_eq_some_iff.mp isFirst
      have here := (getD_ne_zero_iff nonzero).mp loop.1
      have other : threads.getD i 0 ≠ thread := by
        rw [List.getD_eq_getElem _ _ here]
        exact fun same => absent (same ▸ List.getElem_mem here)
      have stays : j' = 0 := (if_neg other).trans atFirst
      have copies : threads.getD j' 0 = first := by
        rw [stays, List.getD, isFirst, Option.getD_some]
      have stillNonzero := nonzero_set (i := i) nonzero (stays ▸ positive : j' < threads.length)
      rw [copies] at inductionHypothesis stillNonzero ⊢
      have entries : ∀ l : Nat, threads[l]? = some first → (threads.set i first)[l]? = some first := by
        intro l isCopy
        by_cases same : i = l
        · rw [← same, List.getElem?_set_self here]
        · rw [List.getElem?_set_ne same, isCopy]
      apply inductionHypothesis (entries 0 isFirst) stillNonzero _ stays
      · rwa [List.length_set]
      · intro before
        by_cases same : k = i
        · rw [same, List.getElem?_set_self here]
        · exact entries k (copied (by omega))
      · intro member
        rcases List.mem_or_eq_of_mem_set member with old | new
        · exact absent old
        · exact absent (new ▸ isEntry ▸ List.getElem_mem positive)
  | case2 threads i j stops =>
      have atEnd : k < i := by
        by_contra before
        exact stops ⟨(getD_ne_zero_iff nonzero).mpr (by omega),
          (getD_ne_zero_iff nonzero).mpr (by omega)⟩
      rw [List.getElem?_take_of_lt atEnd]
      exact copied atEnd

/-- An array without zeros is what stands before the terminator. -/
theorem takeWhile_nonzero (nonzero : 0 ∉ threads) : threads.takeWhile (· ≠ 0) = threads := by
  rw [List.takeWhile_eq_self_iff]
  intro other member
  simpa using ne_of_mem_of_not_mem member nonzero

/-- Of an array with at most one entry `remove_pid_thread` removes what it is to remove. -/
theorem removeThreadFrom_short (short : threads.length ≤ 1) (nonzero : 0 ∉ threads) :
    (removeThreadFrom threads thread 0 0).takeWhile (· ≠ 0) = threads.filter (· ≠ thread) := by
  match threads with
  | [] =>
      unfold removeThreadFrom
      simp
  | [only] =>
      have isEntry : only ≠ 0 := by simpa [eq_comm] using nonzero
      unfold removeThreadFrom
      unfold removeThreadFrom
      by_cases same : only = thread
      · simp [same, same ▸ isEntry]
      · simp [same, isEntry]

/-- `remove_pid_thread` does what it is to do if and only if the array has at most one entry. -/
theorem removeThreadFrom_eq_filter_iff (nonzero : 0 ∉ threads) (distinct : threads.Nodup) :
    (removeThreadFrom threads thread 0 0).takeWhile (· ≠ 0) = threads.filter (· ≠ thread) ↔
      threads.length ≤ 1 := by
  constructor
  · intro removed
    by_contra long
    have once : threads.count thread ≤ 1 := List.nodup_iff_count_le_one.mp distinct thread
    have inside : (threads.drop 0).count thread + 0 < threads.length := by
      rw [List.drop_zero]
      omega
    obtain ⟨sameLength, stillNonzero⟩ := removeThreadFrom_inside nonzero inside (Nat.zero_le _)
    rw [takeWhile_nonzero stillNonzero] at removed
    by_cases member : thread ∈ threads
    · -- One entry would have to go, but the array is as long as before.
      have shorter : (threads.filter (· ≠ thread)).length < threads.length := by
        rw [List.length_filter_lt_length_iff_exists]
        exact ⟨thread, member, by simp⟩
      rw [← removed, sameLength] at shorter
      exact lt_irrefl _ shorter
    · -- All entries would have to stay, but the second is a copy of the first.
      have all : threads.filter (· ≠ thread) = threads := by
        rw [List.filter_eq_self]
        intro other isOther
        simpa using ne_of_mem_of_not_mem isOther member
      have isFirst := List.getElem?_eq_getElem (show 0 < threads.length by omega)
      have second := getElem?_removeThreadFrom (i := 0) (j := 0) (k := 1) isFirst nonzero member
        rfl (by omega) (by omega)
      rw [removed, all, ← isFirst] at second
      have same := (List.getElem?_inj (by omega) distinct).mp second
      omega
  · exact fun short => removeThreadFrom_short short nonzero

end

/-! ## The table -/

section

variable {procs : List Process} {pid : Pid}

/-- What the import of an event does to the array of a process. -/
def threadsEvent (pid : Pid) (threads : List Pid) : ProcEvent → List Pid
  | .fork _ _ childPid childTgid =>
      if childTgid = pid ∧ childPid ≠ childTgid then addThread threads childPid else threads
  | .exit processPid processTgid =>
      if processTgid = pid ∧ processPid ≠ processTgid then
        (removeThreadFrom threads processPid 0 0).takeWhile (· ≠ 0)
      else threads
  | _ => threads

/-- The import of an event that is not of the leader. -/
theorem recordedThreads_importEvent
    (sorted : SortedByPid procs)
    {threads : List Pid}
    (recorded : recordedThreads procs pid = some threads)
    {ev : ProcEvent}
    (other : ¬LeaderEvent pid ev) :
    recordedThreads (importEvent procs ev) pid = some (threadsEvent pid threads ev) := by
  obtain ⟨row, isRow, rfl⟩ := Option.map_eq_some_iff.mp recorded
  cases ev with
  | fork parentPid parentTgid childPid childTgid =>
      rw [importEvent, threadsEvent]
      by_cases leader : childPid = childTgid
      · have different : pid ≠ childTgid := fun same => other ⟨leader, same⟩
        rw [if_pos leader, if_neg fun thread => thread.2 leader, recordedThreads,
          lookup_insertPid sorted, if_neg different]
        exact recorded
      · rw [if_neg leader, recordedThreads, lookup_insertPidThread sorted]
        by_cases same : pid = childTgid
        · rw [if_pos same, if_pos ⟨same.symm, leader⟩, ← same, isRow]
          rfl
        · rw [if_neg same, if_neg fun thread => same thread.1.symm]
          exact recorded
  | exit processPid processTgid =>
      rw [importEvent, threadsEvent]
      by_cases leader : processPid = processTgid
      · have different : pid ≠ processPid := fun same => other ⟨leader, same⟩
        rw [if_pos leader, if_neg fun thread => thread.2 leader, recordedThreads,
          lookup_removePid sorted, if_neg different]
        exact recorded
      · rw [if_neg leader, recordedThreads, lookup_removePidThread sorted]
        by_cases same : pid = processTgid
        · rw [if_pos same, if_pos ⟨same.symm, leader⟩, ← same, isRow]
          rfl
        · rw [if_neg same, if_neg fun thread => same thread.1.symm]
          exact recorded
  | exec processPid => exact recorded
  | other what => exact recorded

/-- The import of events that are not of the leader. -/
theorem recordedThreads_import
    (sorted : SortedByPid procs)
    {threads : List Pid}
    (recorded : recordedThreads procs pid = some threads)
    {evs : List ProcEvent}
    (others : ∀ ev ∈ evs, ¬LeaderEvent pid ev) :
    recordedThreads (evs.foldl importEvent procs) pid =
      some (evs.foldl (threadsEvent pid) threads) := by
  induction evs generalizing procs threads with
  | nil => exact recorded
  | cons ev evs inductionHypothesis =>
      rw [List.forall_mem_cons] at others
      exact inductionHypothesis (actsOnRecords_importEvent sorted ev).sorted
        (recordedThreads_importEvent sorted recorded others.1) others.2

end

/-! ## The array and the live threads -/

section

variable {threads : List Pid} {pid : Pid}

/-- An event that does not start a thread with the number zero. -/
def Numbered (pid : Pid) : ProcEvent → Prop
  | .fork _ _ childPid childTgid => childTgid = pid → childPid ≠ 0
  | _ => True

/-- The live threads stay distinct, and none has the number zero. -/
theorem liveThreads_wellFormed
    (distinct : threads.Nodup)
    (nonzero : 0 ∉ threads)
    {ev : ProcEvent}
    (numbered : Numbered pid ev) :
    (liveThreads pid threads ev).Nodup ∧ 0 ∉ liveThreads pid threads ev := by
  cases ev with
  | fork parentPid parentTgid childPid childTgid =>
      rw [liveThreads]
      split
      next starts =>
        refine ⟨List.nodup_append.mpr ⟨distinct, List.nodup_singleton _, ?_⟩, ?_⟩
        · intro thread isThread other isChild same
          exact starts.2.2 (List.mem_singleton.mp isChild ▸ same ▸ isThread)
        · simpa [nonzero, eq_comm] using numbered starts.1
      next => exact ⟨distinct, nonzero⟩
  | exit processPid processTgid =>
      rw [liveThreads]
      split
      next => exact ⟨distinct.filter _, fun isZero => nonzero (List.mem_of_mem_filter isZero)⟩
      next => exact ⟨distinct, nonzero⟩
  | exec processPid => exact ⟨distinct, nonzero⟩
  | other what => exact ⟨distinct, nonzero⟩

/-- A thread that starts is appended. -/
theorem addThread_eq (nonzero : 0 ∉ threads) {thread : Pid} (isThread : thread ≠ 0) :
    addThread threads thread = if thread ∉ threads then threads ++ [thread] else threads := by
  rw [addThread, ite_not, takeWhile_nonzero]
  simp [nonzero, isThread.symm]

/-- The array is changed as the live threads are if and only if no thread exits or there is at
most one. -/
theorem threadsEvent_eq_iff
    (distinct : threads.Nodup)
    (nonzero : 0 ∉ threads)
    {ev : ProcEvent}
    (numbered : Numbered pid ev) :
    threadsEvent pid threads ev = liveThreads pid threads ev ↔
      (ThreadExit pid ev → threads.length ≤ 1) := by
  cases ev with
  | fork parentPid parentTgid childPid childTgid =>
      have same : threadsEvent pid threads (.fork parentPid parentTgid childPid childTgid) =
          liveThreads pid threads (.fork parentPid parentTgid childPid childTgid) := by
        rw [threadsEvent, liveThreads]
        by_cases starts : childTgid = pid ∧ childPid ≠ childTgid
        · rw [if_pos starts, addThread_eq nonzero (numbered starts.1)]
          exact if_congr ⟨fun isNew => ⟨starts.1, starts.2, isNew⟩, fun all => all.2.2⟩ rfl rfl
        · rw [if_neg starts, if_neg fun all => starts ⟨all.1, all.2.1⟩]
      exact iff_of_true same False.elim
  | exit processPid processTgid =>
      rw [threadsEvent, liveThreads]
      by_cases exits : processTgid = pid ∧ processPid ≠ processTgid
      · rw [if_pos exits, if_pos exits, removeThreadFrom_eq_filter_iff nonzero distinct]
        exact ⟨fun short _ => short, fun short => short exits⟩
      · rw [if_neg exits, if_neg exits]
        exact iff_of_true rfl fun isExit => absurd isExit exits
  | exec processPid => exact iff_of_true rfl False.elim
  | other what => exact iff_of_true rfl False.elim

/-- The live threads are distinct and numbered all along. -/
theorem foldl_liveThreads_wellFormed
    (distinct : threads.Nodup)
    (nonzero : 0 ∉ threads)
    {evs : List ProcEvent}
    (numbered : ∀ ev ∈ evs, Numbered pid ev) :
    (evs.foldl (liveThreads pid) threads).Nodup ∧ 0 ∉ evs.foldl (liveThreads pid) threads := by
  induction evs generalizing threads with
  | nil => exact ⟨distinct, nonzero⟩
  | cons ev evs inductionHypothesis =>
      rw [List.forall_mem_cons] at numbered
      obtain ⟨nextDistinct, nextNonzero⟩ := liveThreads_wellFormed distinct nonzero numbered.1
      exact inductionHypothesis nextDistinct nextNonzero numbered.2

/-- The events of a process that stays live number its threads. -/
theorem Stays.numbered {evs : List ProcEvent} (stays : Stays pid evs) :
    ∀ ev ∈ evs, Numbered pid ev := by
  intro ev member
  cases ev with
  | fork parentPid parentTgid childPid childTgid =>
      rintro rfl rfl
      exact stays.nonzero _ _ member
  | _ => trivial

end

/-- In whatever batches a scanner imports the events, behind every restart its table has the
threads that are live. -/
theorem RecordsThreads.restart
    {pid : Pid}
    {threads : List Pid}
    {nls : NetLinkPidScanner}
    {sweeps : List NetlinkAction}
    (records : RecordsThreads pid nls.imported threads (newsOf sweeps))
    (noBootstrap : ∀ other tpids, .bootstrap other tpids ∉ sweeps)
    {done : List NetlinkAction}
    (isPrefix : done ++ [.restart] <+: sweeps) :
    recordedThreads (nls.after (done ++ [.restart])).procs pid =
      some ((newsOf done).foldl (liveThreads pid) threads) := by
  have isDone := (List.prefix_append done _).trans isPrefix
  have imported : (nls.after (done ++ [.restart])).procs =
      (newsOf done).foldl importEvent nls.imported := by
    rw [NetLinkPidScanner.after_snoc]
    exact imported_after (fun other tpids member => noBootstrap other tpids
      (isDone.subset member)) nls
  rw [imported]
  exact records (newsOf done) (isDone.filterMap _)

/-- All along the events of a process that stays live the table has the threads that are live,
each once and in the order in which they were started, if and only if no thread exits while
there is more than one. -/
theorem recordsThreads_iff
    {procs : List Process}
    (sorted : SortedByPid procs)
    {pid : Pid}
    {row : Process}
    (isRow : lookup Process.pid procs pid = some row)
    (distinct : row.threads.Nodup)
    (nonzero : 0 ∉ row.threads)
    {evs : List ProcEvent}
    (stays : Stays pid evs) :
    RecordsThreads pid procs row.threads evs ↔ ExitsAlone pid row.threads evs := by
  have recorded : ∀ done, done <+: evs → recordedThreads (done.foldl importEvent procs) pid =
      some (done.foldl (threadsEvent pid) row.threads) := fun done isPrefix =>
    recordedThreads_import sorted (by rw [recordedThreads, isRow, Option.map_some])
      fun ev member => stays.leader ev (isPrefix.subset member)
  calc RecordsThreads pid procs row.threads evs
      ↔ ∀ done, done <+: evs → done.foldl (threadsEvent pid) row.threads =
          done.foldl (liveThreads pid) row.threads := by
        apply forall₂_congr
        intro done isPrefix
        rw [recorded done isPrefix, Option.some_inj]
    _ ↔ ∀ done ev, done ++ [ev] <+: evs →
          threadsEvent pid (done.foldl (liveThreads pid) row.threads) ev =
            liveThreads pid (done.foldl (liveThreads pid) row.threads) ev :=
        Library.forall_foldl_eq_iff row.threads evs
    _ ↔ ExitsAlone pid row.threads evs := by
        apply forall₃_congr
        intro done ev isPrefix
        have numbered : ∀ other ∈ done ++ [ev], Numbered pid other :=
          fun other member => stays.numbered other (isPrefix.subset member)
        rw [List.forall_mem_append, List.forall_mem_singleton] at numbered
        obtain ⟨stillDistinct, stillNonzero⟩ :=
          foldl_liveThreads_wellFormed distinct nonzero numbered.1
        exact threadsEvent_eq_iff stillDistinct stillNonzero numbered.2

/-- Two threads of process 10 follow each other. -/
def oneAfterAnother : List ProcEvent :=
  [.fork 10 10 11 10, .exit 11 10, .fork 10 10 12 10]

/-- The table has them all along. -/
theorem recordsThreads_oneAfterAnother :
    RecordsThreads 10 [Process.fresh 10] [] oneAfterAnother := by
  have stays : Stays 10 oneAfterAnother :=
    ⟨by simp [oneAfterAnother, LeaderEvent], by simp [oneAfterAnother]⟩
  have isRow : lookup Process.pid [Process.fresh 10] 10 = some (Process.fresh 10) := rfl
  apply (recordsThreads_iff (List.pairwise_singleton _ _) isRow List.nodup_nil List.not_mem_nil
    stays).mpr
  rintro done ev ⟨rest, isEnd⟩ isExit
  match done with
  | [] => exact Nat.zero_le _
  | [first] =>
      obtain ⟨rfl, -⟩ := List.cons_eq_cons.mp isEnd
      exact Nat.le_refl _
  | [first, second] =>
      obtain ⟨rfl, behind⟩ := List.cons_eq_cons.mp isEnd
      obtain ⟨rfl, behind⟩ := List.cons_eq_cons.mp behind
      exact Nat.zero_le _
  | _ :: _ :: _ :: _ => simp [oneAfterAnother] at isEnd

/-- Of two threads of process 10 the second exits. -/
def secondExits : List ProcEvent :=
  [.fork 10 10 11 10, .fork 10 10 12 10, .exit 12 10]

/-- The table keeps it. -/
theorem not_recordsThreads_secondExits :
    ¬RecordsThreads 10 [Process.fresh 10] [] secondExits := by
  intro records
  have atEnd := records secondExits (List.prefix_refl _)
  have recorded : recordedThreads (secondExits.foldl importEvent [Process.fresh 10]) 10 =
      some [11, 12] := by decide +kernel
  rw [recorded] at atEnd
  exact absurd (Option.some.inj atEnd) (by decide)

end Collector
end Bootchart
