import Bootchart.ProcessTree.Logger

/-!
# What is lost with the logger's subtree

A logger takes the samples and the times of the children that are merged into it. The
processes below these children leave the tree, and whatever they hold is lost, unless
a process that stays, or is merged into one that stays, holds the same.
-/

namespace Bootchart
namespace ProcessTree

open Library (Text Forest)

/-! ## What a process becomes -/

/-- A process into which others are merged, one after the other. -/
def absorbAll (process : Process) (others : List Process) : Process :=
  others.foldl State.mergedProcess process

@[simp] theorem absorbAll_nil (process : Process) : absorbAll process [] = process := rfl

@[simp] theorem absorbAll_cons (process other : Process) (others : List Process) :
    absorbAll process (other :: others) =
      absorbAll (State.mergedProcess process other) others := rfl

/-- The samples of all of them. -/
theorem samples_absorbAll (process : Process) (others : List Process) :
    ((absorbAll process others).samples : Multiset ProcessSample) =
      (process.samples : Multiset ProcessSample) +
        (others.flatMap fun other => other.samples : List ProcessSample) := by
  induction others generalizing process with
  | nil => simp
  | cons other others inductionHypothesis =>
      rw [absorbAll_cons, inductionHypothesis, List.flatMap_cons, Multiset.coe_add,
        Multiset.coe_add, ← List.append_assoc, Multiset.coe_eq_coe]
      exact (List.mergeSort_perm _ _).append_right _

/-- The last end of all of them. -/
theorem le_getEndTime_absorbAll (process : Process) (others : List Process) (bound : ℚ) :
    bound ≤ (absorbAll process others).getEndTime ↔
      bound ≤ process.getEndTime ∨ ∃ other ∈ others, bound ≤ other.getEndTime := by
  induction others generalizing process with
  | nil => simp
  | cons other others inductionHypothesis =>
      rw [absorbAll_cons, inductionHypothesis, getEndTime_mergedProcess, le_max_iff,
        List.exists_mem_cons_iff, or_assoc]

/-- Absorbing changes no other process. -/
theorem State.objects_absorb_of_ne
    (state : State)
    {proc other : ProcessId}
    (different : other ≠ proc)
    (children : List ProcessId) :
    (state.absorb proc children).objects other = state.objects other := by
  unfold State.absorb
  induction children generalizing state with
  | nil => rfl
  | cons child children inductionHypothesis =>
      rw [List.foldl_cons, inductionHypothesis, State.objects_mergeProcesses,
        Function.update_of_ne different]

/-- What a process is after it has absorbed others. -/
theorem State.objects_absorb
    (state : State)
    {proc : ProcessId}
    {children : List ProcessId}
    (others : proc ∉ children) :
    (state.absorb proc children).objects proc =
      absorbAll (state.objects proc) (children.map state.objects) := by
  unfold State.absorb
  induction children generalizing state with
  | nil => rfl
  | cons child children inductionHypothesis =>
      rw [List.mem_cons, not_or] at others
      have same : children.map (state.mergeProcesses proc child).objects =
          children.map state.objects := by
        refine List.map_congr_left fun other member => ?_
        have different : other ≠ proc := fun equal => others.2 (equal ▸ member)
        rw [State.objects_mergeProcesses, Function.update_of_ne different]
      rw [List.foldl_cons, inductionHypothesis _ others.2, same,
        State.objects_mergeProcesses, Function.update_self]
      rfl

section Pass

variable {loggerProc : Text} {monitoredApp : Option Text}

/-- The pass changes no process outside of the forest. -/
theorem objects_mergeLogger_of_notMem
    (state : State)
    {forest : Forest ProcessId}
    {other : ProcessId}
    (notMem : other ∉ forest.toList) :
    (mergeLogger loggerProc monitoredApp state forest).1.objects other =
      state.objects other := by
  induction forest generalizing state with
  | nil => rfl
  | cons proc childList siblings first second =>
      simp only [Forest.toList_cons, List.mem_cons, List.mem_append, not_or] at notMem
      obtain ⟨different, notChild, notSibling⟩ := notMem
      simp only [mergeLogger_cons, second _ notSibling, first _ notChild]
      exact state.objects_absorb_of_ne different _

/-- A process of the forest absorbs, as they were before the pass, the children that are
cut off from it. -/
theorem objects_mergeLogger
    {state : State}
    {forest : Forest ProcessId}
    (distinct : forest.toList.Nodup)
    {objects : Objects}
    (agree : ∀ proc ∈ forest.toList, state.objects proc = objects proc)
    {family : ProcessId × List ProcessId}
    (member : family ∈ forest.families) :
    (mergeLogger loggerProc monitoredApp state forest).1.objects family.1 =
      absorbAll (objects family.1) ((Library.unmarked
        (loggerPolicy loggerProc monitoredApp state.cmd family.1 family.2)
        family.2).map objects) := by
  induction forest generalizing state with
  | nil => simp [Forest.families] at member
  | cons proc childList siblings first second =>
      rw [Forest.toList_cons, List.nodup_cons, List.mem_append, not_or,
        List.nodup_append] at distinct
      obtain ⟨⟨notChild, notSibling⟩, childrenDistinct, siblingsDistinct, apart⟩ := distinct
      simp only [Forest.toList_cons, List.forall_mem_cons, List.forall_mem_append] at agree
      obtain ⟨agreeFirst, agreeChildren, agreeSiblings⟩ := agree
      rw [Forest.families, List.mem_cons, List.mem_append] at member
      simp only [mergeLogger_cons]
      rcases member with rfl | inChildren | inSiblings
      · rw [objects_mergeLogger_of_notMem _ notSibling,
          objects_mergeLogger_of_notMem _ notChild, State.objects_absorb]
        · rw [agreeFirst]
          congr 1
          refine List.map_congr_left fun child isChild => agreeChildren child ?_
          exact childList.roots_subset (Library.unmarked_subset _ _ isChild)
        · exact fun isChild => notChild
            (childList.roots_subset (Library.unmarked_subset _ _ isChild))
      · have notThere : family.1 ∉ siblings.toList := by
          rw [← Forest.map_fst_families] at apart
          exact fun isSibling => apart _ (List.mem_map_of_mem inChildren) _ isSibling rfl
        rw [objects_mergeLogger_of_notMem _ notThere, first childrenDistinct ?_ inChildren,
          State.cmd_absorb]
        intro child isChild
        have different : child ≠ proc := fun equal => notChild (equal ▸ isChild)
        rw [State.objects_absorb_of_ne _ different, agreeChildren child isChild]
      · rw [second siblingsDistinct ?_ inSiblings, cmd_mergeLogger, State.cmd_absorb]
        intro sibling isSibling
        have different : sibling ≠ proc := fun equal => notSibling (equal ▸ isSibling)
        rw [objects_mergeLogger_of_notMem _ fun isChild => apart _ isChild _ isSibling rfl,
          State.objects_absorb_of_ne _ different, agreeSiblings sibling isSibling]

/-! ## What is lost -/

/-- The processes below children that `merge_logger` merges. -/
def lostWithLogger
    (loggerProc : Text)
    (monitoredApp : Option Text)
    (cmd : ProcessId → Text)
    (forest : Forest ProcessId) : List ProcessId :=
  forest.lost (loggerPolicy loggerProc monitoredApp cmd) []

/-- The others: the processes that stay in the tree, then those that are merged into
one of them. -/
def keptOfLogger
    (loggerProc : Text)
    (monitoredApp : Option Text)
    (cmd : ProcessId → Text)
    (forest : Forest ProcessId) : List ProcessId :=
  (forest.attached (loggerPolicy loggerProc monitoredApp cmd) []).map Prod.fst ++
    forest.cutOff (loggerPolicy loggerProc monitoredApp cmd) []

variable {state : State} {forest : Forest ProcessId}

/-- Each process is one of them. -/
theorem perm_keptOfLogger (cmd : ProcessId → Text) (forest : Forest ProcessId) :
    forest.toList.Perm (keptOfLogger loggerProc monitoredApp cmd forest ++
      lostWithLogger loggerProc monitoredApp cmd forest) := by
  rw [keptOfLogger, List.append_assoc]
  exact Forest.toList_perm [] forest

/-- The tree after `merge_logger`. -/
theorem toList_mergeLogger (state : State) (forest : Forest ProcessId) :
    (mergeLogger loggerProc monitoredApp state forest).2.1.toList =
      (forest.attached (loggerPolicy loggerProc monitoredApp state.cmd) []).map
        Prod.fst := by
  rw [← Forest.map_fst_families, families_mergeLogger, List.map_map]
  rfl

/-- What a process of the tree is after `merge_logger`. -/
theorem objects_of_attached
    (distinct : forest.toList.Nodup)
    {family : ProcessId × List ProcessId}
    (member : family ∈
      forest.attached (loggerPolicy loggerProc monitoredApp state.cmd) []) :
    (mergeLogger loggerProc monitoredApp state forest).1.objects family.1 =
      absorbAll (state.objects family.1) ((Library.unmarked
        (loggerPolicy loggerProc monitoredApp state.cmd family.1 family.2)
        family.2).map state.objects) :=
  objects_mergeLogger distinct (fun _ _ => rfl) (Forest.attached_subset [] forest member)

/-- The tree holds what was held by the processes that are not lost. -/
theorem held_mergeLogger (distinct : forest.toList.Nodup) :
    held (population (mergeLogger loggerProc monitoredApp state forest).1
        (mergeLogger loggerProc monitoredApp state forest).2.1) =
      held (state, ↑(keptOfLogger loggerProc monitoredApp state.cmd forest)) := by
  let policy := loggerPolicy loggerProc monitoredApp state.cmd
  let samples (proc : ProcessId) : Multiset ProcessSample := (state.objects proc).samples
  let families : Multiset (ProcessId × List ProcessId) := forest.attached policy []
  have ofFamily : ∀ family ∈ families,
      (((mergeLogger loggerProc monitoredApp state forest).1.objects family.1).samples :
        Multiset ProcessSample) =
      samples family.1 + (Library.unmarked (policy family.1 family.2) family.2 :
        Multiset ProcessId).bind samples := by
    intro family member
    rw [objects_of_attached distinct member, samples_absorbAll, List.flatMap_map,
      ← Multiset.coe_bind]
  calc held (population (mergeLogger loggerProc monitoredApp state forest).1
        (mergeLogger loggerProc monitoredApp state forest).2.1)
    _ = families.bind fun family =>
        (((mergeLogger loggerProc monitoredApp state forest).1.objects family.1).samples :
          Multiset ProcessSample) := by
        simp only [held, population, toList_mergeLogger, ← Multiset.map_coe,
          Multiset.bind_map, families, policy]
    _ = (families.bind fun family => samples family.1) +
        families.bind fun family =>
          (Library.unmarked (policy family.1 family.2) family.2 :
            Multiset ProcessId).bind samples := by
        rw [Multiset.bind_congr ofFamily, Multiset.bind_add]
    _ = held (state, ↑(keptOfLogger loggerProc monitoredApp state.cmd forest)) := by
        simp only [held, keptOfLogger, Forest.cutOff, Library.unmarked_nil,
          List.nil_append, ← Multiset.coe_add, ← Multiset.map_coe, Multiset.add_bind,
          Multiset.bind_map, ← Multiset.coe_bind, Multiset.bind_assoc]
        rfl

/-- The processes of the tree end when those ended that are not lost. -/
theorem exists_le_getEndTime_mergeLogger (distinct : forest.toList.Nodup) (bound : ℚ) :
    (∃ proc ∈ (mergeLogger loggerProc monitoredApp state forest).2.1.toList,
        bound ≤ ((mergeLogger loggerProc monitoredApp state forest).1.objects
          proc).getEndTime) ↔
      ∃ proc ∈ keptOfLogger loggerProc monitoredApp state.cmd forest,
        bound ≤ (state.objects proc).getEndTime := by
  let policy := loggerPolicy loggerProc monitoredApp state.cmd
  have ofFamily : ∀ family ∈ forest.attached policy [],
      (bound ≤ ((mergeLogger loggerProc monitoredApp state forest).1.objects
          family.1).getEndTime ↔
        bound ≤ (state.objects family.1).getEndTime ∨
          ∃ child ∈ Library.unmarked (policy family.1 family.2) family.2,
            bound ≤ (state.objects child).getEndTime) := by
    intro family member
    rw [objects_of_attached distinct member, le_getEndTime_absorbAll]
    simp only [List.mem_map, exists_exists_and_eq_and, policy]
  rw [toList_mergeLogger, keptOfLogger, Forest.cutOff, Library.unmarked_nil,
    List.nil_append]
  constructor
  · rintro ⟨proc, inTree, reaches⟩
    obtain ⟨family, member, rfl⟩ := List.mem_map.mp inTree
    rcases (ofFamily family member).mp reaches with own | ⟨child, isCut, ofChild⟩
    · exact ⟨family.1, List.mem_append_left _ inTree, own⟩
    · exact ⟨child, List.mem_append_right _ (List.mem_flatMap.mpr
        ⟨family, member, isCut⟩), ofChild⟩
  · rintro ⟨proc, isKept, reaches⟩
    rcases List.mem_append.mp isKept with inTree | isCut
    · obtain ⟨family, member, rfl⟩ := List.mem_map.mp inTree
      exact ⟨family.1, inTree, (ofFamily family member).mpr (.inl reaches)⟩
    · obtain ⟨family, member, isChild⟩ := List.mem_flatMap.mp isCut
      exact ⟨family.1, List.mem_map_of_mem member,
        (ofFamily family member).mpr (.inr ⟨proc, isChild, reaches⟩)⟩

/-- The processes that are not lost. -/
theorem mem_keptOfLogger
    (cmd : ProcessId → Text)
    (distinct : forest.toList.Nodup)
    {proc : ProcessId} :
    proc ∈ keptOfLogger loggerProc monitoredApp cmd forest ↔
      proc ∈ forest.toList ∧ proc ∉ lostWithLogger loggerProc monitoredApp cmd forest := by
  have perm : forest.toList.Perm (keptOfLogger loggerProc monitoredApp cmd forest ++ _) :=
    perm_keptOfLogger cmd forest
  have apart := (List.nodup_append.mp (perm.nodup_iff.mp distinct)).2.2
  rw [perm.mem_iff, List.mem_append]
  constructor
  · intro isKept
    exact ⟨.inl isKept, fun isLost => apart proc isKept proc isLost rfl⟩
  · rintro ⟨isKept | isLost, notLost⟩
    · exact isKept
    · exact absurd isLost notLost

/-- The samples in the tree are those of the processes that are not lost. -/
theorem exists_sample_mergeLogger
    (distinct : forest.toList.Nodup)
    (sample : ProcessSample) :
    (∃ other ∈ (mergeLogger loggerProc monitoredApp state forest).2.1.toList,
        sample ∈ ((mergeLogger loggerProc monitoredApp state forest).1.objects
          other).samples) ↔
      ∃ other ∈ keptOfLogger loggerProc monitoredApp state.cmd forest,
        sample ∈ (state.objects other).samples := by
  have same : sample ∈ held (population (mergeLogger loggerProc monitoredApp state
      forest).1 (mergeLogger loggerProc monitoredApp state forest).2.1) ↔
        sample ∈ held (state, ↑(keptOfLogger loggerProc monitoredApp state.cmd forest)) := by
    rw [held_mergeLogger distinct]
  simpa only [held, population, Multiset.mem_bind, Multiset.mem_coe] using same

/-- All samples are those of the processes that are lost and those of the others. -/
theorem held_eq_add (state : State) (forest : Forest ProcessId) :
    held (population state forest) =
      held (state, ↑(keptOfLogger loggerProc monitoredApp state.cmd forest)) +
        held (state, ↑(lostWithLogger loggerProc monitoredApp state.cmd forest)) := by
  have perm : forest.toList.Perm
      (keptOfLogger loggerProc monitoredApp state.cmd forest ++ _) :=
    perm_keptOfLogger state.cmd forest
  simp only [held, population, Multiset.coe_eq_coe.mpr perm, ← Multiset.coe_add,
    Multiset.add_bind]

/-- `merge_logger` loses no sample and no end time if and only if whatever is below a
child that it merges holds only samples that a process that is not lost holds as well,
and ends no later than one of these. No sample is lost as an object if and only if what
is below such a child has no samples. -/
theorem mergeLogger_loses_nothing_iff (distinct : forest.toList.Nodup) :
    ((∀ proc ∈ forest.toList, ∀ sample ∈ (state.objects proc).samples,
        ∃ other ∈ (mergeLogger loggerProc monitoredApp state forest).2.1.toList,
          sample ∈ ((mergeLogger loggerProc monitoredApp state forest).1.objects
            other).samples) ∧
        getEndTime state.objects forest ≤
          getEndTime (mergeLogger loggerProc monitoredApp state forest).1.objects
            (mergeLogger loggerProc monitoredApp state forest).2.1 ↔
      ∀ proc ∈ lostWithLogger loggerProc monitoredApp state.cmd forest,
        (∀ sample ∈ (state.objects proc).samples, ∃ other ∈ forest.toList,
          other ∉ lostWithLogger loggerProc monitoredApp state.cmd forest ∧
            sample ∈ (state.objects other).samples) ∧
        ((state.objects proc).getEndTime ≤ -100000000 ∨ ∃ other ∈ forest.toList,
          other ∉ lostWithLogger loggerProc monitoredApp state.cmd forest ∧
            (state.objects proc).getEndTime ≤ (state.objects other).getEndTime)) ∧
    (held (population state forest) ≤
        held (population (mergeLogger loggerProc monitoredApp state forest).1
          (mergeLogger loggerProc monitoredApp state forest).2.1) ↔
      ∀ proc ∈ lostWithLogger loggerProc monitoredApp state.cmd forest,
        (state.objects proc).samples = []) := by
  have perm : forest.toList.Perm
      (keptOfLogger loggerProc monitoredApp state.cmd forest ++ _) :=
    perm_keptOfLogger state.cmd forest
  have isInForest : ∀ proc ∈ lostWithLogger loggerProc monitoredApp state.cmd forest,
      proc ∈ forest.toList :=
    fun proc isLost => perm.mem_iff.mpr (List.mem_append_right _ isLost)
  have ends (proc : ProcessId) :
      (state.objects proc).getEndTime ≤
          getEndTime (mergeLogger loggerProc monitoredApp state forest).1.objects
            (mergeLogger loggerProc monitoredApp state forest).2.1 ↔
        (state.objects proc).getEndTime ≤ -100000000 ∨ ∃ other ∈ forest.toList,
          other ∉ lostWithLogger loggerProc monitoredApp state.cmd forest ∧
            (state.objects proc).getEndTime ≤ (state.objects other).getEndTime := by
    simp only [le_getEndTime, exists_le_getEndTime_mergeLogger distinct,
      mem_keptOfLogger state.cmd distinct, and_assoc]
  simp only [exists_sample_mergeLogger distinct, mem_keptOfLogger state.cmd distinct,
    and_assoc, getEndTime_le, ends]
  constructor
  · constructor
    · rintro ⟨samples, -, endTimes⟩ proc isLost
      exact ⟨samples proc (isInForest proc isLost), endTimes proc (isInForest proc isLost)⟩
    · intro covered
      refine ⟨fun proc member sample isSample => ?_, ?_, fun proc member => ?_⟩
      · by_cases isLost : proc ∈ lostWithLogger loggerProc monitoredApp state.cmd forest
        · exact (covered proc isLost).1 sample isSample
        · exact ⟨proc, member, isLost, isSample⟩
      · rw [le_getEndTime]
        exact .inl le_rfl
      · by_cases isLost : proc ∈ lostWithLogger loggerProc monitoredApp state.cmd forest
        · exact (covered proc isLost).2
        · exact .inr ⟨proc, member, isLost, le_rfl⟩
  · rw [held_mergeLogger distinct, held_eq_add state forest, add_le_iff_nonpos_right,
      Multiset.le_zero, Multiset.eq_zero_iff_forall_notMem]
    simp only [held, Multiset.mem_bind, Multiset.mem_coe, not_exists, not_and,
      List.eq_nil_iff_forall_not_mem]
    exact ⟨fun empty proc isLost sample => empty sample proc isLost,
      fun empty sample proc isLost => empty proc isLost sample⟩

end Pass

/-- A sample. -/
def catSample : ProcessSample :=
  { time := 5, state := ['R'], cpuSample := ⟨none, 1, 0, 0, 0⟩ }

/-- A logger, a process `sleep` and a process `cat` with a sample. -/
def loggerSleepCat : State where
  objects
    | .mapped 1 => { Process.new 1 loggerProc 0 0 with duration := 1 }
    | .mapped 2 => { Process.new 2 ['s', 'l', 'e', 'e', 'p'] 1 0 with duration := 2 }
    | _ =>
        { Process.new 3 ['c', 'a', 't'] 2 1 with duration := 4, samples := [catSample] }
  merges := []

/-- A child of the logger with a child of its own. -/
def sleepWithCat : Forest ProcessId :=
  .cons (.mapped 1) (.cons (.mapped 2) (.cons (.mapped 3) .nil .nil) .nil) .nil

/-- A child of the logger without children. -/
def sleepAlone : Forest ProcessId :=
  .cons (.mapped 1) (.cons (.mapped 2) .nil .nil) .nil

/-- Nothing is lost with a child that has no children. -/
theorem mergeLogger_loses_nothing_sleepAlone :
    getEndTime loggerSleepCat.objects sleepAlone ≤
      getEndTime (mergeLogger loggerProc none loggerSleepCat sleepAlone).1.objects
        (mergeLogger loggerProc none loggerSleepCat sleepAlone).2.1 := by
  have noneLost : lostWithLogger loggerProc none loggerSleepCat.cmd sleepAlone = [] := by
    decide
  refine ((mergeLogger_loses_nothing_iff (by decide)).1.mpr ?_).2
  rw [noneLost]
  exact List.forall_mem_nil _

/-- With the child of a merged child, its sample and the end of the tree are lost. -/
theorem mergeLogger_loses_sleepWithCat :
    (¬∀ proc ∈ sleepWithCat.toList, ∀ sample ∈ (loggerSleepCat.objects proc).samples,
        ∃ other ∈ (mergeLogger loggerProc none loggerSleepCat sleepWithCat).2.1.toList,
          sample ∈ ((mergeLogger loggerProc none loggerSleepCat sleepWithCat).1.objects
            other).samples) ∧
      ¬getEndTime loggerSleepCat.objects sleepWithCat ≤
        getEndTime (mergeLogger loggerProc none loggerSleepCat sleepWithCat).1.objects
          (mergeLogger loggerProc none loggerSleepCat sleepWithCat).2.1 := by
  constructor
  · intro keeps
    have distinct : sleepWithCat.toList.Nodup := by decide
    have found := keeps (.mapped 3) (by decide) catSample (by decide)
    rw [exists_sample_mergeLogger distinct] at found
    revert found
    decide
  · decide +kernel

end ProcessTree
end Bootchart
