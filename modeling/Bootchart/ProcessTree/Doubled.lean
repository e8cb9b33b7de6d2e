import Bootchart.Library.JoinedRuns
import Bootchart.ProcessTree.KernelTree

/-!
# Samples that are counted twice

A process that is merged into another one stays in the list of processes, so the cumulative
graph counts its samples once more. Which processes these are can be seen in the trees
before they are merged: the children that `merge_logger` takes, the processes behind the
first of a run of siblings, and the children of the runs whose children all have the command
of the run.
-/

namespace Bootchart
namespace ProcessTree

open Library (Text Dict Forest)

/-- What the samples of a process add up to. -/
def processTotal (statistic : Statistic) (objects : Objects) (proc : ProcessId) : ℚ :=
  samplesTotal statistic (objects proc).samples

/-- A process with nothing merged into it has the total it had. -/
theorem processTotal_mergeProcesses_of_ne
    (statistic : Statistic)
    (state : State)
    {p1 p2 other : ProcessId}
    (different : other ≠ p1) :
    processTotal statistic (state.mergeProcesses p1 p2).objects other =
      processTotal statistic state.objects other := by
  rw [processTotal, State.objects_mergeProcesses, Function.update_of_ne different]
  rfl

/-- So have all processes of a list without the one that another is merged into. -/
theorem map_processTotal_mergeProcesses
    (statistic : Statistic)
    (state : State)
    {p1 : ProcessId}
    (p2 : ProcessId)
    {others : List ProcessId}
    (notMem : p1 ∉ others) :
    others.map (processTotal statistic (state.mergeProcesses p1 p2).objects) =
      others.map (processTotal statistic state.objects) := by
  refine List.map_congr_left fun other member => ?_
  have different : other ≠ p1 := fun equal => notMem (equal ▸ member)
  exact processTotal_mergeProcesses_of_ne statistic state different

/-- One into which another is merged has the total of both. -/
theorem processTotal_mergeProcesses
    (statistic : Statistic)
    (state : State)
    (p1 p2 : ProcessId) :
    processTotal statistic (state.mergeProcesses p1 p2).objects p1 =
      processTotal statistic state.objects p1 + processTotal statistic state.objects p2 := by
  rw [processTotal, State.objects_mergeProcesses, Function.update_self,
    samplesTotal_mergedProcess]
  rfl

/-- A merge adds what the process held that was merged. -/
@[simp] theorem absorbedTotal_mergeProcesses
    (statistic : Statistic)
    (state : State)
    (p1 p2 : ProcessId) :
    absorbedTotal statistic (state.mergeProcesses p1 p2).merges =
      absorbedTotal statistic state.merges + processTotal statistic state.objects p2 := by
  simp [absorbedTotal, processTotal]

/-! ## The children of loggers -/

section Logger

variable {statistic : Statistic} {loggerProc : Text} {monitoredApp : Option Text}

/-- The children that `merge_logger` merges into loggers: those at which its loop arrives,
and that are not the monitored application. -/
def loggedAway
    (loggerProc : Text)
    (monitoredApp : Option Text)
    (cmd : ProcessId → Text)
    (forest : Forest ProcessId) : List ProcessId :=
  forest.families.flatMap fun family =>
    Library.unmarked (loggerPolicy loggerProc monitoredApp cmd family.1 family.2) family.2

/-- A process absorbs what its children held. -/
theorem absorbedTotal_absorb
    {state : State}
    {proc : ProcessId}
    {children : List ProcessId}
    (others : proc ∉ children) :
    absorbedTotal statistic (state.absorb proc children).merges =
      absorbedTotal statistic state.merges +
        (children.map (processTotal statistic state.objects)).sum := by
  unfold State.absorb
  induction children generalizing state with
  | nil => simp
  | cons child children inductionHypothesis =>
      rw [List.mem_cons, not_or] at others
      rw [List.foldl_cons, inductionHypothesis others.2, absorbedTotal_mergeProcesses,
        map_processTotal_mergeProcesses statistic state child others.2, List.map_cons,
        List.sum_cons, add_assoc]

/-- `merge_logger` merges children of the forest. -/
theorem loggedAway_subset (cmd : ProcessId → Text) (forest : Forest ProcessId) :
    loggedAway loggerProc monitoredApp cmd forest ⊆ forest.toList := by
  intro proc member
  obtain ⟨family, isFamily, isChild⟩ := List.mem_flatMap.mp member
  exact (Forest.family_sublist isFamily).subset (Library.unmarked_subset _ _ isChild)

/-- `merge_logger` counts the children of loggers once more, as they are before. -/
theorem absorbedTotal_mergeLogger
    (statistic : Statistic)
    (loggerProc : Text)
    (monitoredApp : Option Text)
    (state : State)
    {forest : Forest ProcessId}
    (distinct : forest.toList.Nodup) :
    absorbedTotal statistic (mergeLogger loggerProc monitoredApp state forest).1.merges =
      absorbedTotal statistic state.merges +
        ((loggedAway loggerProc monitoredApp state.cmd forest).map
          (processTotal statistic state.objects)).sum := by
  induction forest generalizing state with
  | nil => simp [mergeLogger, loggedAway, Forest.families]
  | cons proc childList siblings first second =>
      obtain ⟨notChild, notSibling, childrenDistinct, siblingsDistinct, apart⟩ :=
        Forest.nodup_toList_cons.mp distinct
      let taken := Library.unmarked (loggerPolicy loggerProc monitoredApp state.cmd proc
        childList.roots) childList.roots
      have areChildren : taken ⊆ childList.toList :=
        List.Subset.trans (Library.unmarked_subset _ _) childList.roots_subset
      -- the children and the siblings are still as they were before the pass
      have sameChildren : (loggedAway loggerProc monitoredApp state.cmd childList).map
          (processTotal statistic (state.absorb proc taken).objects) =
            (loggedAway loggerProc monitoredApp state.cmd childList).map
              (processTotal statistic state.objects) := by
        refine List.map_congr_left fun other member => ?_
        have different : other ≠ proc := by
          rintro rfl
          exact notChild (loggedAway_subset _ _ member)
        rw [processTotal, state.objects_absorb_of_ne different]
        rfl
      have sameSiblings : (loggedAway loggerProc monitoredApp state.cmd siblings).map
          (processTotal statistic (mergeLogger loggerProc monitoredApp
            (state.absorb proc taken) childList).1.objects) =
              (loggedAway loggerProc monitoredApp state.cmd siblings).map
                (processTotal statistic state.objects) := by
        refine List.map_congr_left fun other member => ?_
        have isSibling := loggedAway_subset _ _ member
        have different : other ≠ proc := by
          rintro rfl
          exact notSibling isSibling
        rw [processTotal, objects_mergeLogger_of_notMem _ (apart other isSibling),
          state.objects_absorb_of_ne different]
        rfl
      have ofFamilies : loggedAway loggerProc monitoredApp state.cmd
          (.cons proc childList siblings) = taken ++
            (loggedAway loggerProc monitoredApp state.cmd childList ++
              loggedAway loggerProc monitoredApp state.cmd siblings) := by
        rw [loggedAway, Forest.families, List.flatMap_cons, List.flatMap_append]
        rfl
      simp only [mergeLogger_cons]
      rw [second _ siblingsDistinct, first _ childrenDistinct,
        absorbedTotal_absorb fun member => notChild (areChildren member), ofFamilies,
        cmd_mergeLogger, State.cmd_absorb, sameChildren, sameSiblings]
      simp only [List.map_append, List.sum_append, add_assoc]

end Logger

/-! ## Runs of siblings -/

section Siblings

variable {statistic : Statistic} {state : State} {forest : Forest ProcessId}

/-- A process as its command and its total. -/
def weigh (statistic : Statistic) (state : State) (proc : ProcessId) : Text × ℚ :=
  (state.cmd proc, processTotal statistic state.objects proc)

/-- The totals are added up when processes are merged. -/
def addUp (first second : Text × ℚ) : Text × ℚ :=
  (first.1, first.2 + second.2)

/-- Adding up keeps the command of the first. -/
theorem fst_addUp (first second : Text × ℚ) : (addUp first second).1 = first.1 := rfl

/-- A merge adds up. -/
theorem weigh_mergeProcesses
    (statistic : Statistic)
    (state : State)
    (p1 p2 : ProcessId) :
    weigh statistic (state.mergeProcesses p1 p2) p1 =
      addUp (weigh statistic state p1) (weigh statistic state p2) := by
  rw [weigh, State.cmd_mergeProcesses, processTotal_mergeProcesses]
  rfl

/-- Other processes stay as they are. -/
theorem map_weigh_mergeProcesses
    (statistic : Statistic)
    (state : State)
    {p1 : ProcessId}
    (p2 : ProcessId)
    (notMem : p1 ∉ forest.toList) :
    forest.map (weigh statistic (state.mergeProcesses p1 p2)) =
      forest.map (weigh statistic state) := by
  refine Forest.map_congr fun other member => ?_
  have different : other ≠ p1 := fun equal => notMem (equal ▸ member)
  rw [weigh, State.cmd_mergeProcesses,
    processTotal_mergeProcesses_of_ne statistic state different]
  rfl

/-- So do processes outside of the forest of a pass. -/
theorem weigh_joinings
    (statistic : Statistic)
    {before after : Forest ProcessId}
    {next : State}
    (joinings : Joinings (population state before) (population next after))
    {proc : ProcessId}
    (notMem : proc ∉ before.toList) :
    weigh statistic next proc = weigh statistic state proc := by
  have same : next.objects proc = state.objects proc := objects_joinings joinings notMem
  simp only [weigh, State.cmd, processTotal, same]

/-- And processes apart from it. -/
theorem map_weigh_joinings
    (statistic : Statistic)
    {before after others : Forest ProcessId}
    {next : State}
    (joinings : Joinings (population state before) (population next after))
    (apart : ∀ proc ∈ others.toList, proc ∉ before.toList) :
    others.map (weigh statistic next) = others.map (weigh statistic state) :=
  Forest.map_congr fun other member => weigh_joinings statistic joinings (apart other member)

/-- A tree and its siblings after the next root has joined it, and their children have been
merged. -/
theorem map_weigh_next
    {p nextp : ProcessId}
    {middle : State}
    {gathered children siblings : Forest ProcessId}
    (distinct : (Forest.cons p gathered siblings).toList.Nodup)
    (ofChildren : Joinings (population (state.mergeProcesses p nextp) gathered)
      (population middle children))
    (merged : children.map (weigh statistic middle) =
      (gathered.map (weigh statistic (state.mergeProcesses p nextp))).mergeAlike addUp
        Prod.fst) :
    (Forest.cons p children siblings).map (weigh statistic middle) =
      .cons (addUp (weigh statistic state p) (weigh statistic state nextp))
        ((gathered.map (weigh statistic state)).mergeAlike addUp Prod.fst)
        (siblings.map (weigh statistic state)) := by
  obtain ⟨notChild, notSibling, -, -, apart⟩ := Forest.nodup_toList_cons.mp distinct
  rw [Forest.map_cons, merged, weigh_joinings statistic ofChildren notChild,
    map_weigh_joinings statistic ofChildren apart, weigh_mergeProcesses,
    map_weigh_mergeProcesses statistic state nextp notChild,
    map_weigh_mergeProcesses statistic state nextp notSibling]

/-- `merge_siblings` adds up the totals of the processes that become one. -/
theorem map_weigh_mergeSiblingsFrom
    (statistic : Statistic)
    (state : State)
    (distinct : forest.toList.Nodup) :
    (mergeSiblingsFrom state forest).1.2.1.map
        (weigh statistic (mergeSiblingsFrom state forest).1.1) =
      (forest.map (weigh statistic state)).mergeAlike addUp Prod.fst := by
  fun_induction mergeSiblingsFrom state forest with
  | case1 state => exact Forest.mergeAlike_nil.symm
  | case2 state p childList after children removed _ areChildren inductionHypothesis =>
      have ofChildren := joinings_mergeSiblingsFrom state childList
      obtain ⟨notChild, -, childrenDistinct, -⟩ := Forest.nodup_toList_cons.mp distinct
      rw [areChildren] at inductionHypothesis ofChildren
      rw [Forest.map_cons, inductionHypothesis childrenDistinct,
        weigh_joinings statistic ofChildren notChild, Forest.map_cons, Forest.map_nil,
        Forest.map_nil, Forest.mergeAlike_single]
  | case3 state p childList nextp nextChildList siblings same middle children removed _
      areChildren after result more _ isResult first second =>
      have ofChildren := joinings_mergeSiblingsFrom (state.mergeProcesses p nextp)
        (childList ++ nextChildList)
      have together := nodup_joinings (joinings_next same) distinct
      have childrenDistinct := (Forest.nodup_toList_cons.mp together).2.2.1
      rw [areChildren] at first ofChildren
      rw [isResult] at second
      have stillDistinct := nodup_joinings (ofChildren.children_siblings .refl) together
      rw [second stillDistinct, map_weigh_next together ofChildren (first childrenDistinct),
        Forest.mergeAlike_cons_mergeAlike fst_addUp, Forest.map_append, Forest.map_cons,
        Forest.map_cons, Forest.mergeAlike_of_eq]
      exact same
  | case4 state p childList nextp nextChildList siblings different middle children
      removed _ areChildren after rest more _ areRest first second =>
      have ofChildren := joinings_mergeSiblingsFrom state childList
      have ofSiblings := joinings_mergeSiblingsFrom middle (.cons nextp nextChildList siblings)
      obtain ⟨notChild, notSibling, childrenDistinct, siblingsDistinct, apart⟩ :=
        Forest.nodup_toList_cons.mp distinct
      rw [areChildren] at first ofChildren
      rw [areRest] at second ofSiblings
      have stillApart : ∀ proc ∈ children.toList,
          proc ∉ (Forest.cons nextp nextChildList siblings).toList := fun proc member
          isSibling =>
        apart proc isSibling (subset_joinings ofChildren childrenDistinct member)
      rw [Forest.map_cons, weigh_joinings statistic ofSiblings notSibling,
        weigh_joinings statistic ofChildren notChild,
        map_weigh_joinings statistic ofSiblings stillApart, first childrenDistinct,
        second siblingsDistinct, map_weigh_joinings statistic ofChildren apart,
        Forest.map_cons, Forest.map_cons, Forest.map_cons, Forest.mergeAlike_of_ne]
      exact different

/-- What the processes behind the first of a run hold, by the weights. -/
theorem sum_followers (statistic : Statistic) (state : State) (forest : Forest ProcessId) :
    ((Forest.followers state.cmd forest).map (processTotal statistic state.objects)).sum =
      ((Forest.followers Prod.fst (forest.map (weigh statistic state))).map Prod.snd).sum := by
  rw [Forest.followers_map (fun _ => rfl), List.map_map]
  rfl

/-- `merge_siblings` counts the processes behind the first of a run once more, as they are
before. -/
theorem absorbedTotal_mergeSiblingsFrom
    (statistic : Statistic)
    (state : State)
    (distinct : forest.toList.Nodup) :
    absorbedTotal statistic (mergeSiblingsFrom state forest).1.1.merges =
      absorbedTotal statistic state.merges +
        ((Forest.followers state.cmd forest).map
          (processTotal statistic state.objects)).sum := by
  simp only [sum_followers]
  fun_induction mergeSiblingsFrom state forest with
  | case1 state => simp
  | case2 state p childList after children removed _ areChildren inductionHypothesis =>
      have childrenDistinct := (Forest.nodup_toList_cons.mp distinct).2.2.1
      rw [areChildren] at inductionHypothesis
      rw [inductionHypothesis childrenDistinct, Forest.map_cons, Forest.map_nil,
        Forest.followers_single]
  | case3 state p childList nextp nextChildList siblings same middle children removed _
      areChildren after result more _ isResult first second =>
      have ofChildren := joinings_mergeSiblingsFrom (state.mergeProcesses p nextp)
        (childList ++ nextChildList)
      have together := nodup_joinings (joinings_next same) distinct
      obtain ⟨notChild, -, childrenDistinct, -⟩ := Forest.nodup_toList_cons.mp together
      have merged := map_weigh_mergeSiblingsFrom statistic (state.mergeProcesses p nextp)
        childrenDistinct
      rw [areChildren] at first ofChildren merged
      rw [isResult] at second
      have stillDistinct := nodup_joinings (ofChildren.children_siblings .refl) together
      have sameWeights := map_weigh_mergeProcesses statistic state nextp notChild
      -- the children come first, and then the siblings with the merged children
      let gathered := (childList ++ nextChildList).map (weigh statistic state)
      have perm := Forest.followers_cons_mergeAlike_perm fst_addUp
        (addUp (weigh statistic state p) (weigh statistic state nextp)) gathered
        (siblings.map (weigh statistic state))
      have sums := (perm.map Prod.snd).sum_eq
      rw [List.map_append, List.sum_append,
        Forest.followers_root (fst_addUp _ _) gathered] at sums
      rw [second stillDistinct, first childrenDistinct, absorbedTotal_mergeProcesses,
        map_weigh_next together ofChildren merged, sameWeights, Forest.map_cons,
        Forest.map_cons, Forest.followers_of_eq, List.map_cons, List.sum_cons,
        ← Forest.map_append, ← sums]
      · simp only [weigh]
        ring
      · exact same
  | case4 state p childList nextp nextChildList siblings different middle children
      removed _ areChildren after rest more _ areRest first second =>
      have ofChildren := joinings_mergeSiblingsFrom state childList
      obtain ⟨-, -, childrenDistinct, siblingsDistinct, apart⟩ :=
        Forest.nodup_toList_cons.mp distinct
      rw [areChildren] at first ofChildren
      rw [areRest] at second
      rw [second siblingsDistinct, first childrenDistinct,
        map_weigh_joinings statistic ofChildren apart, Forest.map_cons, Forest.map_cons,
        Forest.map_cons, Forest.followers_of_ne, List.map_append, List.sum_append, add_assoc]
      exact different

end Siblings

/-! ## Only children -/

section Runs

variable {state : State} {forest : Forest ProcessId}

/-- First the children are merged, then the siblings; a process that does not merge with
its child adds nothing. -/
theorem absorbedTotal_children_siblings
    {statistic : Statistic}
    {p : ProcessId}
    {childList children siblings : Forest ProcessId}
    {middle last : State}
    (distinct : (Forest.cons p childList siblings).toList.Nodup)
    (stays : Forest.onlyChild state.cmd p childList.roots = [])
    (ofChildren : Joinings (population state childList) (population middle children))
    (first : absorbedTotal statistic middle.merges = absorbedTotal statistic state.merges +
      ((Forest.onlyChildren state.cmd childList).map
        (processTotal statistic state.objects)).sum)
    (second : absorbedTotal statistic last.merges = absorbedTotal statistic middle.merges +
      ((Forest.onlyChildren middle.cmd siblings).map
        (processTotal statistic middle.objects)).sum) :
    absorbedTotal statistic last.merges = absorbedTotal statistic state.merges +
      ((Forest.onlyChildren state.cmd (.cons p childList siblings)).map
        (processTotal statistic state.objects)).sum := by
  obtain ⟨-, -, -, -, apart⟩ := Forest.nodup_toList_cons.mp distinct
  have sameCmd : middle.cmd = state.cmd := cmd_absorptions ofChildren.absorptions
  have unchanged : (Forest.onlyChildren state.cmd siblings).map
      (processTotal statistic middle.objects) =
        (Forest.onlyChildren state.cmd siblings).map
          (processTotal statistic state.objects) := by
    refine List.map_congr_left fun other member => ?_
    have isSibling := Forest.onlyChildren_subset _ _ member
    exact congrArg Prod.snd (weigh_joinings statistic ofChildren (apart other isSibling))
  rw [second, first, sameCmd, unchanged, Forest.onlyChildren_cons, stays, List.nil_append,
    List.map_append, List.sum_append, add_assoc]

/-- `merge_runs` counts the only children with the command of their parents once more, as
they are before. -/
theorem absorbedTotal_mergeRuns
    (statistic : Statistic)
    (state : State)
    (distinct : forest.toList.Nodup) :
    absorbedTotal statistic (mergeRuns state forest).1.merges =
      absorbedTotal statistic state.merges +
        ((Forest.onlyChildren state.cmd forest).map
          (processTotal statistic state.objects)).sum := by
  fun_induction mergeRuns state forest with
  | case1 state => simp
  | case2 state p child grandchildren siblings same after result more isResult
      inductionHypothesis =>
      have together := nodup_joinings (joinings_child same) distinct
      obtain ⟨notBelow, notSibling, -⟩ := Forest.nodup_toList_cons.mp together
      have notMem : p ∉ Forest.onlyChildren state.cmd (.cons p grandchildren siblings) := by
        intro member
        rcases List.mem_append.mp (Forest.onlyChildren_cons_subset _ _ _ member) with
          isBelow | isSibling
        · exact notBelow isBelow
        · exact notSibling isSibling
      -- the children of the child count below the parent as they did below the child
      have sameChild : Forest.onlyChild state.cmd child grandchildren.roots =
          Forest.onlyChild state.cmd p grandchildren.roots := by
        unfold Forest.onlyChild
        simp only [same]
      have isOnly : Forest.onlyChild state.cmd p [child] = [child] := by
        rw [Forest.onlyChild, if_pos same]
      rw [isResult] at inductionHypothesis
      rw [inductionHypothesis together, absorbedTotal_mergeProcesses,
        State.cmd_mergeProcesses, map_processTotal_mergeProcesses statistic state child notMem]
      simp only [Forest.onlyChildren_cons, Forest.onlyChildren_nil, Forest.roots_cons,
        Forest.roots_nil, isOnly, sameChild, List.map_append, List.sum_append,
        List.map_cons, List.sum_cons, List.map_nil, List.sum_nil, List.append_nil]
      ring
  | case3 state p child grandchildren siblings different middle children removed areChildren
      after rest more areRest first second =>
      have ofChildren := joinings_mergeRuns state (.cons child grandchildren .nil)
      obtain ⟨-, -, childDistinct, siblingsDistinct, -⟩ :=
        Forest.nodup_toList_cons.mp distinct
      have stays : Forest.onlyChild state.cmd p [child] = [] := by
        rw [Forest.onlyChild, if_neg different]
      rw [areChildren] at first ofChildren
      rw [areRest] at second
      exact absorbedTotal_children_siblings distinct stays ofChildren (first childDistinct)
        (second siblingsDistinct)
  | case4 state p childList siblings notSingle middle children removed areChildren after
      rest more areRest first second =>
      have ofChildren := joinings_mergeRuns state childList
      obtain ⟨-, -, childrenDistinct, siblingsDistinct, -⟩ :=
        Forest.nodup_toList_cons.mp distinct
      have stays : Forest.onlyChild state.cmd p childList.roots = [] := by
        unfold Forest.onlyChild
        split
        next child isSingle =>
          obtain ⟨grandchildren, isCons⟩ := Forest.roots_eq_singleton.mp isSingle
          exact absurd isCons (notSingle child grandchildren)
        next => rfl
      rw [areChildren] at first ofChildren
      rw [areRest] at second
      exact absorbedTotal_children_siblings distinct stays ofChildren
        (first childrenDistinct) (second siblingsDistinct)

/-- The processes that `merge_siblings` and `merge_runs` merge into others, as often as
their samples are counted again: those behind the first of a run, and the children of the
runs whose children all have the command of the run. -/
def mergedAway (cmd : ProcessId → Text) (forest : Forest ProcessId) : List ProcessId :=
  forest.followers cmd ++ forest.alikeChildren cmd

/-- What both passes count once more. -/
theorem absorbedTotal_both
    {merged last : State}
    {rest result : Forest ProcessId}
    {threads runs : Nat}
    (statistic : Statistic)
    (distinct : forest.toList.Nodup)
    (ofSiblings : mergeSiblings state forest = (merged, rest, threads))
    (ofRuns : mergeRuns merged rest = (last, result, runs)) :
    absorbedTotal statistic last.merges = absorbedTotal statistic state.merges +
      ((mergedAway state.cmd forest).map (processTotal statistic state.objects)).sum := by
  have isMerged : (mergeSiblingsFrom state forest).1 = (merged, rest, threads) := ofSiblings
  have joinings := joinings_mergeSiblingsFrom state forest
  have first := absorbedTotal_mergeSiblingsFrom statistic state distinct
  have weights := map_weigh_mergeSiblingsFrom statistic state distinct
  rw [isMerged] at joinings first weights
  have second := absorbedTotal_mergeRuns statistic merged (nodup_joinings joinings distinct)
  rw [ofRuns] at second
  have only : ((Forest.onlyChildren merged.cmd rest).map
      (processTotal statistic merged.objects)).sum =
        ((Forest.alikeChildren state.cmd forest).map
          (processTotal statistic state.objects)).sum := by
    calc ((Forest.onlyChildren merged.cmd rest).map
          (processTotal statistic merged.objects)).sum
      _ = ((Forest.onlyChildren Prod.fst (rest.map (weigh statistic merged))).map
            Prod.snd).sum := by
          rw [Forest.onlyChildren_map (fun _ => rfl), List.map_map]
          rfl
      _ = ((Forest.alikeChildren Prod.fst (forest.map (weigh statistic state))).map
            Prod.snd).sum := by
          rw [weights]
          exact Forest.sum_onlyChildren_mergeAlike fst_addUp (fun _ _ => rfl) _
      _ = _ := by
          rw [Forest.alikeChildren_map (fun _ => rfl), List.map_map]
          rfl
  rw [second, first, only, mergedAway, List.map_append, List.sum_append, add_assoc]

end Runs

/-! ## Making a tree -/

section Complete

variable {samplePeriod : ℚ} {monitoredApp : Option Text}
variable {accurateParentage : Bool} {objects : Objects} {processes : List ProcessId}
variable {first : Objects × Forest ProcessId} {before : State × Forest ProcessId}

/-- The children of loggers in the tree that is built first. -/
def loggedFirst
    (monitoredApp : Option Text)
    (first : Objects × Forest ProcessId) : List ProcessId :=
  loggedAway loggerProc monitoredApp (fun proc => (first.1 proc).cmd) first.2

/-- The processes that are merged after pruning, none without. -/
def mergedAfter (isPruned : Bool) (before : State × Forest ProcessId) : List ProcessId :=
  if isPruned then mergedAway before.1.cmd before.2 else []

/-- What `merge_logger` counts once more. -/
theorem absorbedTotal_before
    (statistic : Statistic)
    (nodup : processes.Nodup)
    (built : firstTree accurateParentage objects processes = some first)
    (isBefore : beforeMerging samplePeriod monitoredApp accurateParentage objects processes =
      some before) :
    absorbedTotal statistic before.1.merges =
      ((loggedFirst monitoredApp first).map (processTotal statistic objects)).sum := by
  obtain ⟨-, ⟨logged, removed, period, isLogged, -⟩, -⟩ :=
    beforeMerging_spec nodup built isBefore
  have distinct : first.2.toList.Nodup := by
    rw [eq_tree_of_firstTree built]
    exact nodup_tree nodup
  have ofLogger := absorbedTotal_mergeLogger statistic loggerProc monitoredApp
    { objects := first.1, merges := [] } distinct
  have sameTotals : processTotal statistic first.1 = processTotal statistic objects := by
    funext proc
    rw [processTotal, (firstTree_spec built).1]
    rfl
  rw [isLogged, sameTotals] at ofLogger
  rw [ofLogger]
  exact zero_add _

/-- What all passes count once more. -/
theorem absorbedTotal_complete
    (statistic : Statistic)
    (isPruned : Bool)
    (nodup : processes.Nodup)
    (built : firstTree accurateParentage objects processes = some first)
    (isBefore : beforeMerging samplePeriod monitoredApp accurateParentage objects processes =
      some before) :
    absorbedTotal statistic (complete samplePeriod monitoredApp isPruned processes first.1
        first.2).state.merges =
      ((loggedFirst monitoredApp first).map (processTotal statistic objects)).sum +
        ((mergedAfter isPruned before).map
          (processTotal statistic before.1.objects)).sum := by
  have ofLogger := absorbedTotal_before statistic nodup built isBefore
  obtain ⟨distinct, ⟨logged, removed, period, isLogged, -⟩, merged, rest, threads, last,
    result, runs, ofSiblings, ofRuns, isPasses⟩ := beforeMerging_spec nodup built isBefore
  cases isPruned with
  | false =>
      have unpruned : (complete samplePeriod monitoredApp false processes first.1
          first.2).state = before.1 := by
        rw [complete, passes, isLogged]
        rfl
      rw [unpruned, ofLogger]
      exact (add_zero _).symm
  | true =>
      have isLast : (complete samplePeriod monitoredApp true processes first.1
          first.2).state = last := by
        rw [complete, isPasses]
      rw [isLast, absorbedTotal_both statistic distinct ofSiblings ofRuns, ofLogger]
      rfl

/-- Processes whose samples are not negative add up to zero only if all samples are
zero. -/
theorem sum_processTotal_eq_zero
    {statistic : Statistic}
    {objects : Objects}
    {processes : List ProcessId}
    (nonNegative : ∀ proc ∈ processes, ∀ sample ∈ (objects proc).samples,
      0 ≤ statistic.value sample) :
    0 ≤ (processes.map (processTotal statistic objects)).sum ∧
      ((processes.map (processTotal statistic objects)).sum = 0 ↔
        ∀ proc ∈ processes, ∀ sample ∈ (objects proc).samples,
          statistic.value sample = 0) := by
  have totals : ∀ value ∈ processes.map (processTotal statistic objects), 0 ≤ value :=
    List.forall_mem_map.mpr fun proc member =>
      List.sum_nonneg (List.forall_mem_map.mpr (nonNegative proc member))
  refine ⟨List.sum_nonneg totals, fun noTotal proc member => ?_, fun allZero => ?_⟩
  · exact (samplesTotal_eq_zero (nonNegative proc member)).mp
      (List.all_zero_of_le_zero_le_of_sum_eq_zero totals noTotal
        (List.mem_map_of_mem member))
  · exact List.sum_eq_zero (List.forall_mem_map.mpr fun proc member =>
      (samplesTotal_eq_zero (nonNegative proc member)).mpr (allZero proc member))

/-- `merge_logger` merges processes of the list. -/
theorem mergeRun_before
    (nodup : processes.Nodup)
    (built : firstTree accurateParentage objects processes = some first)
    (isBefore : beforeMerging samplePeriod monitoredApp accurateParentage objects processes =
      some before) :
    MergeRun processes { objects := first.1, merges := [] } before.1 := by
  obtain ⟨-, ⟨logged, removed, period, isLogged, -⟩, -⟩ :=
    beforeMerging_spec nodup built isBefore
  have run := (onlyMerges_mergeLogger loggerProc monitoredApp
    { objects := first.1, merges := [] } (firstTree_spec built).2).1
  rw [isLogged] at run
  exact run

/-- The processes that are merged after pruning are in the list. -/
theorem mergedAfter_subset
    (isPruned : Bool)
    (nodup : processes.Nodup)
    (built : firstTree accurateParentage objects processes = some first)
    (isBefore : beforeMerging samplePeriod monitoredApp accurateParentage objects processes =
      some before) :
    mergedAfter isPruned before ⊆ processes := by
  obtain ⟨-, ⟨logged, removed, period, isLogged, isForest⟩, -⟩ :=
    beforeMerging_spec nodup built isBefore
  have subset := (onlyMerges_mergeLogger loggerProc monitoredApp
    { objects := first.1, merges := [] } (firstTree_spec built).2).2
  rw [isLogged] at subset
  have inForest : before.2.toList ⊆ processes := by
    rw [← isForest]
    exact List.Subset.trans (toList_prune_subperm _ _ _).subset
      (List.Subset.trans subset (firstTree_spec built).2)
  unfold mergedAfter mergedAway
  split
  · exact List.Subset.trans (List.append_subset.mpr
      ⟨Forest.followers_subset _ _, Forest.alikeChildren_subset _ _⟩) inForest
  · exact List.nil_subset _

section NonNegative

variable {statistic : Statistic}
variable (nonNegative : ∀ proc ∈ processes, ∀ sample ∈ (objects proc).samples,
  0 ≤ statistic.value sample)

include nonNegative

/-- No sample is negative before the other passes. -/
theorem nonNegative_before
    (nodup : processes.Nodup)
    (built : firstTree accurateParentage objects processes = some first)
    (isBefore : beforeMerging samplePeriod monitoredApp accurateParentage objects processes =
      some before) : NonNegative statistic processes before.1 := by
  refine nonNegative_mergeRun ⟨fun proc member sample isSample => ?_, by simp⟩
    (mergeRun_before nodup built isBefore)
  rw [(firstTree_spec built).1] at isSample
  exact nonNegative proc member sample isSample

/-- If the children of loggers came with zeros only, a process holds only zeros before the
other passes if and only if it came with zeros only. -/
theorem zeros_before_iff
    (nodup : processes.Nodup)
    (built : firstTree accurateParentage objects processes = some first)
    (isBefore : beforeMerging samplePeriod monitoredApp accurateParentage objects processes =
      some before)
    (loggedZero : ((loggedFirst monitoredApp first).map
      (processTotal statistic objects)).sum = 0)
    (proc : ProcessId) :
    (∀ sample ∈ (before.1.objects proc).samples, statistic.value sample = 0) ↔
      ∀ sample ∈ (objects proc).samples, statistic.value sample = 0 := by
  have run := mergeRun_before nodup built isBefore
  have noTotal := (absorbedTotal_before statistic nodup built isBefore).trans loggedZero
  have mergedZero := (zeroMerges_iff run).mp ((absorbedTotal_eq_zero
    (nonNegative_before nonNegative nodup built isBefore).2).mp noTotal)
  obtain ⟨own, origin⟩ := samples_mergeRun run proc
  rw [← (firstTree_spec built).1]
  constructor
  · intro zeros sample member
    exact zeros sample (own member)
  · intro zeros sample member
    rcases origin sample member with isOwn | ⟨merge, wasMerged, inMerge⟩
    · exact zeros sample isOwn
    · exact mergedZero merge wasMerged sample inMerge

/-- Nothing is counted once more if and only if all that is counted once more came with
zeros only. -/
theorem sum_eq_zero_iff_zeros
    (isPruned : Bool)
    (nodup : processes.Nodup)
    (built : firstTree accurateParentage objects processes = some first)
    (isBefore : beforeMerging samplePeriod monitoredApp accurateParentage objects processes =
      some before) :
    ((loggedFirst monitoredApp first).map (processTotal statistic objects)).sum +
        ((mergedAfter isPruned before).map
          (processTotal statistic before.1.objects)).sum = 0 ↔
      ∀ proc ∈ loggedFirst monitoredApp first ++ mergedAfter isPruned before,
        ∀ sample ∈ (objects proc).samples, statistic.value sample = 0 := by
  have areLogged : loggedFirst monitoredApp first ⊆ processes :=
    List.Subset.trans (loggedAway_subset _ _) (firstTree_spec built).2
  have areMerged := mergedAfter_subset isPruned nodup built isBefore
  have logged := sum_processTotal_eq_zero fun proc member =>
    nonNegative proc (areLogged member)
  have merged := sum_processTotal_eq_zero fun proc member =>
    (nonNegative_before nonNegative nodup built isBefore).1 proc (areMerged member)
  rw [add_eq_zero_iff_of_nonneg logged.1 merged.1, List.forall_mem_append, ← logged.2,
    merged.2]
  refine and_congr_right fun loggedZero => forall₂_congr fun proc _ => ?_
  exact zeros_before_iff nonNegative nodup built isBefore loggedZero proc

end NonNegative

end Complete

section Init

variable {samplePeriod : ℚ} {monitoredApp : Option Text}
variable {isPruned accurateParentage : Bool} {kernel : List Process}
variable {processMap : Dict Int Process} {finished : Finished}

/-- The total over the list of processes is the same after making a tree as before if and
only if the children of loggers at which the loop of `merge_logger` arrives, as they came,
and with pruning the processes that are behind the first of a run of siblings or are children
of a run whose children all have its command, as they are in the tree before these are
merged, add up to zero; if no value is negative, if and only if all these came with zeros
only. -/
theorem total_init_eq_iff
    (made : init samplePeriod monitoredApp isPruned accurateParentage kernel processMap =
      some finished)
    (statistic : Statistic) :
    ∃ first ∈ firstTree accurateParentage (objects kernel processMap) finished.processList,
      ∃ before ∈ beforeMerging samplePeriod monitoredApp accurateParentage
          (objects kernel processMap) finished.processList,
        (total statistic finished.state.objects finished.processList =
            total statistic (objects kernel processMap) finished.processList ↔
          ((loggedFirst monitoredApp first).map
              (processTotal statistic (objects kernel processMap))).sum +
            ((mergedAfter isPruned before).map
              (processTotal statistic before.1.objects)).sum = 0) ∧
        ((∀ proc ∈ finished.processList, ∀ sample ∈ (objects kernel processMap proc).samples,
            0 ≤ statistic.value sample) →
          (total statistic finished.state.objects finished.processList =
              total statistic (objects kernel processMap) finished.processList ↔
            ∀ proc ∈ loggedFirst monitoredApp first ++ mergedAfter isPruned before,
              ∀ sample ∈ (objects kernel processMap proc).samples,
                statistic.value sample = 0)) := by
  have nodup : (sortByPid (objects kernel processMap)
      (processIds kernel processMap)).Nodup :=
    (List.mergeSort_perm _ _).nodup_iff.mpr (nodup_processIds _ _)
  have added := total_finish statistic nodup made
  have isFinish := finish_eq samplePeriod monitoredApp isPruned accurateParentage
    (objects kernel processMap) (sortByPid (objects kernel processMap)
      (processIds kernel processMap))
  obtain ⟨first, built, rfl⟩ := Option.map_eq_some_iff.mp (isFinish.symm.trans made)
  obtain ⟨before, isBefore⟩ := beforeMerging_eq_some samplePeriod monitoredApp built
  rw [absorbedTotal_complete statistic isPruned nodup built isBefore] at added
  refine ⟨first, built, before, isBefore, ?_, fun nonNegative => ?_⟩
  · rw [added]
    exact add_eq_left
  · rw [added, ← sum_eq_zero_iff_zeros nonNegative isPruned nodup built isBefore]
    exact add_eq_left

/-- A child of the process with the pid 1, with the same load in each of three frames. -/
def worker (pid load : ℚ) : Process :=
  let sample (time : ℚ) : ProcessSample :=
    { time := time, state := ['R'], cpuSample := ⟨none, load, 0, 0, 0⟩ }
  { Process.new pid ['w'] 1000 1 with
    parent := some (.mapped 1000)
    samples := [sample 1, sample 2, sample 3] }.calcStats 1

/-- A process and two children of it with the same name, the second with a given load. -/
def twoWorkers (load : ℚ) : Dict Int Process :=
  ((Dict.empty.set 1000 { Process.new 1000 ['i'] 0 0 with duration := 100 }).set
    2000 (worker 2000 1)).set 3000 (worker 3000 load)

/-- They are sorted by their pids. -/
theorem sortByPid_twoWorkers (load : ℚ) :
    sortByPid (objects [] (twoWorkers load)) (processIds [] (twoWorkers load)) =
      [.mapped 1000, .mapped 2000, .mapped 3000] := by
  have sorted : ([.mapped 1000, .mapped 2000, .mapped 3000] : List ProcessId).Pairwise
      fun first second => decide ((objects [] (twoWorkers load) first).pid ≤
        (objects [] (twoWorkers load) second).pid) := by
    have first : (objects [] (twoWorkers load) (.mapped 1000)).pid = 1000 := rfl
    have second : (objects [] (twoWorkers load) (.mapped 2000)).pid = 2000 := rfl
    have third : (objects [] (twoWorkers load) (.mapped 3000)).pid = 3000 := rfl
    norm_num [first, second, third]
  exact List.mergeSort_of_pairwise sorted

/-- The second child is merged into the first; if it came without load, the total stays. -/
theorem total_init_twoWorkers :
    ∃ finished, init 1 none true true [] (twoWorkers 0) = some finished ∧
      finished.state.merges.map Merge.absorbed = [.mapped 3000] ∧
      total .cpu finished.state.objects finished.processList =
        total .cpu (objects [] (twoWorkers 0)) finished.processList := by
  have ofOneWorker : (init 1 none true true [] (twoWorkers 0)).map (fun finished =>
      (finished.processList, finished.state.merges.map Merge.absorbed)) =
        some ([.mapped 1000, .mapped 2000, .mapped 3000], [.mapped 3000]) := by
    rw [init, sortByPid_twoWorkers]
    decide +kernel
  obtain ⟨finished, made, values⟩ := Option.map_eq_some_iff.mp ofOneWorker
  obtain ⟨processes, absorbed⟩ := Prod.mk.inj values
  obtain ⟨first, built, before, isBefore, -, zeros⟩ := total_init_eq_iff made .cpu
  rw [processes] at built isBefore zeros
  have logged : (firstTree true (objects [] (twoWorkers 0))
      [.mapped 1000, .mapped 2000, .mapped 3000]).map (loggedFirst none) = some [] := by
    decide +kernel
  have merged : (beforeMerging 1 none true (objects [] (twoWorkers 0))
      [.mapped 1000, .mapped 2000, .mapped 3000]).map (mergedAfter true) =
        some [.mapped 3000] := by
    decide +kernel
  rw [Option.mem_def.mp built] at logged
  rw [Option.mem_def.mp isBefore] at merged
  refine ⟨finished, made, absorbed, ?_⟩
  rw [processes]
  refine (zeros (by decide +kernel)).mpr ?_
  rw [Option.some.inj logged, Option.some.inj merged]
  decide +kernel

/-- If it came with load, the total grows. -/
theorem not_total_init_twoWorkers :
    ∃ finished, init 1 none true true [] (twoWorkers 1) = some finished ∧
      total .cpu finished.state.objects finished.processList = 9 ∧
      total .cpu (objects [] (twoWorkers 1)) finished.processList = 6 := by
  have ofOneWorker : (init 1 none true true [] (twoWorkers 1)).map
      (fun finished => (finished.processList, absorbedTotal .cpu finished.state.merges)) =
        some ([.mapped 1000, .mapped 2000, .mapped 3000], 3) := by
    rw [init, sortByPid_twoWorkers]
    decide +kernel
  obtain ⟨finished, made, values⟩ := Option.map_eq_some_iff.mp ofOneWorker
  obtain ⟨processes, absorbed⟩ := Prod.mk.inj values
  rw [init, sortByPid_twoWorkers] at made
  have before : total .cpu (objects [] (twoWorkers 1)) [.mapped 1000, .mapped 2000,
      .mapped 3000] = 6 := by
    decide +kernel
  have added := total_finish .cpu (by decide) made
  rw [absorbed, before] at added
  refine ⟨finished, by rw [init, sortByPid_twoWorkers, made], ?_, ?_⟩
  · rw [added]
    norm_num
  · rw [processes, before]

end Init

end ProcessTree
end Bootchart
