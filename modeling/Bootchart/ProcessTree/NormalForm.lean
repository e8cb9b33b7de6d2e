import Bootchart.Library.LabelledForest
import Bootchart.ProcessTree.Absorption

/-!
# Merging siblings and runs

`merge_siblings` followed by `merge_runs` makes a normal form that neither of them
changes again. Processes are only absorbed, so that the samples, the start time and
the end time of the tree stay, and the counts are the processes that left the tree.
-/

namespace Bootchart
namespace ProcessTree

open Library (Text Forest)

/-! ## In the passes processes join others -/

section Passes

variable {state : State} {forest : Forest ProcessId}

/-- First the children change, then the siblings. -/
theorem Joinings.children_siblings
    {middle last : State}
    {proc : ProcessId}
    {childList siblings children rest : Forest ProcessId}
    (first : Joinings (population state childList) (population middle children))
    (second : Joinings (population middle siblings) (population last rest)) :
    Joinings (population state (.cons proc childList siblings))
      (population last (.cons proc children rest)) := by
  have before := Joinings.add first (proc ::ₘ (siblings.toList : Multiset ProcessId))
  have after := Joinings.add second (proc ::ₘ (children.toList : Multiset ProcessId))
  simp only [population, Forest.toList_cons, ← Multiset.cons_coe, ← Multiset.coe_add,
    Multiset.add_cons] at before after ⊢
  rw [add_comm (siblings.toList : Multiset ProcessId),
    add_comm (rest.toList : Multiset ProcessId)] at after
  exact before.trans after

/-- The root behind another one joins it if it has the same command, and its children become
those of the other. -/
theorem joinings_next
    {p nextp : ProcessId}
    {childList nextChildList siblings : Forest ProcessId}
    (same : state.cmd nextp = state.cmd p) :
    Joinings (population state (.cons p childList (.cons nextp nextChildList siblings)))
      (population (state.mergeProcesses p nextp)
        (.cons p (childList ++ nextChildList) siblings)) := by
  refine .single ⟨p, nextp, ↑(childList.toList ++ nextChildList.toList ++
    siblings.toList), ?_, same, ?_⟩
  · simp only [population, Forest.toList_cons, Multiset.cons_coe, Multiset.coe_eq_coe]
    refine List.Perm.cons p ?_
    rw [List.append_assoc]
    exact List.perm_middle
  · simp only [population, Forest.toList_cons, Forest.toList_append, Multiset.cons_coe]

/-- A single child joins its parent if it has the same command. -/
theorem joinings_child
    {p child : ProcessId}
    {grandchildren siblings : Forest ProcessId}
    (same : state.cmd child = state.cmd p) :
    Joinings (population state (.cons p (.cons child grandchildren .nil) siblings))
      (population (state.mergeProcesses p child) (.cons p grandchildren siblings)) := by
  refine .single ⟨p, child, ↑(grandchildren.toList ++ siblings.toList), ?_, same, ?_⟩
  · simp only [population, Forest.toList_cons, Forest.toList_nil, List.append_nil,
      Multiset.cons_coe, List.cons_append]
  · simp only [population, Forest.toList_cons, Multiset.cons_coe]

/-- `merge_siblings` lets processes join others. -/
theorem joinings_mergeSiblingsFrom (state : State) (forest : Forest ProcessId) :
    Joinings (population state forest)
      (population (mergeSiblingsFrom state forest).1.1
        (mergeSiblingsFrom state forest).1.2.1) := by
  fun_induction mergeSiblingsFrom state forest with
  | case1 state => exact .refl
  | case2 state p childList after children removed _ areChildren joinings =>
      rw [areChildren] at joinings
      exact joinings.children_siblings .refl
  | case3 state p childList nextp nextChildList siblings same middle children removed _
      areChildren after result more _ isResult first second =>
      rw [areChildren] at first
      rw [isResult] at second
      exact ((joinings_next same).trans (first.children_siblings .refl)).trans second
  | case4 state p childList nextp nextChildList siblings _ middle children removed _
      areChildren after rest more _ areRest first second =>
      rw [areChildren] at first
      rw [areRest] at second
      exact first.children_siblings second

/-- `merge_runs` lets processes join others. -/
theorem joinings_mergeRuns (state : State) (forest : Forest ProcessId) :
    Joinings (population state forest)
      (population (mergeRuns state forest).1 (mergeRuns state forest).2.1) := by
  fun_induction mergeRuns state forest with
  | case1 state => exact .refl
  | case2 state p child grandchildren siblings same after result more isResult joinings =>
      rw [isResult] at joinings
      exact (joinings_child same).trans joinings
  | case3 state p child grandchildren siblings _ middle children removed areChildren after
      rest more areRest first second =>
      rw [areChildren] at first
      rw [areRest] at second
      exact first.children_siblings second
  | case4 state p childList siblings _ middle children removed areChildren after rest more
      areRest first second =>
      rw [areChildren] at first
      rw [areRest] at second
      exact first.children_siblings second

/-- No pass changes a command. -/
theorem cmd_mergeSiblingsFrom (state : State) (forest : Forest ProcessId) :
    (mergeSiblingsFrom state forest).1.1.cmd = state.cmd :=
  cmd_absorptions (joinings_mergeSiblingsFrom state forest).absorptions

theorem cmd_mergeRuns (state : State) (forest : Forest ProcessId) :
    (mergeRuns state forest).1.cmd = state.cmd :=
  cmd_absorptions (joinings_mergeRuns state forest).absorptions

/-! ## The normal form -/

/-- The first root stays the first. -/
theorem head_roots_mergeSiblingsFrom (state : State) (forest : Forest ProcessId) :
    (mergeSiblingsFrom state forest).1.2.1.roots.head? = forest.roots.head? := by
  fun_induction mergeSiblingsFrom state forest with
  | case1 state => rfl
  | case2 => rfl
  | case3 state p childList nextp nextChildList siblings _ middle children removed _
      areChildren after result more _ isResult first second =>
      rw [isResult] at second
      exact second
  | case4 => rfl

/-- `merge_runs` keeps the roots. -/
theorem roots_mergeRuns (state : State) (forest : Forest ProcessId) :
    (mergeRuns state forest).2.1.roots = forest.roots := by
  fun_induction mergeRuns state forest with
  | case1 state => rfl
  | case2 state p child grandchildren siblings _ after result more isResult same =>
      rw [isResult] at same
      exact same
  | case3 state p child grandchildren siblings _ middle children removed areChildren after
      rest more areRest first second =>
      rw [areRest] at second
      exact congrArg (p :: ·) second
  | case4 state p childList siblings _ middle children removed areChildren after rest more
      areRest first second =>
      rw [areRest] at second
      exact congrArg (p :: ·) second

/-- After `merge_siblings` no two adjacent siblings have the same command. -/
theorem alternating_mergeSiblingsFrom (state : State) (forest : Forest ProcessId) :
    (mergeSiblingsFrom state forest).1.2.1.Alternating state.cmd := by
  fun_induction mergeSiblingsFrom state forest with
  | case1 state => exact Forest.alternating_nil
  | case2 state p childList after children removed _ areChildren alternating =>
      rw [areChildren] at alternating
      exact ⟨alternating, trivial, nofun⟩
  | case3 state p childList nextp nextChildList siblings _ middle children removed _
      areChildren after result more _ isResult first second =>
      have same := cmd_mergeSiblingsFrom (state.mergeProcesses p nextp)
        (childList ++ nextChildList)
      rw [areChildren, State.cmd_mergeProcesses] at same
      rw [isResult, same] at second
      exact second
  | case4 state p childList nextp nextChildList siblings different middle children
      removed _ areChildren after rest more _ areRest first second =>
      have same := cmd_mergeSiblingsFrom state childList
      have head := head_roots_mergeSiblingsFrom middle
        (.cons nextp nextChildList siblings)
      rw [areChildren] at first same
      rw [areRest] at second head
      rw [same] at second
      refine ⟨first, second, ?_⟩
      rw [head]
      rintro _ ⟨⟩
      exact different

/-- `merge_runs` keeps siblings different. -/
theorem alternating_mergeRuns
    (state : State)
    (alternating : forest.Alternating state.cmd) :
    (mergeRuns state forest).2.1.Alternating state.cmd := by
  fun_induction mergeRuns state forest with
  | case1 state => exact Forest.alternating_nil
  | case2 state p child grandchildren siblings _ after result more isResult
      inductionHypothesis =>
      rw [isResult, State.cmd_mergeProcesses] at inductionHypothesis
      obtain ⟨childAlternates, rest⟩ := alternating
      exact inductionHypothesis ⟨childAlternates.1, rest⟩
  | case3 state p child grandchildren siblings _ middle children removed areChildren after
      rest more areRest first second =>
      have same := cmd_mergeRuns state (.cons child grandchildren .nil)
      have sameRoots := roots_mergeRuns middle siblings
      rw [areChildren] at first same
      rw [areRest] at second sameRoots
      rw [same] at second
      obtain ⟨childAlternates, siblingsAlternate, head⟩ := alternating
      refine ⟨first childAlternates, second siblingsAlternate, ?_⟩
      rw [sameRoots]
      exact head
  | case4 state p childList siblings _ middle children removed areChildren after rest more
      areRest first second =>
      have same := cmd_mergeRuns state childList
      have sameRoots := roots_mergeRuns middle siblings
      rw [areChildren] at first same
      rw [areRest] at second sameRoots
      rw [same] at second
      obtain ⟨childrenAlternate, siblingsAlternate, head⟩ := alternating
      refine ⟨first childrenAlternate, second siblingsAlternate, ?_⟩
      rw [sameRoots]
      exact head

/-- After `merge_runs` no process has a single child with its own command. -/
theorem noRuns_mergeRuns (state : State) (forest : Forest ProcessId) :
    (mergeRuns state forest).2.1.NoRuns state.cmd := by
  fun_induction mergeRuns state forest with
  | case1 state => exact Forest.noRuns_nil
  | case2 state p child grandchildren siblings _ after result more isResult noRuns =>
      rw [isResult, State.cmd_mergeProcesses] at noRuns
      exact noRuns
  | case3 state p child grandchildren siblings different middle children removed
      areChildren after rest more areRest first second =>
      have same := cmd_mergeRuns state (.cons child grandchildren .nil)
      have sameRoots := roots_mergeRuns state (.cons child grandchildren .nil)
      rw [areChildren] at first same sameRoots
      rw [areRest, same] at second
      refine ⟨first, second, fun single isSingle => ?_⟩
      rw [sameRoots] at isSingle
      obtain rfl := List.singleton_inj.mp isSingle
      exact different
  | case4 state p childList siblings notSingle middle children removed areChildren after
      rest more areRest first second =>
      have same := cmd_mergeRuns state childList
      have sameRoots := roots_mergeRuns state childList
      rw [areChildren] at first same sameRoots
      rw [areRest, same] at second
      refine ⟨first, second, fun single isSingle => ?_⟩
      rw [sameRoots] at isSingle
      obtain ⟨grandchildren, isTree⟩ := Forest.roots_eq_singleton.mp isSingle
      exact absurd isTree (notSingle single grandchildren)

/-! ## A normal form is not changed -/

/-- `merge_siblings` changes nothing if no two adjacent siblings are alike. -/
theorem mergeSiblings_eq_self (alternating : forest.Alternating state.cmd) :
    mergeSiblings state forest = (state, forest, 0) := by
  unfold mergeSiblings
  fun_induction mergeSiblingsFrom state forest with
  | case1 state => rfl
  | case2 state p childList after children removed _ areChildren inductionHypothesis =>
      have unchanged := inductionHypothesis alternating.1
      rw [areChildren] at unchanged
      obtain ⟨rfl, rfl, rfl⟩ := unchanged
      rfl
  | case3 state p childList nextp nextChildList siblings same =>
      exact absurd same (alternating.2.2 nextp rfl)
  | case4 state p childList nextp nextChildList siblings _ middle children removed _
      areChildren after rest more _ areRest first second =>
      have unchanged := first alternating.1
      rw [areChildren] at unchanged
      obtain ⟨rfl, rfl, rfl⟩ := unchanged
      have restUnchanged := second alternating.2.1
      rw [areRest] at restUnchanged
      obtain ⟨rfl, rfl, rfl⟩ := restUnchanged
      rfl

/-- `merge_runs` changes nothing if no process has a single child like itself. -/
theorem mergeRuns_eq_self (noRuns : forest.NoRuns state.cmd) :
    mergeRuns state forest = (state, forest, 0) := by
  fun_induction mergeRuns state forest with
  | case1 state => rfl
  | case2 state p child grandchildren siblings same =>
      exact absurd same (noRuns.2.2 child rfl)
  | case3 state p child grandchildren siblings _ middle children removed areChildren after
      rest more areRest first second =>
      have unchanged := first noRuns.1
      rw [areChildren] at unchanged
      obtain ⟨rfl, rfl, rfl⟩ := unchanged
      have restUnchanged := second noRuns.2.1
      rw [areRest] at restUnchanged
      obtain ⟨rfl, rfl, rfl⟩ := restUnchanged
      rfl
  | case4 state p childList siblings _ middle children removed areChildren after rest more
      areRest first second =>
      have unchanged := first noRuns.1
      rw [areChildren] at unchanged
      obtain ⟨rfl, rfl, rfl⟩ := unchanged
      have restUnchanged := second noRuns.2.1
      rw [areRest] at restUnchanged
      obtain ⟨rfl, rfl, rfl⟩ := restUnchanged
      rfl

end Passes

/-! ## Both passes -/

section Both

variable {state merged last : State} {forest rest result : Forest ProcessId}
variable {threads runs : Nat}

/-- In both passes processes join others. -/
theorem joinings_both
    (first : mergeSiblings state forest = (merged, rest, threads))
    (second : mergeRuns merged rest = (last, result, runs)) :
    Joinings (population state forest) (population last result) := by
  have siblings := joinings_mergeSiblingsFrom state forest
  have chains := joinings_mergeRuns merged rest
  rw [show (mergeSiblingsFrom state forest).1 = _ from first] at siblings
  rw [second] at chains
  exact siblings.trans chains

/-- Both passes make a normal form. -/
theorem normalForm_both
    (first : mergeSiblings state forest = (merged, rest, threads))
    (second : mergeRuns merged rest = (last, result, runs)) :
    result.NormalForm state.cmd := by
  have same := cmd_mergeSiblingsFrom state forest
  have alternating := alternating_mergeSiblingsFrom state forest
  rw [show (mergeSiblingsFrom state forest).1 = _ from first] at same alternating
  rw [← same] at alternating ⊢
  have stillAlternating := alternating_mergeRuns merged alternating
  have noRuns := noRuns_mergeRuns merged rest
  rw [second] at stillAlternating noRuns
  exact ⟨stillAlternating, noRuns⟩

/-- In a forest of distinct processes, `merge_siblings` and then `merge_runs` make a
normal form that they do not change again. The samples in the tree, its start time and
its end time stay, and the counts add up to the processes that left it. -/
theorem mergeSiblings_mergeRuns
    (distinct : forest.toList.Nodup)
    (first : mergeSiblings state forest = (merged, rest, threads))
    (second : mergeRuns merged rest = (last, result, runs)) :
    result.NormalForm last.cmd ∧
      mergeSiblings last result = (last, result, 0) ∧
      mergeRuns last result = (last, result, 0) ∧
      (result.toList.flatMap fun proc => (last.objects proc).samples).Perm
        (forest.toList.flatMap fun proc => (state.objects proc).samples) ∧
      getStartTime last.objects result = getStartTime state.objects forest ∧
      getEndTime last.objects result = getEndTime state.objects forest ∧
      numNodes result + (threads + runs) = numNodes forest := by
  have absorptions := (joinings_both first second).absorptions
  have same : last.cmd = state.cmd := cmd_absorptions absorptions
  have normalForm := normalForm_both first second
  rw [← same] at normalForm
  obtain ⟨-, conserves⟩ := conserves_absorptions absorptions
    (Multiset.coe_nodup.mpr distinct)
  refine ⟨normalForm, mergeSiblings_eq_self normalForm.alternating,
    mergeRuns_eq_self normalForm.noRuns, ?_, ?_, ?_, ?_⟩
  · rw [← Multiset.coe_eq_coe, ← Multiset.coe_bind, ← Multiset.coe_bind]
    exact conserves.held_eq
  · apply eq_of_forall_le_iff
    intro bound
    rw [le_getStartTime, le_getStartTime]
    exact and_congr_right fun _ => conserves.starts bound
  · apply eq_of_forall_ge_iff
    intro bound
    rw [getEndTime_le, getEndTime_le]
    exact and_congr_right fun _ => conserves.ends bound
  · have siblingsCount := numNodes_mergeSiblings state forest
    have runsCount := numNodes_mergeRuns merged rest
    rw [first] at siblingsCount
    rw [second] at runsCount
    simp only at siblingsCount runsCount
    omega

end Both

/-- Two processes with the same command, the second with a child that has it too. -/
def threadsAndRun : State where
  objects
    | .mapped 1 => { Process.new 1 ['w'] 0 1 with duration := 2 }
    | .mapped 2 => { Process.new 2 ['w'] 0 3 with duration := 4 }
    | _ => { Process.new 3 ['w'] 2 5 with duration := 1 }
  merges := []

/-- Their tree. -/
def threadsAndRunTree : Forest ProcessId :=
  .cons (.mapped 1) .nil (.cons (.mapped 2) (.cons (.mapped 3) .nil .nil) .nil)

/-- They become one process that ends with the last of them. -/
theorem mergeSiblings_mergeRuns_threadsAndRun :
    ∃ merged rest last,
      mergeSiblings threadsAndRun threadsAndRunTree = (merged, rest, 1) ∧
      mergeRuns merged rest = (last, .cons (.mapped 1) .nil .nil, 1) ∧
      getEndTime last.objects (.cons (.mapped 1) .nil .nil) = 7 := by
  have threads : mergeSiblings threadsAndRun threadsAndRunTree =
      (_, .cons (.mapped 1) (.cons (.mapped 3) .nil .nil) .nil, 1) :=
    Prod.ext rfl (by decide +kernel)
  have runs : mergeRuns (mergeSiblings threadsAndRun threadsAndRunTree).1
      (.cons (.mapped 1) (.cons (.mapped 3) .nil .nil) .nil) =
        (_, .cons (.mapped 1) .nil .nil, 1) :=
    Prod.ext rfl (by decide +kernel)
  obtain ⟨-, -, -, -, -, ends, -⟩ := mergeSiblings_mergeRuns (by decide) threads runs
  exact ⟨_, _, _, threads, runs, ends.trans (by decide +kernel)⟩

end ProcessTree
end Bootchart
