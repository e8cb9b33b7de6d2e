import Bootchart.Library.Traverse
import Bootchart.ProcessTree.NormalForm

/-!
# Runs of trees

`merge_siblings` makes one tree of every run of adjacent trees whose roots have the same
command, and `merge_runs` keeps the roots. What a tree is afterwards depends on the
processes of its run only.
-/

namespace Bootchart
namespace ProcessTree

open Library (Text Forest)
open Library.Forest (elements)

/-- A tree. -/
abbrev Tree := ProcessId × Forest ProcessId

/-- A run of trees becomes one tree. -/
structure Gathered (before after : State) (run : List Tree) (tree : Tree) : Prop where
  /-- The root of the first tree stays. -/
  head : run.head?.map Prod.fst = some tree.1
  /-- The processes of the run gather. -/
  gathers : Gathers (before, elements run) (after, elements [tree])

section Gathered

variable {before middle after : State} {run : List Tree} {first second : Tree}

/-- Another pass over the tree. -/
theorem Gathered.trans
    (ofRun : Gathered before middle run first)
    (ofTree : Gathered middle after [first] second) : Gathered before after run second where
  head := by
    rw [ofRun.head]
    exact ofTree.head
  gathers := ofRun.gathers.trans ofTree.gathers

/-- Only the processes of the run and of the tree matter. -/
theorem Gathered.congr
    (gathered : Gathered before middle run first)
    {start last : State}
    (sameStart : ∀ proc ∈ elements run, start.objects proc = before.objects proc)
    (sameLast : ∀ proc ∈ elements [first], last.objects proc = middle.objects proc) :
    Gathered start last run first where
  head := gathered.head
  gathers := gathered.gathers.congr sameStart sameLast

end Gathered

section Passes

variable {state middle last : State} {p : ProcessId}
variable {childList children siblings rest : Forest ProcessId}

/-- Joining keeps the processes distinct. -/
theorem nodup_joinings
    {forest : Forest ProcessId}
    (joinings : Joinings (population state childList) (population last forest))
    (distinct : childList.toList.Nodup) : forest.toList.Nodup :=
  Multiset.coe_nodup.mp (conserves_absorptions joinings.absorptions
    (Multiset.coe_nodup.mpr distinct)).1

/-- Joining adds no processes. -/
theorem subset_joinings
    {forest : Forest ProcessId}
    (joinings : Joinings (population state childList) (population last forest))
    (distinct : childList.toList.Nodup) : forest.toList ⊆ childList.toList :=
  (gathers_joinings joinings (Multiset.coe_nodup.mpr distinct)).subset

/-- First the children of a process change, then its siblings. -/
theorem gathered_child
    (distinct : (Forest.cons p childList siblings).toList.Nodup)
    (ofChildren : Joinings (population state childList) (population middle children))
    (ofSiblings : Joinings (population middle siblings) (population last rest)) :
    Gathered state last [(p, childList)] (p, children) := by
  obtain ⟨notChild, notSibling, childrenDistinct, -, apart⟩ :=
    Forest.nodup_toList_cons.mp distinct
  have treeDistinct : (Forest.cons p childList .nil).toList.Nodup := by
    simp [notChild, childrenDistinct]
  have ofTree : Joinings (population state (.cons p childList .nil))
      (population middle (.cons p children .nil)) := ofChildren.children_siblings .refl
  have gathers : Gathered state middle [(p, childList)] (p, children) :=
    ⟨rfl, gathers_joinings ofTree (Multiset.coe_nodup.mpr treeDistinct)⟩
  refine gathers.congr (fun _ _ => rfl) fun proc member => ?_
  apply objects_joinings ofSiblings
  intro inSiblings
  rw [Forest.elements_cons, Forest.elements_nil, List.append_nil] at member
  rcases List.mem_cons.mp member with rfl | inChildren
  · exact notSibling inSiblings
  · exact apart proc inSiblings (subset_joinings ofChildren childrenDistinct inChildren)

/-- What happens before to other processes does not matter. -/
theorem gathered_apart
    (siblings : Forest ProcessId)
    {before after : Forest ProcessId}
    {runs : List (List Tree)}
    {trees : List Tree}
    (gathered : List.Forall₂ (Gathered middle last) runs trees)
    (joinings : Joinings (population state before) (population middle after))
    (areSiblings : ∀ run ∈ runs, elements run ⊆ siblings.toList)
    (apart : ∀ proc ∈ siblings.toList, proc ∉ before.toList) :
    List.Forall₂ (Gathered state last) runs trees := by
  refine Library.forall₂_imp_of_mem (fun run isRun tree ofRun => ?_) gathered
  refine ofRun.congr (fun proc member => ?_) fun _ _ => rfl
  exact (objects_joinings joinings (apart proc (areSiblings run isRun member))).symm

/-- A single tree is a run of its own. -/
theorem elements_single_subset
    (forest : Forest ProcessId) :
    ∀ run ∈ forest.trees.map ([·]), elements run ⊆ forest.toList := by
  intro run isRun
  obtain ⟨tree, isTree, rfl⟩ := List.mem_map.mp isRun
  rw [← Forest.elements_trees]
  exact Forest.elements_subset (List.cons_subset.mpr ⟨isTree, List.nil_subset _⟩)

/-- `merge_runs` keeps the trees. -/
theorem gathered_mergeRuns
    (state : State)
    {forest : Forest ProcessId}
    (distinct : forest.toList.Nodup) :
    List.Forall₂ (Gathered state (mergeRuns state forest).1)
      (forest.trees.map ([·])) (mergeRuns state forest).2.1.trees := by
  fun_induction mergeRuns state forest with
  | case1 state => exact .nil
  | case2 state p child grandchildren siblings same after result more isResult
      inductionHypothesis =>
      obtain ⟨notBelow, notSibling, childDistinct, siblingsDistinct, apart⟩ :=
        Forest.nodup_toList_cons.mp distinct
      have joinings := @joinings_child state p child grandchildren .nil same
      have treeDistinct : (Forest.cons p (.cons child grandchildren .nil)
          .nil).toList.Nodup := by
        rw [Forest.nodup_toList_cons]
        exact ⟨notBelow, by simp, childDistinct, by simp, by simp⟩
      have head : Gathered state (state.mergeProcesses p child)
          [(p, .cons child grandchildren .nil)] (p, grandchildren) :=
        ⟨rfl, gathers_joinings joinings (Multiset.coe_nodup.mpr treeDistinct)⟩
      have restDistinct := nodup_joinings (@joinings_child state p child grandchildren
        siblings same) distinct
      have gathered := inductionHypothesis restDistinct
      rw [isResult] at gathered
      obtain ⟨tree, trees, first, others, areTrees⟩ :=
        List.forall₂_cons_left_iff.mp gathered
      rw [areTrees]
      refine .cons (head.trans first) (gathered_apart siblings others joinings
        (elements_single_subset siblings) fun proc member inTree => ?_)
      rcases List.mem_cons.mp inTree with rfl | inChildren
      · exact notSibling member
      · rw [Forest.toList_nil, List.append_nil] at inChildren
        exact apart proc member inChildren
  | case3 state p child grandchildren siblings _ middle children removed areChildren after
      rest more areRest first second =>
      have ofChildren := joinings_mergeRuns state (.cons child grandchildren .nil)
      have ofSiblings := joinings_mergeRuns middle siblings
      rw [areChildren] at ofChildren
      rw [areRest] at second ofSiblings
      refine .cons (gathered_child distinct ofChildren ofSiblings) ?_
      obtain ⟨-, -, -, siblingsDistinct, apart⟩ := Forest.nodup_toList_cons.mp distinct
      exact gathered_apart siblings (second siblingsDistinct) ofChildren
        (elements_single_subset siblings) apart
  | case4 state p childList siblings _ middle children removed areChildren after rest more
      areRest first second =>
      have ofChildren := joinings_mergeRuns state childList
      have ofSiblings := joinings_mergeRuns middle siblings
      rw [areChildren] at ofChildren
      rw [areRest] at second ofSiblings
      refine .cons (gathered_child distinct ofChildren ofSiblings) ?_
      obtain ⟨-, -, -, siblingsDistinct, apart⟩ := Forest.nodup_toList_cons.mp distinct
      exact gathered_apart siblings (second siblingsDistinct) ofChildren
        (elements_single_subset siblings) apart

/-- The siblings of two trees are apart from them. -/
theorem apart_next
    {nextp : ProcessId}
    {nextChildList : Forest ProcessId}
    (distinct :
      (Forest.cons p childList (.cons nextp nextChildList siblings)).toList.Nodup) :
    ∀ proc ∈ siblings.toList,
      proc ∉ (Forest.cons p childList (.cons nextp nextChildList .nil)).toList := by
  simp only [Forest.toList_cons, Forest.toList_nil] at distinct ⊢
  grind

/-- A root joins the first one, and then the others of the run do. -/
theorem gathered_next
    {nextp : ProcessId}
    {nextChildList : Forest ProcessId}
    {run : List Tree}
    {tree : Tree}
    (joinings : Joinings
      (population state (.cons p childList (.cons nextp nextChildList .nil)))
      (population middle (.cons p children .nil)))
    (distinct : (elements ((p, childList) :: (nextp, nextChildList) :: run)).Nodup)
    (gathered : Gathered middle last ((p, children) :: run) tree) :
    Gathered state last ((p, childList) :: (nextp, nextChildList) :: run) tree := by
  have ofRun : (elements ((p, childList) :: (nextp, nextChildList) :: run) :
      Multiset ProcessId) =
        (Forest.cons p childList (.cons nextp nextChildList .nil)).toList +
          elements run := by
    rw [Multiset.coe_add, Multiset.coe_eq_coe]
    simp
  have head : Gathers (state, elements ((p, childList) :: (nextp, nextChildList) :: run))
      (middle, elements ((p, children) :: run)) := by
    refine gathers_joinings ?_ (Multiset.coe_nodup.mpr distinct)
    rw [ofRun]
    simpa [population] using joinings.add (elements run)
  exact ⟨gathered.head, head.trans gathered.gathers⟩

/-- The trees that `merge_siblings` makes of the runs. -/
theorem gathered_mergeSiblingsFrom
    (state : State)
    {forest : Forest ProcessId}
    (distinct : forest.toList.Nodup) :
    List.Forall₂ (Gathered state (mergeSiblingsFrom state forest).1.1)
      (forest.runs state.cmd) (mergeSiblingsFrom state forest).1.2.1.trees := by
  fun_induction mergeSiblingsFrom state forest with
  | case1 state => exact .nil
  | case2 state p childList after children removed _ areChildren =>
      have ofChildren := joinings_mergeSiblingsFrom state childList
      rw [areChildren] at ofChildren
      exact .cons (gathered_child distinct ofChildren .refl) .nil
  | case3 state p childList nextp nextChildList siblings same middle children removed _
      areChildren after result more _ isResult first second =>
      have ofChildren := joinings_mergeSiblingsFrom (state.mergeProcesses p nextp)
        (childList ++ nextChildList)
      have sameCmd := cmd_mergeSiblingsFrom (state.mergeProcesses p nextp)
        (childList ++ nextChildList)
      rw [areChildren] at ofChildren sameCmd
      rw [State.cmd_mergeProcesses] at sameCmd
      have joinings (others : Forest ProcessId) :
          Joinings (population state (.cons p childList (.cons nextp nextChildList others)))
            (population middle (.cons p children others)) :=
        (joinings_next same).trans (ofChildren.children_siblings .refl)
      have gathered := second (nodup_joinings (joinings siblings) distinct)
      obtain ⟨run, rest, areSiblings, ofRest, ofForest⟩ :=
        Forest.runs_next same childList nextChildList children siblings
      rw [isResult, sameCmd, ofRest] at gathered
      obtain ⟨tree, trees, ofRun, others, areTrees⟩ :=
        List.forall₂_cons_left_iff.mp gathered
      have areElements : siblings.toList = elements run ++ elements rest.flatten := by
        rw [← Forest.elements_append, ← areSiblings, Forest.elements_trees]
      have runDistinct : (elements
          ((p, childList) :: (nextp, nextChildList) :: run)).Nodup := by
        refine distinct.sublist ?_
        simp [areElements]
      rw [ofForest, areTrees]
      refine .cons (gathered_next (joinings .nil) runDistinct ofRun) ?_
      refine gathered_apart siblings others (joinings .nil) (fun other isRun => ?_) ?_
      · rw [areElements]
        refine List.subset_append_of_subset_right _ ?_
        exact Forest.elements_subset (List.sublist_flatten_of_mem isRun).subset
      · exact apart_next distinct
  | case4 state p childList nextp nextChildList siblings different middle children
      removed _ areChildren after rest more _ areRest first second =>
      have ofChildren := joinings_mergeSiblingsFrom state childList
      have ofSiblings := joinings_mergeSiblingsFrom middle
        (.cons nextp nextChildList siblings)
      have sameCmd := cmd_mergeSiblingsFrom state childList
      rw [areChildren] at ofChildren sameCmd
      rw [areRest] at second ofSiblings
      rw [Forest.runs_apart different]
      refine .cons (gathered_child distinct ofChildren ofSiblings) ?_
      obtain ⟨-, -, -, siblingsDistinct, apart⟩ := Forest.nodup_toList_cons.mp distinct
      have gathered := second siblingsDistinct
      rw [sameCmd] at gathered
      exact gathered_apart _ gathered ofChildren (fun _ => Forest.elements_run_subset) apart

/-- A root that joins the one before it leaves the forest, and stays as it is. -/
theorem gone_next
    {nextp : ProcessId}
    {nextChildList : Forest ProcessId}
    (distinct :
      (Forest.cons p childList (.cons nextp nextChildList siblings)).toList.Nodup)
    (stillDistinct : (Forest.cons p children siblings).toList.Nodup)
    (ofChildren : Joinings
      (population (state.mergeProcesses p nextp) (childList ++ nextChildList))
      (population middle children))
    (ofResult : Joinings (population middle (.cons p children siblings))
      (population last rest)) :
    nextp ∉ rest.toList ∧ last.objects nextp = state.objects nextp := by
  obtain ⟨-, notFirst, -, nextDistinct, apart⟩ := Forest.nodup_toList_cons.mp distinct
  obtain ⟨notChild, notSibling, -⟩ := Forest.nodup_toList_cons.mp nextDistinct
  have different : nextp ≠ p := by
    rintro rfl
    exact notFirst (by simp)
  have childrenDistinct : (childList ++ nextChildList).toList.Nodup := by
    rw [Forest.toList_append]
    simp only [Forest.toList_cons] at distinct
    grind
  have notFirstChild : nextp ∉ (childList ++ nextChildList).toList := by
    rw [Forest.toList_append, List.mem_append, not_or]
    exact ⟨apart nextp (by simp), notChild⟩
  have gone : nextp ∉ (Forest.cons p children siblings).toList := by
    rw [Forest.toList_cons, List.mem_cons, List.mem_append, not_or, not_or]
    exact ⟨different,
      fun inChildren => notFirstChild
        (subset_joinings ofChildren childrenDistinct inChildren), notSibling⟩
  refine ⟨fun inResult => gone (subset_joinings ofResult stillDistinct inResult), ?_⟩
  calc last.objects nextp = middle.objects nextp := objects_joinings ofResult gone
    _ = (state.mergeProcesses p nextp).objects nextp :=
      objects_joinings ofChildren notFirstChild
    _ = state.objects nextp := Function.update_of_ne different _ _

/-- A tree behind the first of its run is the one that joins next, or comes later. -/
theorem behind_next
    {nextp : ProcessId}
    {nextChildList : Forest ProcessId}
    {others run : List Tree}
    {runs : List (List Tree)}
    {tree : Tree}
    (areSiblings : siblings.trees = others ++ runs.flatten)
    (isRun : run ∈ ((p, childList) :: (nextp, nextChildList) :: others) :: runs)
    (member : tree ∈ run.tail) :
    tree = (nextp, nextChildList) ∨ tree.1 ∈ siblings.toList ∧
      ∃ other ∈ ((p, children) :: others) :: runs, tree ∈ other.tail := by
  have areElements : siblings.toList = elements (others ++ runs.flatten) := by
    rw [← areSiblings, Forest.elements_trees]
  rw [areElements]
  rcases List.mem_cons.mp isRun with rfl | inRuns
  · rcases List.mem_cons.mp member with isNext | inOthers
    · exact .inl isNext
    · exact .inr ⟨Forest.root_mem_elements (List.mem_append_left _ inOthers), _,
        List.mem_cons_self, inOthers⟩
  · have inFlatten := List.mem_flatten.mpr ⟨run, inRuns, List.mem_of_mem_tail member⟩
    exact .inr ⟨Forest.root_mem_elements (List.mem_append_right _ inFlatten), run,
      List.mem_cons_of_mem _ inRuns, member⟩

/-- The trees of a run behind the first leave the forest, and those without children are
not changed. -/
theorem absorbed_mergeSiblingsFrom
    (state : State)
    {forest : Forest ProcessId}
    (distinct : forest.toList.Nodup)
    {run : List Tree}
    (isRun : run ∈ forest.runs state.cmd)
    {tree : Tree}
    (member : tree ∈ run.tail) :
    tree.1 ∉ (mergeSiblingsFrom state forest).1.2.1.toList ∧
      (tree.2 = .nil → (mergeSiblingsFrom state forest).1.1.objects tree.1 =
        state.objects tree.1) := by
  fun_induction mergeSiblingsFrom state forest generalizing run with
  | case1 state => simp at isRun
  | case2 state p childList after children removed _ areChildren =>
      rw [Forest.runs_single, List.mem_singleton] at isRun
      simp [isRun] at member
  | case3 state p childList nextp nextChildList siblings same middle children removed _
      areChildren after result more _ isResult first second =>
      have ofChildren := joinings_mergeSiblingsFrom (state.mergeProcesses p nextp)
        (childList ++ nextChildList)
      have ofResult := joinings_mergeSiblingsFrom middle (.cons p children siblings)
      have sameCmd := cmd_mergeSiblingsFrom (state.mergeProcesses p nextp)
        (childList ++ nextChildList)
      rw [areChildren] at ofChildren sameCmd
      rw [isResult] at ofResult second
      rw [State.cmd_mergeProcesses] at sameCmd
      have joinings (others : Forest ProcessId) :
          Joinings (population state (.cons p childList (.cons nextp nextChildList others)))
            (population middle (.cons p children others)) :=
        (joinings_next same).trans (ofChildren.children_siblings .refl)
      have stillDistinct := nodup_joinings (joinings siblings) distinct
      have inductionHypothesis := @second stillDistinct
      obtain ⟨others, rest, areSiblings, ofRest, ofForest⟩ :=
        Forest.runs_next same childList nextChildList children siblings
      rw [sameCmd, ofRest] at inductionHypothesis
      rw [ofForest] at isRun
      rcases behind_next areSiblings isRun member with
        rfl | ⟨inSiblings, other, isOther, inOther⟩
      · obtain ⟨gone, unchanged⟩ := gone_next distinct stillDistinct ofChildren ofResult
        exact ⟨gone, fun _ => unchanged⟩
      · obtain ⟨gone, unchanged⟩ := inductionHypothesis isOther inOther
        refine ⟨gone, fun noChildren => (unchanged noChildren).trans ?_⟩
        exact objects_joinings (joinings .nil) (apart_next distinct tree.1 inSiblings)
  | case4 state p childList nextp nextChildList siblings different middle children
      removed _ areChildren after rest more _ areRest first second =>
      have ofChildren := joinings_mergeSiblingsFrom state childList
      have sameCmd := cmd_mergeSiblingsFrom state childList
      rw [areChildren] at ofChildren sameCmd
      rw [areRest] at second
      obtain ⟨notChild, notSibling, childrenDistinct, siblingsDistinct, apart⟩ :=
        Forest.nodup_toList_cons.mp distinct
      rw [Forest.runs_apart different, List.mem_cons] at isRun
      rcases isRun with rfl | inRest
      · simp at member
      · rw [sameCmd] at second
        have inSiblings := Forest.elements_run_subset inRest
          (Forest.root_mem_elements (List.mem_of_mem_tail member))
        obtain ⟨gone, unchanged⟩ := second siblingsDistinct inRest member
        constructor
        · change tree.1 ∉ p :: (children.toList ++ rest.toList)
          rw [List.mem_cons, List.mem_append, not_or, not_or]
          refine ⟨fun isFirst => notSibling (isFirst ▸ inSiblings), fun inChildren => ?_, gone⟩
          exact apart tree.1 inSiblings (subset_joinings ofChildren childrenDistinct inChildren)
        · intro noChildren
          rw [unchanged noChildren]
          exact objects_joinings ofChildren (apart tree.1 inSiblings)

end Passes

/-! ## Both passes -/

section Both

variable {state merged last : State} {forest rest result : Forest ProcessId}
variable {threads runs : Nat}

/-- The trees that both passes make of the runs. -/
theorem gathered_both
    (distinct : forest.toList.Nodup)
    (first : mergeSiblings state forest = (merged, rest, threads))
    (second : mergeRuns merged rest = (last, result, runs)) :
    List.Forall₂ (Gathered state last) (forest.runs state.cmd) result.trees := by
  have joinings := joinings_mergeSiblingsFrom state forest
  have ofSiblings := gathered_mergeSiblingsFrom state distinct
  rw [show (mergeSiblingsFrom state forest).1 = _ from first] at joinings ofSiblings
  have ofRuns := gathered_mergeRuns merged (nodup_joinings joinings distinct)
  rw [second, List.forall₂_map_left_iff] at ofRuns
  refine Library.forall₂_trans (fun run tree final ofRun ofTree => ?_) ofSiblings ofRuns
  exact ofRun.trans ofTree

/-- The trees of a run behind the first leave the forest, and those without children are
not changed. -/
theorem absorbed_both
    (distinct : forest.toList.Nodup)
    (first : mergeSiblings state forest = (merged, rest, threads))
    (second : mergeRuns merged rest = (last, result, runs))
    {run : List Tree}
    (isRun : run ∈ forest.runs state.cmd)
    {tree : Tree}
    (member : tree ∈ run.tail) :
    tree.1 ∉ result.toList ∧
      (tree.2 = .nil → last.objects tree.1 = state.objects tree.1) := by
  have ofSiblings := joinings_mergeSiblingsFrom state forest
  have absorbed := absorbed_mergeSiblingsFrom state distinct isRun member
  rw [show (mergeSiblingsFrom state forest).1 = _ from first] at ofSiblings absorbed
  have ofRuns := joinings_mergeRuns merged rest
  rw [second] at ofRuns
  obtain ⟨gone, unchanged⟩ := absorbed
  refine ⟨fun inResult => gone ?_, fun noChildren => ?_⟩
  · exact subset_joinings ofRuns (nodup_joinings ofSiblings distinct) inResult
  · rw [← unchanged noChildren]
    exact objects_joinings ofRuns gone

end Both

end ProcessTree
end Bootchart
