import Bootchart.Library.SiblingRuns
import Mathlib.Algebra.BigOperators.Group.List.Basic

/-!
# What joins when runs of siblings are merged

When runs of siblings are merged, the elements behind the first of each run join it. If
elements have weights that are added up when they join, the only children with the label of
their parents that are left weigh as much as the children of the runs whose children all
have the label of the run.
-/

namespace Library
namespace Forest

variable {α β γ : Type*} [DecidableEq β] {label : α → β}

/-! ## All runs -/

section Collect

/-- The children of a run are fewer than the elements of the forest. -/
theorem size_gather_lt
    {forest : Forest α}
    {run : List (α × Forest α)}
    (isRun : run ∈ forest.runs label) : (gather run).size < forest.size := by
  have ofTrees (trees : List (α × Forest α)) :
      (gather trees).size + trees.length = (elements trees).length := by
    induction trees with
    | nil => rfl
    | cons tree trees inductionHypothesis =>
        rw [gather_cons, size_append, elements_cons, List.length_cons, List.length_cons,
          List.length_append, ← inductionHypothesis, length_toList]
        omega
  have notEmpty := List.length_pos_iff.mpr (List.ne_nil_of_mem_splitBy isRun)
  have areTrees : run.Sublist forest.trees := by
    rw [← flatten_runs label]
    exact List.sublist_flatten_of_mem isRun
  have fewer : (elements run).length ≤ forest.toList.length := by
    rw [← elements_trees]
    exact (areTrees.flatMap _).length_le
  rw [← ofTrees, length_toList] at fewer
  omega

/-- What is found at the runs of a forest, and at the runs of the siblings that come
together below. -/
def collect
    (label : α → β)
    (found : List (α × Forest α) → List γ)
    (forest : Forest α) : List γ :=
  (forest.runs label).attach.flatMap fun run =>
    found run.1 ++ collect label found (gather run.1)
termination_by forest.size
decreasing_by exact size_gather_lt run.2

variable {found : List (α × Forest α) → List γ}

/-- The runs, and what is below each. -/
theorem collect_eq (forest : Forest α) :
    collect label found forest =
      (forest.runs label).flatMap fun run => found run ++ collect label found (gather run) := by
  rw [collect]
  simp

@[simp] theorem collect_nil : collect label found (nil : Forest α) = [] := by
  rw [collect_eq, runs_nil, List.flatMap_nil]

@[simp] theorem collect_single (root : α) (children : Forest α) :
    collect label found (cons root children nil) =
      found [(root, children)] ++ collect label found children := by
  rw [collect_eq]
  simp

/-- A tree that is not like the one behind it is a run. -/
theorem collect_of_ne
    {root next : α}
    (different : label next ≠ label root)
    (children nextChildren siblings : Forest α) :
    collect label found (cons root children (cons next nextChildren siblings)) =
      found [(root, children)] ++ (collect label found children ++
        collect label found (cons next nextChildren siblings)) := by
  rw [collect_eq, runs_apart different, List.flatMap_cons, ← collect_eq]
  simp

/-- The elements of the children of trees are among those of the trees. -/
theorem toList_gather_subset (trees : List (α × Forest α)) :
    (gather trees).toList ⊆ elements trees := by
  induction trees with
  | nil => exact List.Subset.refl _
  | cons tree trees inductionHypothesis =>
      rw [gather_cons, toList_append, elements_cons]
      refine List.subset_cons_of_subset _ (List.append_subset.mpr ⟨?_, ?_⟩)
      · exact List.subset_append_left _ _
      · exact List.subset_append_of_subset_right _ inductionHypothesis

/-- If elements of the runs are found, they are elements of the forest. -/
theorem collect_subset
    {found : List (α × Forest α) → List α}
    (inRun : ∀ run, found run ⊆ elements run)
    (forest : Forest α) : collect label found forest ⊆ forest.toList := by
  fun_induction collect label found forest with
  | case1 forest inductionHypothesis =>
      intro a member
      obtain ⟨⟨run, isRun⟩, -, isFound⟩ := List.mem_flatMap.mp member
      refine elements_run_subset isRun ?_
      rcases List.mem_append.mp isFound with inFound | below
      · exact inRun run inFound
      · exact toList_gather_subset run (inductionHypothesis ⟨run, isRun⟩ below)

variable (found) in
/-- A tree that is like the one behind it belongs to its run. -/
theorem collect_of_eq
    {root next : α}
    (same : label next = label root)
    {children nextChildren : Forest α}
    (more : List γ)
    (adds : ∀ run, found ((root, children) :: (next, nextChildren) :: run) =
      more ++ found ((root, children ++ nextChildren) :: run))
    (siblings : Forest α) :
    collect label found (cons root children (cons next nextChildren siblings)) =
      more ++ collect label found (cons root (children ++ nextChildren) siblings) := by
  obtain ⟨run, rest, -, isShorter, isRuns⟩ :=
    runs_next same children nextChildren (children ++ nextChildren) siblings
  rw [collect_eq, collect_eq (cons root (children ++ nextChildren) siblings), isShorter,
    isRuns, List.flatMap_cons, List.flatMap_cons, adds]
  simp [append_assoc]

end Collect

/-! ## The elements behind the first of a run -/

section Followers

/-- The elements that are not the first of the run they are in. -/
def followers (label : α → β) (forest : Forest α) : List α :=
  collect label (fun run => run.tail.map Prod.fst) forest

/-- They are in the forest. -/
theorem followers_subset (label : α → β) (forest : Forest α) :
    followers label forest ⊆ forest.toList := by
  refine collect_subset (fun run a member => ?_) forest
  obtain ⟨tree, isTree, rfl⟩ := List.mem_map.mp member
  exact root_mem_elements (List.mem_of_mem_tail isTree)

@[simp] theorem followers_nil : followers label (nil : Forest α) = [] :=
  collect_nil

@[simp] theorem followers_single (root : α) (children : Forest α) :
    followers label (cons root children nil) = followers label children := by
  simp [followers]

/-- A tree that is like the one before it follows. -/
theorem followers_of_eq
    {root next : α}
    (same : label next = label root)
    (children nextChildren siblings : Forest α) :
    followers label (cons root children (cons next nextChildren siblings)) =
      next :: followers label (cons root (children ++ nextChildren) siblings) :=
  collect_of_eq _ same [next] (fun _ => rfl) siblings

/-- A tree that is not like the one before it does not. -/
theorem followers_of_ne
    {root next : α}
    (different : label next ≠ label root)
    (children nextChildren siblings : Forest α) :
    followers label (cons root children (cons next nextChildren siblings)) =
      followers label children ++ followers label (cons next nextChildren siblings) := by
  rw [followers, collect_of_ne different]
  rfl

/-- Of the first root only the label matters. -/
theorem followers_root
    {root other : α}
    (same : label other = label root)
    (children siblings : Forest α) :
    followers label (cons other children siblings) =
      followers label (cons root children siblings) := by
  induction siblings generalizing children with
  | nil => rw [followers_single, followers_single]
  | cons next nextChildren siblings _ inductionHypothesis =>
      by_cases joins : label next = label root
      · rw [followers_of_eq joins, followers_of_eq (joins.trans same.symm),
          inductionHypothesis]
      · rw [followers_of_ne joins, followers_of_ne (same ▸ joins)]

end Followers

/-! ## The children that are like their run -/

section AlikeChildren

/-- The children of the runs whose children all have the label of the run. -/
def alikeChildren (label : α → β) (forest : Forest α) : List α :=
  collect label (fun run =>
    if (gather run).roots.all fun child => run.all fun tree => label child = label tree.1
    then (gather run).roots else []) forest

/-- They are in the forest. -/
theorem alikeChildren_subset (label : α → β) (forest : Forest α) :
    alikeChildren label forest ⊆ forest.toList := by
  refine collect_subset (fun run => ?_) forest
  split
  · exact List.Subset.trans (roots_subset _) (toList_gather_subset run)
  · exact List.nil_subset _

@[simp] theorem alikeChildren_nil : alikeChildren label (nil : Forest α) = [] :=
  collect_nil

/-- A tree that stands alone is a run. -/
theorem alikeChildren_single (root : α) (children : Forest α) :
    alikeChildren label (cons root children nil) =
      (if ∀ child ∈ children.roots, label child = label root then children.roots else []) ++
        alikeChildren label children := by
  simp [alikeChildren]

/-- The children of a tree that is like the one before it belong to the same run. -/
theorem alikeChildren_of_eq
    {root next : α}
    (same : label next = label root)
    (children nextChildren siblings : Forest α) :
    alikeChildren label (cons root children (cons next nextChildren siblings)) =
      alikeChildren label (cons root (children ++ nextChildren) siblings) := by
  refine collect_of_eq _ same [] (fun run => ?_) siblings
  simp only [gather_cons, append_assoc, List.all_cons, same, Bool.and_self_left,
    List.nil_append]

/-- Those of a tree that is not like it do not. -/
theorem alikeChildren_of_ne
    {root next : α}
    (different : label next ≠ label root)
    (children nextChildren siblings : Forest α) :
    alikeChildren label (cons root children (cons next nextChildren siblings)) =
      alikeChildren label (cons root children nil) ++
        alikeChildren label (cons next nextChildren siblings) := by
  rw [alikeChildren, collect_of_ne different, alikeChildren, collect_single,
    List.append_assoc]
  rfl

/-- Of the first root only the label matters. -/
theorem alikeChildren_root
    {root other : α}
    (same : label other = label root)
    (children siblings : Forest α) :
    alikeChildren label (cons other children siblings) =
      alikeChildren label (cons root children siblings) := by
  induction siblings generalizing children with
  | nil => rw [alikeChildren_single, alikeChildren_single, same]
  | cons next nextChildren siblings _ inductionHypothesis =>
      by_cases joins : label next = label root
      · rw [alikeChildren_of_eq joins, alikeChildren_of_eq (joins.trans same.symm),
          inductionHypothesis]
      · rw [alikeChildren_of_ne joins, alikeChildren_of_ne (same ▸ joins),
          alikeChildren_single, alikeChildren_single, same]

end AlikeChildren

/-! ## Only children -/

section OnlyChildren

/-- The only child of an element, if both have the same label. -/
def onlyChild (label : α → β) (root : α) : List α → List α
  | [child] => if label child = label root then [child] else []
  | _ => []

/-- The only children that have the label of their parents. -/
def onlyChildren (label : α → β) (forest : Forest α) : List α :=
  forest.families.flatMap fun family => onlyChild label family.1 family.2

@[simp] theorem onlyChildren_nil : onlyChildren label (nil : Forest α) = [] := rfl

@[simp] theorem onlyChildren_cons (root : α) (children siblings : Forest α) :
    onlyChildren label (cons root children siblings) =
      onlyChild label root children.roots ++
        (onlyChildren label children ++ onlyChildren label siblings) := by
  simp [onlyChildren, families]

/-- Such a child is among the children. -/
theorem onlyChild_subset (root : α) (children : List α) :
    onlyChild label root children ⊆ children := by
  unfold onlyChild
  split
  · split <;> simp
  · simp

/-- So the only children are in the forest. -/
theorem onlyChildren_subset (label : α → β) (forest : Forest α) :
    onlyChildren label forest ⊆ forest.toList := by
  intro child member
  obtain ⟨family, isFamily, isChild⟩ := List.mem_flatMap.mp member
  exact (family_sublist isFamily).subset (onlyChild_subset _ _ isChild)

/-- The only children are below the first root, or in the trees behind it. -/
theorem onlyChildren_cons_subset (root : α) (children siblings : Forest α) :
    onlyChildren label (cons root children siblings) ⊆
      children.toList ++ siblings.toList := by
  intro child member
  rw [onlyChildren_cons, List.mem_append, List.mem_append] at member
  rw [List.mem_append]
  rcases member with isChild | below | inSiblings
  · exact .inl (children.roots_subset (onlyChild_subset _ _ isChild))
  · exact .inl (onlyChildren_subset label children below)
  · exact .inr (onlyChildren_subset label siblings inSiblings)

end OnlyChildren

/-! ## Weights -/

section Weights

variable {join : α → α → α}

/-- Merging changes no label of the roots. -/
theorem forall_roots_mergeAlike
    (keeps : ∀ root next, label (join root next) = label root)
    (forest : Forest α)
    (value : β) :
    (∀ root ∈ (mergeAlike join label forest).roots, label root = value) ↔
      ∀ root ∈ forest.roots, label root = value := by
  fun_induction mergeAlike join label forest with
  | case1 => rfl
  | case2 root children => rfl
  | case3 root children next nextChildren siblings same inductionHypothesis =>
      rw [inductionHypothesis]
      simp [keeps, same]
  | case4 root children next nextChildren siblings _ _ inductionHypothesis =>
      rw [roots_cons, List.forall_mem_cons, inductionHypothesis, roots_cons root children,
        List.forall_mem_cons]

/-- If all roots have the same label, at most one is left. -/
theorem length_roots_mergeAlike_le
    (keeps : ∀ root next, label (join root next) = label root)
    {forest : Forest α}
    {value : β}
    (alike : ∀ root ∈ forest.roots, label root = value) :
    (mergeAlike join label forest).roots.length ≤ 1 := by
  fun_induction mergeAlike join label forest with
  | case1 => simp
  | case2 root children => simp
  | case3 root children next nextChildren siblings same inductionHypothesis =>
      refine inductionHypothesis ?_
      simp only [roots_cons, List.forall_mem_cons] at alike ⊢
      exact ⟨(keeps root next).trans alike.1, alike.2.2⟩
  | case4 root children next nextChildren siblings different =>
      simp only [roots_cons, List.forall_mem_cons] at alike
      exact absurd (alike.2.1.trans alike.1.symm) different

variable {M : Type*} [AddCommMonoid M] {weight : α → M}
variable (keeps : ∀ root next, label (join root next) = label root)
variable (adds : ∀ root next, weight (join root next) = weight root + weight next)

include adds

/-- Merging changes no sum of the weights of the roots. -/
theorem sum_roots_mergeAlike (forest : Forest α) :
    ((mergeAlike join label forest).roots.map weight).sum =
      (forest.roots.map weight).sum := by
  fun_induction mergeAlike join label forest with
  | case1 => rfl
  | case2 root children => rfl
  | case3 root children next nextChildren siblings same inductionHypothesis =>
      rw [inductionHypothesis]
      simp [adds, add_assoc]
  | case4 root children next nextChildren siblings _ _ inductionHypothesis =>
      rw [roots_cons, List.map_cons, List.sum_cons, inductionHypothesis]
      rfl

include keeps

/-- An only child with the label of its parent weighs as much as the children it is made
of, which all have that label. -/
theorem sum_onlyChild_mergeAlike (root : α) (children : Forest α) :
    ((onlyChild label root (mergeAlike join label children).roots).map weight).sum =
      ((if ∀ child ∈ children.roots, label child = label root then children.roots
        else []).map weight).sum := by
  have sameSum : ((mergeAlike join label children).roots.map weight).sum =
      (children.roots.map weight).sum := sum_roots_mergeAlike adds children
  have sameLabels := forall_roots_mergeAlike keeps children (label root)
  by_cases alike : ∀ child ∈ children.roots, label child = label root
  · have atMostOne := length_roots_mergeAlike_le keeps alike
    have areAlike := sameLabels.mpr alike
    rw [if_pos alike, ← sameSum]
    generalize (mergeAlike join label children).roots = merged at atMostOne areAlike
    cases merged with
    | nil => rfl
    | cons child others =>
        obtain rfl : others = [] := List.eq_nil_of_length_eq_zero (by simpa using atMostOne)
        rw [onlyChild, if_pos (areAlike child (List.mem_singleton_self child))]
  · rw [if_neg alike]
    rw [← sameLabels] at alike
    generalize (mergeAlike join label children).roots = merged at alike
    cases merged with
    | nil => rfl
    | cons child others =>
        cases others with
        | nil => rw [onlyChild, if_neg (by simpa using alike)]
        | cons second rest => rfl

/-- The only children with the label of their parents that merging leaves weigh as much as
the children of the runs whose children all have the label of the run. -/
theorem sum_onlyChildren_mergeAlike (forest : Forest α) :
    ((onlyChildren label (mergeAlike join label forest)).map weight).sum =
      ((alikeChildren label forest).map weight).sum := by
  fun_induction mergeAlike join label forest with
  | case1 => simp
  | case2 root children inductionHypothesis =>
      rw [onlyChildren_cons, onlyChildren_nil, List.append_nil, List.map_append,
        List.sum_append, inductionHypothesis, sum_onlyChild_mergeAlike keeps adds,
        alikeChildren_single, List.map_append, List.sum_append]
  | case3 root children next nextChildren siblings same inductionHypothesis =>
      rw [inductionHypothesis, alikeChildren_of_eq same, alikeChildren_root (keeps root next)]
  | case4 root children next nextChildren siblings different first second =>
      rw [onlyChildren_cons, alikeChildren_of_ne different, alikeChildren_single]
      simp only [List.map_append, List.sum_append]
      rw [first, second, sum_onlyChild_mergeAlike keeps adds, add_assoc]

end Weights

/-! ## Changing the elements -/

section Map

/-- Another element in the place of each. -/
def map (change : α → γ) : Forest α → Forest γ
  | nil => nil
  | cons root children siblings =>
      cons (change root) (children.map change) (siblings.map change)

variable (change : α → γ)

@[simp] theorem map_nil : (nil : Forest α).map change = nil := rfl

@[simp] theorem map_cons (root : α) (children siblings : Forest α) :
    (cons root children siblings).map change =
      cons (change root) (children.map change) (siblings.map change) := rfl

@[simp] theorem map_append (first second : Forest α) :
    (first ++ second).map change = first.map change ++ second.map change := by
  induction first with
  | nil => rfl
  | cons root children siblings _ inductionHypothesis =>
      rw [cons_append, map_cons, inductionHypothesis, map_cons, cons_append]

@[simp] theorem roots_map (forest : Forest α) :
    (forest.map change).roots = forest.roots.map change := by
  induction forest with
  | nil => rfl
  | cons root children siblings _ inductionHypothesis =>
      rw [map_cons, roots_cons, inductionHypothesis, roots_cons, List.map_cons]

variable {change} in
/-- If the changes of all elements are the same, so is the forest. -/
theorem map_congr
    {other : α → γ}
    {forest : Forest α}
    (same : ∀ a ∈ forest.toList, change a = other a) :
    forest.map change = forest.map other := by
  induction forest with
  | nil => rfl
  | cons root children siblings first second =>
      simp only [toList_cons, List.forall_mem_cons, List.forall_mem_append] at same
      rw [map_cons, same.1, first same.2.1, second same.2.2, map_cons]

variable {join : α → α → α} {joinChanged : γ → γ → γ}
variable {change} {labelChanged : γ → β} (labels : ∀ a, labelChanged (change a) = label a)

include labels

/-- The elements behind the first of a run are changed as all others are. -/
theorem followers_map (forest : Forest α) :
    followers labelChanged (forest.map change) = (followers label forest).map change := by
  fun_induction mergeAlike (fun root _ => root) label forest with
  | case1 => simp
  | case2 root children inductionHypothesis =>
      rw [map_cons, map_nil, followers_single, inductionHypothesis, followers_single]
  | case3 root children next nextChildren siblings same inductionHypothesis =>
      rw [map_cons, map_append] at inductionHypothesis
      rw [map_cons, map_cons, followers_of_eq (by rw [labels, labels, same]),
        inductionHypothesis, followers_of_eq same, List.map_cons]
  | case4 root children next nextChildren siblings different first second =>
      rw [map_cons] at second
      rw [map_cons, map_cons, followers_of_ne (by rw [labels, labels]; exact different),
        first, second, followers_of_ne different, List.map_append]

/-- So are the children that are like their run. -/
theorem alikeChildren_map (forest : Forest α) :
    alikeChildren labelChanged (forest.map change) =
      (alikeChildren label forest).map change := by
  fun_induction mergeAlike (fun root _ => root) label forest with
  | case1 => simp
  | case2 root children inductionHypothesis =>
      rw [map_cons, map_nil, alikeChildren_single, inductionHypothesis,
        alikeChildren_single, List.map_append]
      simp [labels, apply_ite (List.map change)]
  | case3 root children next nextChildren siblings same inductionHypothesis =>
      rw [map_cons, map_append] at inductionHypothesis
      rw [map_cons, map_cons, alikeChildren_of_eq (by rw [labels, labels, same]),
        inductionHypothesis, alikeChildren_of_eq same]
  | case4 root children next nextChildren siblings different first second =>
      rw [map_cons] at second
      rw [map_cons, map_cons, alikeChildren_of_ne (by rw [labels, labels]; exact different),
        second, alikeChildren_of_ne different, List.map_append, alikeChildren_single, first,
        alikeChildren_single, List.map_append]
      simp [labels, apply_ite (List.map change)]

/-- And the only children with the label of their parents. -/
theorem onlyChildren_map (forest : Forest α) :
    onlyChildren labelChanged (forest.map change) =
      (onlyChildren label forest).map change := by
  induction forest with
  | nil => rfl
  | cons root children siblings first second =>
      rw [map_cons, onlyChildren_cons, first, second, onlyChildren_cons, List.map_append,
        List.map_append, roots_map]
      congr 1
      cases children.roots with
      | nil => rfl
      | cons child others =>
          cases others with
          | nil => simp [onlyChild, labels, apply_ite (List.map change)]
          | cons second rest => rfl

/-- Elements may be changed before or after they join. -/
theorem mergeAlike_map
    (joins : ∀ root next, change (join root next) = joinChanged (change root) (change next))
    (forest : Forest α) :
    mergeAlike joinChanged labelChanged (forest.map change) =
      (mergeAlike join label forest).map change := by
  fun_induction mergeAlike join label forest with
  | case1 => simp
  | case2 root children inductionHypothesis =>
      rw [map_cons, map_nil, mergeAlike_single, inductionHypothesis]
      rfl
  | case3 root children next nextChildren siblings same inductionHypothesis =>
      rw [← inductionHypothesis, map_cons, map_cons,
        mergeAlike_of_eq (by rw [labels, labels, same]), map_cons, map_append, joins]
  | case4 root children next nextChildren siblings different first second =>
      rw [map_cons] at second
      rw [map_cons, map_cons, mergeAlike_of_ne (by rw [labels, labels]; exact different),
        first, second]
      rfl

end Map

/-! ## Joining in two steps -/

section Twice

variable {join : α → α → α}

/-- Elements that note which others joined them, each as it was then. -/
def joinNoted (join : α → α → α) (root next : α × List α) : α × List α :=
  (join root.1 next.1, root.2 ++ next.2 ++ [next.1])

/-- The elements that were noted. -/
def noted (forest : Forest (α × List α)) : List α :=
  forest.toList.flatMap Prod.snd

/-- The elements behind the first of a run are noted. -/
theorem noted_mergeAlike_perm
    (keeps : ∀ root next, label (join root next) = label root)
    (forest : Forest (α × List α)) :
    (noted (mergeAlike (joinNoted join) (label ∘ Prod.fst) forest)).Perm
      (noted forest ++ followers label (forest.map Prod.fst)) := by
  classical
  rw [List.perm_iff_count]
  intro a
  fun_induction mergeAlike (joinNoted join) (label ∘ Prod.fst) forest with
  | case1 => simp
  | case2 root children inductionHypothesis =>
      simp only [noted, toList_cons, toList_nil, List.append_nil, List.flatMap_cons,
        map_cons, map_nil, followers_single, List.count_append] at inductionHypothesis ⊢
      omega
  | case3 root children next nextChildren siblings same inductionHypothesis =>
      have sameLabel : label next.1 = label root.1 := same
      rw [inductionHypothesis]
      simp only [noted, toList_cons, toList_append, List.flatMap_cons, List.flatMap_append,
        map_cons, map_append, joinNoted, followers_root (keeps root.1 next.1),
        followers_of_eq sameLabel, List.count_append, List.count_cons, List.count_nil]
      omega
  | case4 root children next nextChildren siblings different first second =>
      have differentLabel : label next.1 ≠ label root.1 := different
      simp only [noted, toList_cons, List.flatMap_cons, List.flatMap_append, map_cons,
        followers_of_ne differentLabel, List.count_append] at first second ⊢
      omega

/-- Nothing is noted at first. -/
theorem noted_map (forest : Forest α) : noted (forest.map fun a => (a, [])) = [] := by
  induction forest with
  | nil => rfl
  | cons root children siblings first second =>
      simp only [noted] at first second
      simp [noted, first, second]

/-- If children are merged before the trees they belong to, the same elements join others,
each as it is then. -/
theorem followers_cons_mergeAlike_perm
    (keeps : ∀ root next, label (join root next) = label root)
    (root : α)
    (children siblings : Forest α) :
    (followers label children ++
        followers label (cons root (mergeAlike join label children) siblings)).Perm
      (followers label (cons root children siblings)) := by
  let fresh (forest : Forest α) : Forest (α × List α) := forest.map fun a => (a, [])
  let merge (forest : Forest (α × List α)) : Forest (α × List α) :=
    forest.mergeAlike (joinNoted join) (label ∘ Prod.fst)
  have forget (forest : Forest α) : (fresh forest).map Prod.fst = forest := by
    induction forest with
    | nil => rfl
    | cons root children siblings first second =>
        exact congrArg₂ (cons root) first second
  have merged : (merge (fresh children)).map Prod.fst = mergeAlike join label children := by
    have sameLabels : ∀ a : α × List α, label a.1 = (label ∘ Prod.fst) a := fun _ => rfl
    have joins : ∀ root next : α × List α,
        (joinNoted join root next).1 = join root.1 next.1 := fun _ _ => rfl
    rw [← mergeAlike_map sameLabels joins, forget]
  have together : merge (cons (root, []) (merge (fresh children)) (fresh siblings)) =
      merge (fresh (cons root children siblings)) := by
    have keepsNoted : ∀ root next : α × List α,
        (label ∘ Prod.fst) (joinNoted join root next) = (label ∘ Prod.fst) root :=
      fun root next => keeps root.1 next.1
    exact mergeAlike_cons_mergeAlike keepsNoted _ _ _
  have ofFresh (forest : Forest α) :
      (noted (merge (fresh forest))).Perm (followers label forest) := by
    have perm := noted_mergeAlike_perm keeps (fresh forest)
    rwa [noted_map, forget, List.nil_append] at perm
  have ofRest := noted_mergeAlike_perm keeps
    (cons (root, []) (merge (fresh children)) (fresh siblings))
  rw [map_cons, merged, forget] at ofRest
  have notedRest : noted (cons (root, []) (merge (fresh children)) (fresh siblings)) =
      noted (merge (fresh children)) := by
    have nothing := noted_map siblings
    simp only [noted] at nothing ⊢
    simp [fresh, nothing]
  have ofAll := ofFresh (cons root children siblings)
  rw [← together] at ofAll
  rw [notedRest] at ofRest
  exact ((ofFresh children).symm.append_right _).trans (ofRest.symm.trans ofAll)

end Twice

end Forest
end Library
