import Bootchart.Library.Forest
import Mathlib.Data.List.Chain
import Mathlib.Data.Multiset.AddSub
import Mathlib.Tactic.Abel

/-!
# Cutting a forest

A policy says by marks which children of an element are kept. The forest is cut at
every element at once, also below elements that are cut off themselves: these are
lost. One policy is the loop over a list that removes elements from it, which skips
the element behind a removed one.
-/

namespace Library

variable {α : Type*}

/-- The elements of a list that are marked; those without a mark are kept. -/
def marked : List Bool → List α → List α
  | _, [] => []
  | [], xs => xs
  | mark :: marks, x :: xs => if mark then x :: marked marks xs else marked marks xs

/-- The elements of a list that have a mark, which is not set. -/
def unmarked : List Bool → List α → List α
  | _, [] => []
  | [], _ => []
  | mark :: marks, x :: xs => if mark then unmarked marks xs else x :: unmarked marks xs

@[simp] theorem marked_nil (xs : List α) : marked [] xs = xs := by
  cases xs <;> rfl

@[simp] theorem unmarked_nil (xs : List α) : unmarked [] xs = [] := by
  cases xs <;> rfl

@[simp] theorem marked_nil_right (marks : List Bool) : marked marks ([] : List α) = [] := by
  cases marks <;> rfl

@[simp] theorem unmarked_nil_right (marks : List Bool) :
    unmarked marks ([] : List α) = [] := by
  cases marks <;> rfl

/-- What is not marked is in the list. -/
theorem unmarked_subset (marks : List Bool) (xs : List α) : unmarked marks xs ⊆ xs := by
  induction xs generalizing marks with
  | nil => simp
  | cons x xs inductionHypothesis =>
      rcases marks with _ | ⟨_ | _, marks⟩
      · simp
      · exact List.cons_subset_cons x (inductionHypothesis marks)
      · exact List.subset_cons_of_subset x (inductionHypothesis marks)

@[simp] theorem marked_cons (mark : Bool) (marks : List Bool) (x : α) (xs : List α) :
    marked (mark :: marks) (x :: xs) =
      if mark then x :: marked marks xs else marked marks xs := rfl

@[simp] theorem unmarked_cons (mark : Bool) (marks : List Bool) (x : α) (xs : List α) :
    unmarked (mark :: marks) (x :: xs) =
      if mark then unmarked marks xs else x :: unmarked marks xs := rfl

/-! ## Removing from the list of a loop -/

section Removing

variable (removes : α → Bool)

/-- The marks of what a loop over a list keeps that removes elements from the list;
the first argument says whether the next element is skipped. -/
def loopMarks : Bool → List α → List Bool
  | _, [] => []
  | true, _ :: xs => true :: loopMarks false xs
  | false, x :: xs =>
      if removes x then false :: loopMarks true xs else true :: loopMarks false xs

@[simp] theorem loopMarks_nil (skips : Bool) : loopMarks removes skips [] = [] := by
  cases skips <;> rfl

@[simp] theorem loopMarks_skip (x : α) (xs : List α) :
    loopMarks removes true (x :: xs) = true :: loopMarks removes false xs := rfl

@[simp] theorem loopMarks_look (x : α) (xs : List α) :
    loopMarks removes false (x :: xs) =
      if removes x then false :: loopMarks removes true xs
      else true :: loopMarks removes false xs := rfl

/-- No two neighbours are to be removed. -/
def NoNeighbours (xs : List α) : Prop :=
  xs.IsChain fun x next => removes x = false ∨ removes next = false

variable {removes}

/-- An element and those behind it have no neighbours to be removed. -/
theorem noNeighbours_cons {x : α} {xs : List α} :
    NoNeighbours removes (x :: xs) ↔
      (removes x = true → ∀ next ∈ xs.head?, removes next = false) ∧
        NoNeighbours removes xs := by
  cases xs with
  | nil => simp [NoNeighbours]
  | cons next xs =>
      rw [NoNeighbours, List.isChain_cons_cons]
      refine and_congr_left fun _ => ?_
      cases removes x <;> simp

/-- The loop removes all that is to be removed if and only if there are no neighbours,
and the first element is not skipped. -/
theorem marked_loopMarks_skips_iff {xs : List α} {skips : Bool} :
    (∀ x ∈ marked (loopMarks removes skips xs) xs, removes x = false) ↔
      (skips = true → ∀ next ∈ xs.head?, removes next = false) ∧
        NoNeighbours removes xs := by
  induction xs generalizing skips with
  | nil => simp [NoNeighbours]
  | cons x xs inductionHypothesis =>
      rw [noNeighbours_cons]
      cases skips with
      | true =>
          rw [loopMarks_skip, marked_cons, if_pos rfl, List.forall_mem_cons,
            inductionHypothesis]
          cases isRemoved : removes x <;> simp [isRemoved]
      | false =>
          rw [loopMarks_look]
          cases isRemoved : removes x with
          | true => simp [inductionHypothesis]
          | false => simp [inductionHypothesis, isRemoved]

/-- The loop removes all that is to be removed if and only if there are no
neighbours. -/
theorem marked_loopMarks_iff {xs : List α} :
    (∀ x ∈ marked (loopMarks removes false xs) xs, removes x = false) ↔
      NoNeighbours removes xs := by
  rw [marked_loopMarks_skips_iff]
  simp

/-- Without neighbours the loop keeps what is not to be removed. -/
theorem loopMarks_eq
    {xs : List α}
    {skips : Bool}
    (first : skips = true → ∀ next ∈ xs.head?, removes next = false)
    (noNeighbours : NoNeighbours removes xs) :
    loopMarks removes skips xs = xs.map fun x => !removes x := by
  induction xs generalizing skips with
  | nil => simp
  | cons x xs inductionHypothesis =>
      obtain ⟨next, rest⟩ := noNeighbours_cons.mp noNeighbours
      cases skips with
      | true =>
          have isKept : removes x = false := first rfl x rfl
          rw [loopMarks_skip, inductionHypothesis (by simp) rest, List.map_cons, isKept]
          rfl
      | false =>
          rw [loopMarks_look, List.map_cons]
          cases isRemoved : removes x with
          | true =>
              rw [if_pos rfl, inductionHypothesis (fun _ => next isRemoved) rest]
              rfl
          | false =>
              rw [if_neg (by simp), inductionHypothesis (by simp) rest]
              rfl

end Removing

/-! ## Cutting at every element -/

namespace Forest

variable (policy : α → List α → List Bool)

/-- The elements, each with its children. -/
def families : Forest α → List (α × List α)
  | nil => []
  | cons root children siblings =>
      (root, children.roots) :: (children.families ++ siblings.families)

/-- The children of an element. -/
def childrenOf [DecidableEq α] (forest : Forest α) (a : α) : List α :=
  (forest.families.filter fun family => family.1 = a).flatMap Prod.snd

/-- The forest in which every element has only the children that the policy keeps. -/
def cut : Forest α → Forest α
  | nil => nil
  | cons root children siblings =>
      cons root (children.cut.keep (policy root children.roots)) siblings.cut

/-- The elements that stay in the forest when it is cut, each with the children it had;
the marks are those of the roots. -/
def attached : List Bool → Forest α → List (α × List α)
  | _, nil => []
  | marks, cons root children siblings =>
      (if marks.headD true then
        (root, children.roots) :: children.attached (policy root children.roots)
      else []) ++ siblings.attached marks.tail

/-- The elements below those that are cut off. -/
def lost : List Bool → Forest α → List α
  | _, nil => []
  | marks, cons root children siblings =>
      (if marks.headD true then children.lost (policy root children.roots)
      else children.toList) ++ siblings.lost marks.tail

/-- The elements that are cut off. -/
def cutOff (marks : List Bool) (forest : Forest α) : List α :=
  unmarked marks forest.roots ++
    (forest.attached policy marks).flatMap fun family =>
      unmarked (policy family.1 family.2) family.2

variable {policy}

/-- The elements of the families are those of the forest. -/
theorem map_fst_families (forest : Forest α) :
    forest.families.map Prod.fst = forest.toList := by
  induction forest with
  | nil => rfl
  | cons root children siblings first second =>
      simp [families, first, second]

/-- The children of an element are part of the forest. -/
theorem family_sublist
    {forest : Forest α}
    {family : α × List α}
    (isFamily : family ∈ forest.families) : family.2.Sublist forest.toList := by
  induction forest with
  | nil => simp [families] at isFamily
  | cons root children siblings first second =>
      rw [families, List.mem_cons, List.mem_append] at isFamily
      rw [toList_cons]
      rcases isFamily with rfl | inChildren | inSiblings
      · have areChildren := roots_sublist children
        exact (areChildren.trans (List.sublist_append_left _ _)).cons root
      · exact ((first inChildren).trans (List.sublist_append_left _ _)).cons root
      · exact ((second inSiblings).trans (List.sublist_append_right _ _)).cons root

/-- An element without children. -/
theorem childrenOf_eq_nil [DecidableEq α] {forest : Forest α} {a : α} :
    forest.childrenOf a = [] ↔ ∀ family ∈ forest.families, family.1 = a → family.2 = [] := by
  simp [childrenOf, List.flatMap_eq_nil_iff]

/-- The families of the trees. -/
theorem families_eq_flatMap (forest : Forest α) :
    forest.families =
      forest.trees.flatMap fun tree => (tree.1, tree.2.roots) :: tree.2.families := by
  induction forest with
  | nil => rfl
  | cons root children siblings _ inductionHypothesis =>
      rw [families, inductionHypothesis, trees, List.flatMap_cons, List.cons_append]

/-- Sorting puts the families in another order. -/
theorem families_sortRoots_perm (less : α → α → Bool) (forest : Forest α) :
    (forest.sortRoots less).families.Perm forest.families := by
  rw [families_eq_flatMap, families_eq_flatMap]
  exact (trees_sortRoots_perm less forest).flatMap_right _

/-- Sorting sorts the roots. -/
theorem roots_sortRoots (less : α → α → Bool) (forest : Forest α) :
    (forest.sortRoots less).roots = forest.roots.mergeSort less := by
  rw [← map_fst_trees, ← map_fst_trees, sortRoots, trees_ofTrees]
  exact List.map_mergeSort fun _ _ _ _ => rfl

/-- If the elements are distinct, a root has the children of its tree. -/
theorem children_of_mem_trees
    {forest : Forest α}
    (distinct : forest.toList.Nodup)
    {tree : α × Forest α}
    (isTree : tree ∈ forest.trees)
    {family : α × List α}
    (member : family ∈ forest.families)
    (isRoot : family.1 = tree.1) : family.2 = tree.2.roots := by
  have inList (forest : Forest α) (isFamily : family ∈ forest.families) :
      tree.1 ∈ forest.toList := by
    rw [← isRoot, ← map_fst_families]
    exact List.mem_map_of_mem isFamily
  induction forest with
  | nil => contradiction
  | cons root children siblings _ inductionHypothesis =>
      obtain ⟨notChild, notSibling, -, siblingsDistinct, apart⟩ :=
        nodup_toList_cons.mp distinct
      rw [families, List.mem_cons, List.mem_append] at member
      rcases List.mem_cons.mp isTree with rfl | inSiblings
      · rcases member with rfl | inChildren | inSiblings
        · rfl
        · exact absurd (inList children inChildren) notChild
        · exact absurd (inList siblings inSiblings) notSibling
      · have isSibling : tree.1 ∈ siblings.toList := by
          apply siblings.roots_subset
          rw [← map_fst_trees]
          exact List.mem_map_of_mem inSiblings
        rcases member with rfl | inChildren | inSiblings
        · exact absurd isSibling (isRoot ▸ notSibling : tree.1 ∉ siblings.toList)
        · exact absurd (inList children inChildren) (apart tree.1 isSibling)
        · exact inductionHypothesis siblingsDistinct ‹_› inSiblings

/-- The roots of the trees that are kept. -/
@[simp] theorem roots_keep (marks : List Bool) (forest : Forest α) :
    (forest.keep marks).roots = marked marks forest.roots := by
  induction forest generalizing marks with
  | nil => simp [keep]
  | cons root children siblings _ inductionHypothesis =>
      rcases marks with _ | ⟨_ | _, marks⟩ <;> simp [keep, inductionHypothesis]

@[simp] theorem keep_nil (forest : Forest α) : forest.keep [] = forest := by
  cases forest <;> rfl

/-- The roots are not cut. -/
@[simp] theorem roots_cut (forest : Forest α) : (forest.cut policy).roots = forest.roots := by
  induction forest with
  | nil => rfl
  | cons root children siblings _ inductionHypothesis =>
      rw [cut, roots_cons, roots_cons, inductionHypothesis]

/-- Cutting adds no elements. -/
theorem toList_cut_sublist (forest : Forest α) :
    (forest.cut policy).toList.Sublist forest.toList := by
  induction forest with
  | nil => exact List.Sublist.refl _
  | cons root children siblings first second =>
      rw [cut, toList_cons, toList_cons]
      exact (((toList_keep_sublist _ _).trans first).append second).cons_cons root

/-- Cutting leaves elements alone that are. -/
theorem Alone.cut
    {special : α → Prop}
    {forest : Forest α}
    (alone : forest.Alone special) : (forest.cut policy).Alone special := by
  induction forest with
  | nil => trivial
  | cons root children siblings _ inductionHypothesis =>
      obtain ⟨noChildren, notBelow, rest⟩ := alone
      refine ⟨fun isSpecial => ?_, fun a member => ?_, inductionHypothesis rest⟩
      · rw [noChildren isSpecial]
        exact Forest.keep.eq_1 _
      · exact notBelow a ((toList_cut_sublist children).subset
          ((toList_keep_sublist _ _).subset member))

/-- What is alone has no children. -/
theorem Alone.children_eq_nil
    {special : α → Prop}
    {forest : Forest α}
    (alone : forest.Alone special)
    {family : α × List α}
    (member : family ∈ forest.families)
    (isSpecial : special family.1) : family.2 = [] := by
  induction forest with
  | nil => simp [families] at member
  | cons root children siblings _ inductionHypothesis =>
      obtain ⟨noChildren, notBelow, rest⟩ := alone
      rw [families, List.mem_cons, List.mem_append] at member
      rcases member with rfl | inChildren | inSiblings
      · exact roots_eq_nil.mpr (noChildren isSpecial)
      · have inForest : family.1 ∈ children.toList := by
          rw [← map_fst_families]
          exact List.mem_map_of_mem inChildren
        exact absurd isSpecial (notBelow _ inForest)
      · exact inductionHypothesis rest inSiblings

/-- A cut forest holds the elements that stay, each with the children that are
kept. -/
theorem families_keep_cut (marks : List Bool) (forest : Forest α) :
    ((forest.cut policy).keep marks).families =
      (forest.attached policy marks).map fun family =>
        (family.1, marked (policy family.1 family.2) family.2) := by
  induction forest generalizing marks with
  | nil => simp [cut, keep, attached, families]
  | cons root children siblings first second =>
      rcases marks with _ | ⟨_ | _, marks⟩
      · have rest := second []
        rw [keep_nil] at rest
        simp [cut, families, attached, first, rest]
      · simp [cut, keep, attached, second]
      · simp [cut, keep, families, attached, first, second]

/-- The elements that stay have the children they had. -/
theorem attached_subset (marks : List Bool) (forest : Forest α) :
    forest.attached policy marks ⊆ forest.families := by
  induction forest generalizing marks with
  | nil => simp [attached]
  | cons root children siblings first second =>
      rw [attached, families, ← List.cons_append]
      apply List.append_subset.mpr
      constructor
      · split
        · exact List.subset_append_of_subset_left _ (List.cons_subset_cons _ (first _))
        · exact List.nil_subset _
      · exact List.subset_append_of_subset_right _ (second _)

/-- What is cut off of a kept root and its siblings. -/
theorem cutOff_kept
    (policy : α → List α → List Bool)
    (root : α)
    (children siblings : Forest α)
    {marks : List Bool}
    (isKept : marks.headD true = true) :
    ((cons root children siblings).cutOff policy marks).Perm
      (children.cutOff policy (policy root children.roots) ++
        siblings.cutOff policy marks.tail) := by
  have roots : unmarked marks (cons root children siblings).roots =
      unmarked marks.tail siblings.roots := by
    cases marks with
    | nil => simp
    | cons mark marks => exact if_pos isKept
  rw [← Multiset.coe_eq_coe]
  simp only [cutOff, roots, attached, isKept, if_true, List.cons_append,
    List.flatMap_cons, List.flatMap_append, ← Multiset.coe_add]
  abel

/-- The elements stay, are cut off, or are below those that are. -/
theorem toList_perm (marks : List Bool) (forest : Forest α) :
    forest.toList.Perm ((forest.attached policy marks).map Prod.fst ++
      (forest.cutOff policy marks ++ forest.lost policy marks)) := by
  induction forest generalizing marks with
  | nil => simp [attached, cutOff, lost]
  | cons root children siblings first second =>
      have ofSiblings := Multiset.coe_eq_coe.mpr (second marks.tail)
      rw [← Multiset.coe_eq_coe]
      cases isKept : marks.headD true with
      | true =>
          have ofChildren := Multiset.coe_eq_coe.mpr (first (policy root children.roots))
          have off := Multiset.coe_eq_coe.mpr
            (cutOff_kept policy root children siblings isKept)
          simp only [← Multiset.coe_add] at ofSiblings ofChildren off
          simp only [toList_cons, attached, lost, isKept, if_true, List.cons_append,
            List.map_cons, List.map_append, ← Multiset.coe_add, ← Multiset.cons_coe,
            ← Multiset.singleton_add, ofChildren, ofSiblings, off]
          abel
      | false =>
          obtain ⟨rest, rfl⟩ : ∃ rest, marks = false :: rest := by
            rcases marks with _ | ⟨_ | _, marks⟩ <;> simp_all
          simp only [cutOff, List.tail_cons, ← Multiset.coe_add] at ofSiblings
          simp only [toList_cons, attached, cutOff, lost, List.headD_cons, if_false,
            roots_cons, unmarked_cons, List.tail_cons, List.nil_append, List.cons_append,
            Bool.false_eq_true, ← Multiset.coe_add, ← Multiset.cons_coe,
            ← Multiset.singleton_add, ofSiblings]
          abel

/-- Two policies leave the same elements that have a property, if they agree on those
that have it. -/
theorem forall_attached_congr
    {other : α → List α → List Bool}
    {property : α → List α → Prop}
    (agree : ∀ root children, property root children →
      policy root children = other root children)
    (marks : List Bool)
    (forest : Forest α) :
    (∀ family ∈ forest.attached policy marks, property family.1 family.2) ↔
      ∀ family ∈ forest.attached other marks, property family.1 family.2 := by
  induction forest generalizing marks with
  | nil => simp [attached]
  | cons root children siblings first second =>
      rw [attached, attached, List.forall_mem_append, List.forall_mem_append, second]
      refine and_congr_left fun _ => ?_
      split
      · rw [List.forall_mem_cons, List.forall_mem_cons]
        refine and_congr_right fun holds => ?_
        rw [agree root children.roots holds]
        exact first _
      · rfl

end Forest
end Library
