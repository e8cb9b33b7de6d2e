import Bootchart.Library.Ascent
import Mathlib.Algebra.BigOperators.Group.List.Basic
import Mathlib.Data.List.Count

/-!
# Forests

A forest is empty or consists of a first tree, that is a root with a forest of
children, and the forest of its siblings. A table of children lists is unfolded
into a forest; if it comes from parent pointers, the elements that occur in the
forest are those from which the climb along the parents ends, each once.
-/

namespace Library

/-- A forest. -/
inductive Forest (α : Type*)
  /-- No tree. -/
  | nil
  /-- A first tree and its siblings. -/
  | cons (root : α) (children siblings : Forest α)
  deriving DecidableEq

namespace Forest

variable {α : Type*}

/-- Put a forest behind another. -/
def append : Forest α → Forest α → Forest α
  | nil, other => other
  | cons root children siblings, other => cons root children (siblings.append other)

instance : Append (Forest α) := ⟨append⟩

@[simp] theorem nil_append (forest : Forest α) : nil ++ forest = forest := rfl

@[simp] theorem cons_append (root : α) (children siblings other : Forest α) :
    cons root children siblings ++ other = cons root children (siblings ++ other) := rfl

@[simp] theorem append_nil (forest : Forest α) : forest ++ nil = forest := by
  induction forest with
  | nil => rfl
  | cons root children siblings _ inductionHypothesis =>
      rw [cons_append, inductionHypothesis]

theorem append_assoc (first second third : Forest α) :
    first ++ second ++ third = first ++ (second ++ third) := by
  induction first with
  | nil => rfl
  | cons root children siblings _ inductionHypothesis =>
      rw [cons_append, cons_append, cons_append, inductionHypothesis]

/-- The elements in preorder. -/
def toList : Forest α → List α
  | nil => []
  | cons root children siblings => root :: (children.toList ++ siblings.toList)

@[simp] theorem toList_nil : (nil : Forest α).toList = [] := rfl

@[simp] theorem toList_cons (root : α) (children siblings : Forest α) :
    (cons root children siblings).toList =
      root :: (children.toList ++ siblings.toList) := rfl

@[simp] theorem toList_append (first second : Forest α) :
    (first ++ second).toList = first.toList ++ second.toList := by
  induction first with
  | nil => rfl
  | cons root children siblings _ inductionHypothesis =>
      simp [inductionHypothesis]

/-- The elements of a first tree and of its siblings are distinct. -/
theorem nodup_toList_cons {root : α} {children siblings : Forest α} :
    (cons root children siblings).toList.Nodup ↔
      root ∉ children.toList ∧ root ∉ siblings.toList ∧ children.toList.Nodup ∧
        siblings.toList.Nodup ∧ ∀ a ∈ siblings.toList, a ∉ children.toList := by
  rw [toList_cons, List.nodup_cons, List.mem_append, not_or, and_assoc,
    List.nodup_append']
  refine and_congr_right fun _ => and_congr_right fun _ => and_congr_right fun _ =>
    and_congr_right fun _ => ?_
  exact List.disjoint_right

/-- The roots of the trees. -/
def roots : Forest α → List α
  | nil => []
  | cons root _ siblings => root :: siblings.roots

@[simp] theorem roots_nil : (nil : Forest α).roots = [] := rfl

@[simp] theorem roots_cons (root : α) (children siblings : Forest α) :
    (cons root children siblings).roots = root :: siblings.roots := rfl

/-- A forest without roots is empty. -/
@[simp] theorem roots_eq_nil {forest : Forest α} : forest.roots = [] ↔ forest = nil := by
  cases forest <;> simp

/-- A forest with one root is one tree. -/
theorem roots_eq_singleton {forest : Forest α} {root : α} :
    forest.roots = [root] ↔ ∃ children, forest = cons root children nil := by
  cases forest <;> simp

/-- The number of elements. -/
def size : Forest α → Nat
  | nil => 0
  | cons _ children siblings => 1 + children.size + siblings.size

@[simp] theorem size_nil : (nil : Forest α).size = 0 := rfl

@[simp] theorem size_cons (root : α) (children siblings : Forest α) :
    (cons root children siblings).size = 1 + children.size + siblings.size := rfl

@[simp] theorem size_append (first second : Forest α) :
    (first ++ second).size = first.size + second.size := by
  induction first with
  | nil => simp
  | cons root children siblings _ inductionHypothesis =>
      simp only [cons_append, size_cons, inductionHypothesis]
      omega

/-- As many elements are listed as there are. -/
theorem length_toList (forest : Forest α) : forest.toList.length = forest.size := by
  induction forest with
  | nil => rfl
  | cons root children siblings first second =>
      rw [toList_cons, List.length_cons, List.length_append, first, second, size_cons]
      omega

/-- The number of levels. -/
def height : Forest α → Nat
  | nil => 0
  | cons _ children siblings => max (1 + children.height) siblings.height

/-- The trees in the opposite order. -/
def reverse : Forest α → Forest α
  | nil => nil
  | cons root children siblings => siblings.reverse ++ cons root children nil

@[simp] theorem size_reverse (forest : Forest α) : forest.reverse.size = forest.size := by
  induction forest with
  | nil => rfl
  | cons root children siblings _ inductionHypothesis =>
      simp only [reverse, size_append, inductionHypothesis, size_cons, size_nil]
      omega

/-- The elements of the reversed forest. -/
theorem toList_reverse_perm (forest : Forest α) : forest.reverse.toList.Perm forest.toList := by
  induction forest with
  | nil => rfl
  | cons root children siblings _ inductionHypothesis =>
      simp only [reverse, toList_append, toList_cons, toList_nil, List.append_nil]
      exact (inductionHypothesis.append_right _).trans List.perm_append_comm

/-- Keep the trees that are marked; those without a mark are kept. -/
def keep : List Bool → Forest α → Forest α
  | _, nil => nil
  | [], forest => forest
  | mark :: marks, cons root children siblings =>
      if mark then cons root children (siblings.keep marks) else siblings.keep marks

/-- The elements of the trees that are kept. -/
theorem toList_keep_sublist (marks : List Bool) (forest : Forest α) :
    (forest.keep marks).toList.Sublist forest.toList := by
  induction forest generalizing marks with
  | nil => simp [keep]
  | cons root children siblings _ inductionHypothesis =>
      cases marks with
      | nil => exact List.Sublist.refl _
      | cons mark marks =>
          have rest := inductionHypothesis marks
          cases mark with
          | false => exact (rest.trans (List.sublist_append_right _ _)).cons root
          | true => exact (rest.append_left _).cons_cons root

/-- The roots of a forest are some of its elements. -/
theorem roots_sublist (forest : Forest α) : forest.roots.Sublist forest.toList := by
  induction forest with
  | nil => exact List.Sublist.refl _
  | cons root children siblings _ inductionHypothesis =>
      exact (inductionHypothesis.trans (List.sublist_append_right _ _)).cons_cons root

/-- The roots of a forest are among its elements. -/
theorem roots_subset (forest : Forest α) : forest.roots ⊆ forest.toList :=
  forest.roots_sublist.subset

/-- The trees, each as its root and its children. -/
def trees : Forest α → List (α × Forest α)
  | nil => []
  | cons root children siblings => (root, children) :: siblings.trees

/-- The forest of given trees. -/
def ofTrees : List (α × Forest α) → Forest α
  | [] => nil
  | (root, children) :: trees => cons root children (ofTrees trees)

/-- Put the trees in order of their roots; equal ones keep their order. -/
def sortRoots (less : α → α → Bool) (forest : Forest α) : Forest α :=
  ofTrees (forest.trees.mergeSort fun first second => less first.1 second.1)

@[simp] theorem trees_ofTrees (trees : List (α × Forest α)) :
    (ofTrees trees).trees = trees := by
  induction trees with
  | nil => rfl
  | cons tree trees inductionHypothesis =>
      rw [ofTrees, Forest.trees, inductionHypothesis]

@[simp] theorem sortRoots_nil (less : α → α → Bool) :
    (nil : Forest α).sortRoots less = nil := by
  simp [sortRoots, trees, ofTrees]

/-- Sorting puts the trees in another order. -/
theorem trees_sortRoots_perm (less : α → α → Bool) (forest : Forest α) :
    (forest.sortRoots less).trees.Perm forest.trees := by
  rw [sortRoots, trees_ofTrees]
  exact List.mergeSort_perm _ _

/-- The roots are those of the trees. -/
theorem map_fst_trees (forest : Forest α) : forest.trees.map Prod.fst = forest.roots := by
  induction forest with
  | nil => rfl
  | cons root children siblings _ inductionHypothesis =>
      rw [trees, List.map_cons, inductionHypothesis, roots_cons]

/-- The elements with a property occur only as roots without children. -/
def Alone (special : α → Prop) : Forest α → Prop
  | nil => True
  | cons root children siblings =>
      (special root → children = nil) ∧ (∀ a ∈ children.toList, ¬special a) ∧
        siblings.Alone special

/-- An element with the property is a tree of its own. -/
theorem Alone.mem_trees
    {special : α → Prop}
    {forest : Forest α}
    (alone : forest.Alone special)
    {a : α}
    (member : a ∈ forest.toList)
    (isSpecial : special a) : (a, nil) ∈ forest.trees := by
  induction forest with
  | nil => contradiction
  | cons root children siblings _ inductionHypothesis =>
      obtain ⟨noChildren, notBelow, rest⟩ := alone
      rw [toList_cons, List.mem_cons, List.mem_append] at member
      rcases member with rfl | inChildren | inSiblings
      · rw [noChildren isSpecial, trees]
        exact List.mem_cons_self
      · exact absurd isSpecial (notBelow a inChildren)
      · exact List.mem_cons_of_mem _ (inductionHypothesis rest inSiblings)

/-! ## Unfolding a table of children -/

/-- The forest with given roots in which the children of an element are those of the
table, down to a given depth. -/
def unfold (children : α → List α) : Nat → List α → Forest α
  | 0, _ => nil
  | depth + 1, roots =>
      roots.foldr (fun root siblings =>
        cons root (unfold children depth (children root)) siblings) nil

section Unfold

variable (children : α → List α)

@[simp] theorem unfold_zero (roots : List α) : unfold children 0 roots = nil := rfl

@[simp] theorem unfold_nil (depth : Nat) : unfold children depth [] = nil := by
  cases depth <;> rfl

@[simp] theorem unfold_cons (depth : Nat) (root : α) (roots : List α) :
    unfold children (depth + 1) (root :: roots) =
      cons root (unfold children depth (children root))
        (unfold children (depth + 1) roots) := rfl

/-- Elements of the unfolding are roots or children. -/
theorem mem_of_mem_unfold
    {elements : List α}
    (closed : ∀ a ∈ elements, children a ⊆ elements)
    {depth : Nat}
    {roots : List α}
    (areElements : roots ⊆ elements) :
    (unfold children depth roots).toList ⊆ elements := by
  induction depth generalizing roots with
  | zero => simp
  | succ depth inductionHypothesis =>
      induction roots with
      | nil => simp
      | cons root roots inner =>
          obtain ⟨isElement, rest⟩ := List.cons_subset.mp areElements
          rw [unfold_cons, toList_cons]
          refine List.cons_subset.mpr ⟨isElement, List.append_subset.mpr ⟨?_, inner rest⟩⟩
          exact inductionHypothesis (closed root isElement)

/-- In an unfolding the elements with a property occur only as roots without children,
if the table has them neither as children nor with children. -/
theorem alone_unfold
    {special : α → Prop}
    (noChildren : ∀ a, special a → children a = [])
    (notBelow : ∀ a, ∀ child ∈ children a, ¬special child)
    (depth : Nat)
    (roots : List α) : (unfold children depth roots).Alone special := by
  have closed : ∀ depth roots, (∀ root ∈ roots, ¬special root) →
      ∀ a ∈ (unfold children depth roots).toList, ¬special a := by
    intro depth
    induction depth with
    | zero => simp
    | succ depth inductionHypothesis =>
        intro roots notRoots
        induction roots with
        | nil => simp
        | cons root roots inner =>
            rw [List.forall_mem_cons] at notRoots
            rw [unfold_cons, toList_cons, List.forall_mem_cons, List.forall_mem_append]
            exact ⟨notRoots.1, inductionHypothesis _ (notBelow root), inner notRoots.2⟩
  cases depth with
  | zero => trivial
  | succ depth =>
      induction roots with
      | nil => trivial
      | cons root roots inductionHypothesis =>
          refine ⟨fun isSpecial => ?_, closed depth _ (notBelow root), inductionHypothesis⟩
          rw [noChildren root isSpecial, unfold_nil]

variable [DecidableEq α] {up : α → Option α}

/-- How often an element occurs: as a root, or as often as its parent. -/
theorem count_unfold
    {a : α}
    (children_eq : ∀ p, (children p).count a = if up a = some p then 1 else 0)
    (depth : Nat)
    (roots : List α) :
    (unfold children (depth + 1) roots).toList.count a =
      roots.count a + match up a with
        | none => 0
        | some p => (unfold children depth roots).toList.count p := by
  induction depth generalizing roots with
  | zero =>
      induction roots with
      | nil => cases up a <;> simp
      | cons root roots inner =>
          rw [unfold_cons, toList_cons, List.count_cons, List.count_append, inner,
            List.count_cons]
          cases up a <;> simp
  | succ depth inductionHypothesis =>
      induction roots with
      | nil => cases up a <;> simp
      | cons root roots inner =>
          rw [unfold_cons, toList_cons, List.count_cons, List.count_append, inner,
            inductionHypothesis, children_eq, List.count_cons]
          cases parent : up a with
          | none => simp
          | some p =>
              simp only [unfold_cons, toList_cons, List.count_cons, List.count_append,
                Option.some.injEq, beq_iff_eq, eq_comm (a := root)]
              omega

/-- An element occurs at most once if it is once either a root or a child. -/
theorem count_unfold_le_one
    {elements roots : List α}
    (areElements : ∀ depth, (unfold children depth roots).toList ⊆ elements)
    (children_eq : ∀ a ∈ elements, ∀ p,
      (children p).count a = if up a = some p then 1 else 0)
    (roots_eq : ∀ a ∈ elements, roots.count a = if up a = none then 1 else 0)
    (depth : Nat)
    (a : α) : (unfold children depth roots).toList.count a ≤ 1 := by
  induction depth generalizing a with
  | zero => simp
  | succ depth inductionHypothesis =>
      by_cases member : a ∈ elements
      · rw [count_unfold children (children_eq a member), roots_eq a member]
        cases parent : up a with
        | none => simp
        | some p =>
            have counted := inductionHypothesis p
            simp only [reduceCtorEq, if_false, zero_add]
            exact counted
      · rw [List.count_eq_zero.mpr fun inForest => member (areElements _ inForest)]
        exact Nat.zero_le 1

/-- An element occurs once if its climb ends within the depth, else never. -/
theorem count_unfold_eq
    {elements roots : List α}
    (children_eq : ∀ a ∈ elements, ∀ p,
      (children p).count a = if up a = some p then 1 else 0)
    (roots_eq : ∀ a ∈ elements, roots.count a = if up a = none then 1 else 0)
    (closed : ∀ a ∈ elements, ∀ p, up a = some p → p ∈ elements)
    (depth : Nat)
    {a : α}
    (member : a ∈ elements) :
    (unfold children depth roots).toList.count a =
      if (climb up depth a).isSome then 1 else 0 := by
  induction depth generalizing a with
  | zero => simp [climb]
  | succ depth inductionHypothesis =>
      rw [count_unfold children (children_eq a member), roots_eq a member]
      cases parent : up a with
      | none => simp [climb_of_none parent]
      | some p =>
          simp [climb_of_some parent, inductionHypothesis (closed a member p parent)]

end Unfold

end Forest
end Library
