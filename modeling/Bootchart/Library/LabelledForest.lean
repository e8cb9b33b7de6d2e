import Bootchart.Library.Forest
import Mathlib.Data.List.SplitBy

/-!
# Forests with labels

The elements of a forest have labels. In a normal form no tree is like the one before
it, and no element has a single child that is like itself. The trees of a forest fall
into runs of adjacent trees whose roots have the same label.
-/

namespace Library
namespace Forest

variable {α β : Type*}

/-- No two adjacent siblings have the same label, at any depth. -/
def Alternating (label : α → β) : Forest α → Prop
  | nil => True
  | cons root children siblings =>
      children.Alternating label ∧ siblings.Alternating label ∧
        ∀ next ∈ siblings.roots.head?, label next ≠ label root

/-- No element has a single child with its own label. -/
def NoRuns (label : α → β) : Forest α → Prop
  | nil => True
  | cons root children siblings =>
      children.NoRuns label ∧ siblings.NoRuns label ∧
        ∀ child, children.roots = [child] → label child ≠ label root

/-- The normal form of merging siblings and of merging runs. -/
structure NormalForm (label : α → β) (forest : Forest α) : Prop where
  /-- Siblings are merged. -/
  alternating : forest.Alternating label
  /-- Runs are merged. -/
  noRuns : forest.NoRuns label

section Labels

variable {label : α → β}

@[simp] theorem alternating_nil : (nil : Forest α).Alternating label := trivial

@[simp] theorem noRuns_nil : (nil : Forest α).NoRuns label := trivial

@[simp] theorem alternating_cons {root : α} {children siblings : Forest α} :
    (cons root children siblings).Alternating label ↔
      children.Alternating label ∧ siblings.Alternating label ∧
        ∀ next ∈ siblings.roots.head?, label next ≠ label root := Iff.rfl

@[simp] theorem noRuns_cons {root : α} {children siblings : Forest α} :
    (cons root children siblings).NoRuns label ↔
      children.NoRuns label ∧ siblings.NoRuns label ∧
        ∀ child, children.roots = [child] → label child ≠ label root := Iff.rfl

/-- A forest whose elements are all alike has at most one root, if no two adjacent
siblings are alike. -/
theorem Alternating.eq_nil_or_singleton
    {forest : Forest α}
    (alternating : forest.Alternating label)
    {value : β}
    (alike : ∀ a ∈ forest.toList, label a = value) :
    forest = nil ∨ ∃ root, forest.roots = [root] := by
  cases forest with
  | nil => exact .inl rfl
  | cons root children siblings =>
      cases siblings with
      | nil => exact .inr ⟨root, rfl⟩
      | cons next nextChildren siblings =>
          have sameNext : label next = value := alike next (by simp)
          have sameRoot : label root = value := alike root (by simp)
          exact absurd (sameNext.trans sameRoot.symm) (alternating.2.2 next rfl)

/-- In a normal form an element whose descendants are all like itself has none. -/
theorem NormalForm.children_eq_nil
    {root : α}
    {children siblings : Forest α}
    (normalForm : (cons root children siblings).NormalForm label)
    (alike : ∀ a ∈ children.toList, label a = label root) : children = nil := by
  rcases normalForm.alternating.1.eq_nil_or_singleton alike with isNil | ⟨child, single⟩
  · exact isNil
  · have member : child ∈ children.toList := children.roots_subset (by simp [single])
    exact absurd (alike child member) (normalForm.noRuns.2.2 child single)

/-- The trees of a normal form are normal forms. -/
theorem NormalForm.of_mem_trees
    {forest : Forest α}
    (normalForm : forest.NormalForm label)
    {tree : α × Forest α}
    (isTree : tree ∈ forest.trees) : (cons tree.1 tree.2 nil).NormalForm label := by
  induction forest with
  | nil => contradiction
  | cons root children siblings _ inductionHypothesis =>
      obtain ⟨⟨childrenAlternate, siblingsAlternate, -⟩, childrenHaveNone, siblingsHaveNone,
        notSingle⟩ := normalForm
      rcases List.mem_cons.mp isTree with rfl | inSiblings
      · exact ⟨⟨childrenAlternate, trivial, nofun⟩, childrenHaveNone, trivial, notSingle⟩
      · exact inductionHypothesis ⟨siblingsAlternate, siblingsHaveNone⟩ inSiblings

end Labels

/-! ## Runs of trees -/

section Runs

variable [DecidableEq β] (label : α → β)

/-- Whether the roots of two trees have the same label. -/
def alike (first second : α × Forest α) : Bool :=
  label second.1 = label first.1

@[simp] theorem alike_eq_true {first second : α × Forest α} :
    alike label first second = true ↔ label second.1 = label first.1 :=
  decide_eq_true_iff

@[simp] theorem alike_eq_false {first second : α × Forest α} :
    alike label first second = false ↔ label second.1 ≠ label first.1 :=
  decide_eq_false_iff_not

/-- The runs of adjacent trees that are alike. -/
def runs (forest : Forest α) : List (List (α × Forest α)) :=
  forest.trees.splitBy (alike label)

/-- The elements of trees. -/
def elements (trees : List (α × Forest α)) : List α :=
  trees.flatMap fun tree => tree.1 :: tree.2.toList

@[simp] theorem elements_nil : elements ([] : List (α × Forest α)) = [] := rfl

@[simp] theorem elements_cons (tree : α × Forest α) (trees : List (α × Forest α)) :
    elements (tree :: trees) = tree.1 :: (tree.2.toList ++ elements trees) := rfl

@[simp] theorem elements_append (first second : List (α × Forest α)) :
    elements (first ++ second) = elements first ++ elements second :=
  List.flatMap_append

/-- The trees of a forest have its elements. -/
theorem elements_trees (forest : Forest α) : elements forest.trees = forest.toList := by
  induction forest with
  | nil => rfl
  | cons root children siblings _ inductionHypothesis =>
      rw [trees, elements_cons, inductionHypothesis, toList_cons]

variable {label}

@[simp] theorem runs_nil : (nil : Forest α).runs label = [] := rfl

@[simp] theorem runs_single (root : α) (children : Forest α) :
    (cons root children nil).runs label = [[(root, children)]] := rfl

/-- The trees of the runs are those of the forest. -/
theorem flatten_runs (label : α → β) (forest : Forest α) :
    (forest.runs label).flatten = forest.trees :=
  List.flatten_splitBy _ _

/-- The elements of some of the trees. -/
theorem elements_subset
    {first second : List (α × Forest α)}
    (subset : first ⊆ second) : elements first ⊆ elements second := by
  intro a member
  obtain ⟨tree, isTree, inTree⟩ := List.mem_flatMap.mp member
  exact List.mem_flatMap.mpr ⟨tree, subset isTree, inTree⟩

/-- The root of a tree is an element. -/
theorem root_mem_elements
    {trees : List (α × Forest α)}
    {tree : α × Forest α}
    (member : tree ∈ trees) : tree.1 ∈ elements trees :=
  List.mem_flatMap.mpr ⟨tree, member, List.mem_cons_self⟩

/-- The elements of a run are in the forest. -/
theorem elements_run_subset
    {forest : Forest α}
    {run : List (α × Forest α)}
    (isRun : run ∈ forest.runs label) : elements run ⊆ forest.toList := by
  rw [← elements_trees, ← flatten_runs label]
  exact elements_subset (List.sublist_flatten_of_mem isRun).subset

/-- A tree that is not like the one behind it is a run. -/
theorem runs_apart
    {root next : α}
    {children nextChildren siblings : Forest α}
    (different : label next ≠ label root) :
    (cons root children (cons next nextChildren siblings)).runs label =
      [(root, children)] :: (cons next nextChildren siblings).runs label := by
  have apart : ∀ last ∈ [(root, children)].getLast?,
      alike label last (next, nextChildren) = false := by
    simp [different]
  exact List.splitBy_append_cons siblings.trees apart

/-- A tree that is like the one behind it belongs to its run. -/
theorem runs_next
    {root next : α}
    (same : label next = label root)
    (children nextChildren others siblings : Forest α) :
    ∃ run rest, siblings.trees = run ++ rest.flatten ∧
      (cons root others siblings).runs label = ((root, others) :: run) :: rest ∧
      (cons root children (cons next nextChildren siblings)).runs label =
        ((root, children) :: (next, nextChildren) :: run) :: rest := by
  cases isRuns : (cons root others siblings).runs label with
  | nil => exact absurd isRuns (List.splitBy_ne_nil.mpr (by simp [trees]))
  | cons first rest =>
      obtain ⟨flattened, notNil, chains, bounds⟩ := List.splitBy_eq_iff.mp isRuns
      cases first with
      | nil => simp at notNil
      | cons tree run =>
          rw [trees, List.flatten_cons, List.cons_append, List.cons.injEq] at flattened
          obtain ⟨rfl, areSiblings⟩ := flattened
          rw [List.forall_mem_cons] at chains
          refine ⟨run, rest, areSiblings, rfl, List.splitBy_eq_iff.mpr ⟨?_, ?_, ?_, ?_⟩⟩
          · simp [trees, areSiblings]
          · simpa using notNil
          · rw [List.forall_mem_cons]
            refine ⟨List.isChain_cons_cons.mpr ⟨?_, ?_⟩, chains.2⟩
            · simp [same]
            · simpa [List.isChain_cons, same] using chains.1
          · rw [List.isChain_cons] at bounds ⊢
            refine ⟨fun second isSecond => ?_, bounds.2⟩
            obtain ⟨_, notEmpty, apart⟩ := bounds.1 second isSecond
            refine ⟨by simp, notEmpty, ?_⟩
            cases run with
            | nil =>
                rw [alike_eq_false] at apart ⊢
                exact fun equal => apart (equal.trans same)
            | cons => exact apart

end Runs

end Forest
end Library
