import Bootchart.Library.Cut
import Bootchart.Library.LabelledForest
import Mathlib.Data.List.Destutter

/-!
# Merging runs of siblings

Every run of adjacent trees whose roots have the same label becomes one tree: the other
roots join the first one, and the children of all are put together and merged in turn. It
makes no difference if some of the children are merged before they are put together. If
joining leaves the first root as it is, the child lists that are left are the firsts of the
runs of the siblings that come together.
-/

namespace Library
namespace Forest

variable {α β : Type*} [DecidableEq β] {label : α → β}

/-- The children of some trees, put together. -/
def gather (trees : List (α × Forest α)) : Forest α :=
  trees.foldr (fun tree rest => tree.2 ++ rest) nil

@[simp] theorem gather_nil : gather ([] : List (α × Forest α)) = nil := rfl

@[simp] theorem gather_cons (tree : α × Forest α) (trees : List (α × Forest α)) :
    gather (tree :: trees) = tree.2 ++ gather trees := rfl

/-- The first elements of the runs of elements with the same label. -/
def firsts (label : α → β) (siblings : List α) : List α :=
  siblings.destutter fun first second => label second ≠ label first

/-- Runs of adjacent trees whose roots have the same label become one tree, at any
depth; a root that joins another one changes that. -/
def mergeAlike (join : α → α → α) (label : α → β) : Forest α → Forest α
  | nil => nil
  | cons root children nil => cons root (mergeAlike join label children) nil
  | cons root children (cons next nextChildren siblings) =>
      if label next = label root then
        mergeAlike join label (cons (join root next) (children ++ nextChildren) siblings)
      else
        cons root (mergeAlike join label children)
          (mergeAlike join label (cons next nextChildren siblings))
termination_by forest => forest.size
decreasing_by
  all_goals simp only [size_append, size_cons, size_nil]
  all_goals omega

/-- The siblings that come together below a forest: the children of a run of trees, and
what comes together below these. -/
inductive ComesTogether (label : α → β) : Forest α → Forest α → Prop
  /-- The children of a run. -/
  | children {forest : Forest α} {run : List (α × Forest α)}
      (isRun : run ∈ forest.runs label) : ComesTogether label forest (gather run)
  /-- What is further below. -/
  | deeper {forest siblings : Forest α} {run : List (α × Forest α)}
      (isRun : run ∈ forest.runs label)
      (further : ComesTogether label (gather run) siblings) :
      ComesTogether label forest siblings

/-! ## Merging some of the children before -/

section Before

variable {join : α → α → α}

@[simp] theorem mergeAlike_nil : mergeAlike join label (nil : Forest α) = nil := by
  simp [mergeAlike]

@[simp] theorem mergeAlike_single (root : α) (children : Forest α) :
    mergeAlike join label (cons root children nil) =
      cons root (mergeAlike join label children) nil := by
  rw [mergeAlike]

/-- A tree joins the one before it. -/
theorem mergeAlike_of_eq
    {root next : α}
    (same : label next = label root)
    (children nextChildren siblings : Forest α) :
    mergeAlike join label (cons root children (cons next nextChildren siblings)) =
      mergeAlike join label
        (cons (join root next) (children ++ nextChildren) siblings) := by
  rw [mergeAlike, if_pos same]

/-- A tree does not join the one before it. -/
theorem mergeAlike_of_ne
    {root next : α}
    (different : label next ≠ label root)
    (children nextChildren siblings : Forest α) :
    mergeAlike join label (cons root children (cons next nextChildren siblings)) =
      cons root (mergeAlike join label children)
        (mergeAlike join label (cons next nextChildren siblings)) := by
  rw [mergeAlike, if_neg different]

variable (label join) in
/-- Merging makes a forest no larger. -/
theorem size_mergeAlike_le (forest : Forest α) :
    (mergeAlike join label forest).size ≤ forest.size := by
  fun_induction mergeAlike join label forest with
  | case1 => exact le_rfl
  | case2 root children inductionHypothesis =>
      simp only [size_cons, size_nil]
      omega
  | case3 root children next nextChildren siblings _ inductionHypothesis =>
      simp only [size_cons, size_append] at inductionHypothesis ⊢
      omega
  | case4 root children next nextChildren siblings _ first second =>
      simp only [size_cons] at first second ⊢
      omega

/-- The children of the first tree may be merged before it is, if this is so for what is
smaller. -/
theorem mergeAlike_children
    {bound : Nat}
    (smaller : ∀ first second : Forest α, first.size + second.size < bound →
      mergeAlike join label (mergeAlike join label first ++ second) =
        mergeAlike join label (first ++ second))
    (root : α)
    {children siblings : Forest α}
    (isSmaller : children.size + siblings.size < bound) :
    mergeAlike join label (cons root (mergeAlike join label children) siblings) =
      mergeAlike join label (cons root children siblings) := by
  have twice : ∀ forest : Forest α, forest.size < bound →
      mergeAlike join label (mergeAlike join label forest) =
        mergeAlike join label forest := by
    intro forest isSmaller
    have again := smaller forest nil isSmaller
    rw [append_nil, append_nil] at again
    exact again
  induction siblings generalizing root children with
  | nil => rw [mergeAlike_single, mergeAlike_single, twice children isSmaller]
  | cons next nextChildren siblings _ inductionHypothesis =>
      rw [size_cons] at isSmaller
      by_cases same : label next = label root
      · have shrinks := size_mergeAlike_le label join children
        have appended := smaller children nextChildren (by omega)
        calc mergeAlike join label
              (cons root (mergeAlike join label children) (cons next nextChildren siblings))
            = mergeAlike join label (cons (join root next)
                (mergeAlike join label children ++ nextChildren) siblings) :=
              mergeAlike_of_eq same _ _ _
          _ = mergeAlike join label (cons (join root next) (mergeAlike join label
                (mergeAlike join label children ++ nextChildren)) siblings) := by
              refine (inductionHypothesis (join root next) ?_).symm
              rw [size_append]
              omega
          _ = mergeAlike join label (cons (join root next)
                (mergeAlike join label (children ++ nextChildren)) siblings) := by
              rw [appended]
          _ = mergeAlike join label
                (cons (join root next) (children ++ nextChildren) siblings) := by
              refine inductionHypothesis (join root next) ?_
              rw [size_append]
              omega
          _ = mergeAlike join label
                (cons root children (cons next nextChildren siblings)) :=
              (mergeAlike_of_eq same _ _ _).symm
      · rw [mergeAlike_of_ne same, mergeAlike_of_ne same, twice children (by omega)]

variable (keeps : ∀ root next, label (join root next) = label root)

include keeps

/-- The first tree keeps the label of its root. -/
theorem mergeAlike_cons (root : α) (children siblings : Forest α) :
    ∃ newRoot newChildren rest, label newRoot = label root ∧
      mergeAlike join label (cons root children siblings) =
        cons newRoot newChildren rest := by
  induction siblings generalizing root children with
  | nil => exact ⟨_, _, _, rfl, mergeAlike_single root children⟩
  | cons next nextChildren siblings _ inductionHypothesis =>
      by_cases same : label next = label root
      · obtain ⟨newRoot, newChildren, rest, sameLabel, isCons⟩ :=
          inductionHypothesis (join root next) (children ++ nextChildren)
        rw [mergeAlike_of_eq same, isCons]
        exact ⟨_, _, _, sameLabel.trans (keeps root next), rfl⟩
      · exact ⟨_, _, _, rfl, mergeAlike_of_ne same _ _ _⟩

/-- The trees of a forest may be merged before others are put behind them. -/
theorem mergeAlike_append (first second : Forest α) :
    mergeAlike join label (mergeAlike join label first ++ second) =
      mergeAlike join label (first ++ second) := by
  induction bound : first.size + second.size using Nat.strong_induction_on
    generalizing first second with
  | _ bound smaller =>
  subst bound
  replace smaller (before after : Forest α)
      (isSmaller : before.size + after.size < first.size + second.size) :=
    smaller _ isSmaller before after rfl
  fun_cases mergeAlike join label first with
  | case1 => rfl
  | case2 root children =>
      rw [cons_append, cons_append, nil_append]
      refine mergeAlike_children smaller root ?_
      simp only [size_cons, size_nil]
      omega
  | case3 root children next nextChildren siblings same =>
      rw [cons_append, cons_append, mergeAlike_of_eq same, ← cons_append]
      refine smaller _ _ ?_
      simp only [size_cons, size_append]
      omega
  | case4 root children next nextChildren siblings different =>
      simp only [size_cons] at smaller
      have childrenTwice := smaller children nil (by simp only [size_nil]; omega)
      have siblingsTwice := smaller (cons next nextChildren siblings) second
        (by simp only [size_cons]; omega)
      obtain ⟨newRoot, newChildren, rest, sameLabel, isCons⟩ :=
        mergeAlike_cons keeps next nextChildren siblings
      rw [append_nil, append_nil] at childrenTwice
      rw [← sameLabel] at different
      simp only [isCons, cons_append] at siblingsTwice
      simp only [isCons, cons_append, mergeAlike_of_ne different, childrenTwice,
        siblingsTwice, mergeAlike_of_ne (sameLabel ▸ different)]

/-- The children of a tree may be merged before it is. -/
theorem mergeAlike_cons_mergeAlike (root : α) (children siblings : Forest α) :
    mergeAlike join label (cons root (mergeAlike join label children) siblings) =
      mergeAlike join label (cons root children siblings) :=
  mergeAlike_children (fun first second _ => mergeAlike_append keeps first second) root
    (Nat.lt_succ_self _)

end Before

/-! ## The child lists -/

section Families

/-- The first root of a run stays. -/
theorem roots_mergeAlike (forest : Forest α) :
    (mergeAlike (fun root _ => root) label forest).roots = firsts label forest.roots := by
  unfold firsts
  fun_induction mergeAlike (fun root _ => root) label forest with
  | case1 => rfl
  | case2 root children => rfl
  | case3 root children next nextChildren siblings same inductionHypothesis =>
      rw [inductionHypothesis, roots_cons, roots_cons, roots_cons, List.destutter_cons_cons,
        if_neg (not_not.mpr same), List.destutter_cons']
  | case4 root children next nextChildren siblings different first second =>
      rw [roots_cons, second, roots_cons, roots_cons, roots_cons, List.destutter_cons_cons,
        if_pos different, List.destutter_cons']

/-- What comes together below a forest are the children of its runs, and what comes
together below these. -/
theorem forall_comesTogether {forest : Forest α} {good : Forest α → Prop} :
    (∀ siblings, ComesTogether label forest siblings → good siblings) ↔
      ∀ run ∈ forest.runs label, good (gather run) ∧
        ∀ siblings, ComesTogether label (gather run) siblings → good siblings := by
  constructor
  · intro allGood run isRun
    exact ⟨allGood _ (.children isRun), fun siblings below => allGood _ (.deeper isRun below)⟩
  · intro allGood siblings below
    cases below with
    | children isRun => exact (allGood _ isRun).1
    | deeper isRun further => exact (allGood _ isRun).2 _ further

/-- If the first two trees do not become one, this is what comes together below either. -/
theorem forall_comesTogether_apart
    {root next : α}
    (different : label next ≠ label root)
    {children nextChildren siblings : Forest α}
    {good : Forest α → Prop} :
    (∀ others, ComesTogether label
        (cons root children (cons next nextChildren siblings)) others → good others) ↔
      good children ∧ (∀ others, ComesTogether label children others → good others) ∧
        ∀ others, ComesTogether label (cons next nextChildren siblings) others →
          good others := by
  have rest := @forall_comesTogether _ _ _ label (cons next nextChildren siblings) good
  rw [forall_comesTogether, runs_apart different, List.forall_mem_cons, ← rest, gather_cons,
    gather_nil, append_nil, and_assoc]

/-- A property holds of the child lists that merging leaves if and only if it holds of the
firsts of the runs of all siblings that come together. -/
theorem forall_families_mergeAlike (forest : Forest α) (good : List α → Prop) :
    (∀ family ∈ (mergeAlike (fun root _ => root) label forest).families,
        good family.2) ↔
      ∀ siblings, ComesTogether label forest siblings →
        good (firsts label siblings.roots) := by
  fun_induction mergeAlike (fun root _ => root) label forest with
  | case1 =>
      rw [forall_comesTogether]
      simp [families]
  | case2 root children inductionHypothesis =>
      rw [forall_comesTogether, runs_single, families, List.forall_mem_cons,
        List.forall_mem_append, inductionHypothesis, roots_mergeAlike]
      simp [families]
  | case3 root children next nextChildren siblings same inductionHypothesis =>
      obtain ⟨run, rest, -, isShorter, isRuns⟩ :=
        runs_next same children nextChildren (children ++ nextChildren) siblings
      rw [inductionHypothesis, forall_comesTogether, forall_comesTogether, isShorter, isRuns,
        List.forall_mem_cons, List.forall_mem_cons, gather_cons, gather_cons, gather_cons,
        append_assoc]
  | case4 root children next nextChildren siblings different first second =>
      rw [families, List.forall_mem_cons, List.forall_mem_append, first, second,
        roots_mergeAlike, forall_comesTogether_apart different]

end Families

end Forest
end Library
