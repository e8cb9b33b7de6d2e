import Bootchart.Library.Contraction
import Bootchart.ProcessTree.Passes

/-!
# Pruning

`prune` contracts the tree: whether a process is removed depends on the child list it has
at first, as its descendants are looked at later. A process that loses all its descendants
is not looked at again.
-/

namespace Bootchart
namespace ProcessTree

open Library (Forest)
open Library.Forest (contract removesNode)

section Prune

variable (period : Period) (objects : Objects)

/-- Roots are removed only if they have no children. -/
theorem pruned_root
    (proc : ProcessId)
    (childList : Forest ProcessId)
    (isPruned : pruned period objects false proc childList) : childList = .nil := by
  simp only [pruned, Bool.false_eq_true, false_or, decide_eq_true_eq] at isPruned
  exact isPruned.1

/-- `prune` contracts the tree and counts the processes that it removes. -/
theorem prune_eq (hasParent : Bool) (forest : Forest ProcessId) :
    prune period objects hasParent forest =
      (contract (pruned period objects) hasParent forest,
        (forest.nodes hasParent).countP (removesNode (pruned period objects))) := by
  fun_induction prune period objects hasParent forest with
  | case1 => simp
  | case2 hasParent proc childList siblings isPruned forest removed isRest
      inductionHypothesis =>
      rw [isRest] at inductionHypothesis
      obtain ⟨rfl, rfl⟩ := Prod.mk.inj inductionHypothesis
      have here : removesNode (pruned period objects) (hasParent, proc, childList) := isPruned
      rw [Forest.contract_removed isPruned, Forest.nodes_cons, List.countP_cons_of_pos here]
      have perm := Forest.nodes_removed_perm (pruned_root period objects) isPruned siblings
      rw [perm.countP_eq]
  | case3 hasParent proc childList siblings isKept children removed areChildren rest more
      areRest first second =>
      rw [areChildren] at first
      rw [areRest] at second
      obtain ⟨rfl, rfl⟩ := Prod.mk.inj first
      obtain ⟨rfl, rfl⟩ := Prod.mk.inj second
      have here : ¬removesNode (pruned period objects) (hasParent, proc, childList) := isKept
      rw [Forest.contract_kept isKept, Forest.nodes_cons, List.countP_cons_of_neg here,
        List.countP_append]

/-! ## What it removes -/

/-- A process that is removed was short-lived, or an idle background process without
children. -/
def Removable (proc : ProcessId) (childList : Forest ProcessId) : Prop :=
  (objects proc).duration ≤ 2 * period.samplePeriod ∨
    isIdleBackgroundProcessWithoutChildren period (objects proc) childList

/-- A tree is contracted, and no process changes but for its child list. -/
structure Contracts
    (hasParent : Bool)
    (before after : Forest ProcessId)
    (removed : Nat) : Prop where
  /-- The processes that stay are in the tree once. -/
  distinct : after.toList.Nodup
  /-- They were in the tree before. -/
  subset : after.toList ⊆ before.toList
  /-- They are above each other as before. -/
  above : ∀ first ∈ after.toList, ∀ second ∈ after.toList,
    (after.Above first second ↔ before.Above first second)
  /-- The others were removable, with the child lists they had. -/
  removable : ∀ proc ∈ before.toList, proc ∉ after.toList →
    ∃ node ∈ before.nodes hasParent, node.2.1 = proc ∧
      Removable period objects proc node.2.2
  /-- They are counted. -/
  count : numNodes after + removed = numNodes before

variable {period objects}

/-- A process that is removed is removable. -/
theorem removable_of_pruned
    {hasParent : Bool}
    {proc : ProcessId}
    {childList : Forest ProcessId}
    (isPruned : pruned period objects hasParent proc childList) :
    Removable period objects proc childList := by
  simp only [pruned, decide_eq_true_eq] at isPruned
  exact isPruned.2.symm

/-- `prune` only contracts the tree: the processes that stay are there once and above each
other as before, each one that is removed was removable, and they are counted. -/
theorem contracts_prune
    (period : Period)
    (objects : Objects)
    (hasParent : Bool)
    {forest : Forest ProcessId}
    (distinct : forest.toList.Nodup) :
    Contracts period objects hasParent forest (prune period objects hasParent forest).1
      (prune period objects hasParent forest).2 := by
  have sparing := pruned_root period objects
  rw [prune_eq]
  refine ⟨Forest.nodup_contract distinct _, (Forest.toList_contract_subperm _ _ _).subset,
    fun first isFirst second isSecond => Forest.above_contract distinct _ isFirst isSecond,
    fun proc member goes => ?_, Forest.size_contract_add sparing _ _⟩
  obtain ⟨node, isNode, rfl, isRemoved⟩ := Forest.exists_removed sparing member goes
  exact ⟨node, isNode, rfl, removable_of_pruned isRemoved⟩

/-- An idle process with a short-lived child, below the first process of all. -/
def idleWithChild : Objects
  | .mapped 2000 => { Process.new 2000 ['b'] 1000 1 with duration := 99 }
  | .mapped 3000 => { Process.new 3000 ['c'] 2000 5 with duration := 1 }
  | _ => { Process.new 1000 ['a'] 0 0 with duration := 100 }

/-- Their tree. -/
def idleWithChildTree : Forest ProcessId :=
  .cons (.mapped 1000) (.cons (.mapped 2000) (.cons (.mapped 3000) .nil .nil) .nil) .nil

/-- The duration of this tree, sampled every time unit. -/
def hundred : Period where
  startTime := 0
  duration := 100
  samplePeriod := 1

/-- The child is removed. -/
theorem contracts_prune_idleWithChild :
    Contracts hundred idleWithChild false idleWithChildTree
      (prune hundred idleWithChild false idleWithChildTree).1
      (prune hundred idleWithChild false idleWithChildTree).2 :=
  contracts_prune hundred idleWithChild false (by decide)

/-! ## What it leaves -/

/-- Whether a process is removed depends on whether it has children, but not on which. -/
theorem pruned_congr
    {hasParent : Bool}
    {proc : ProcessId}
    {childList other : Forest ProcessId}
    (someChild : childList ≠ .nil)
    (someOther : other ≠ .nil) :
    pruned period objects hasParent proc childList =
      pruned period objects hasParent proc other := by
  have notEmpty {forest : Forest ProcessId} (someTree : forest ≠ .nil) :
      numNodes forest ≠ 0 := by
    cases forest with
    | nil => contradiction
    | cons root children siblings => simp [numNodes]
  simp only [pruned, isIdleBackgroundProcessWithoutChildren, someChild, someOther,
    notEmpty someChild, notEmpty someOther]

/-- A second call removes nothing if and only if every process that stays although all its
descendants are removed would stay without children too. -/
theorem prune_prune_iff
    (period : Period)
    (objects : Objects)
    (hasParent : Bool)
    (forest : Forest ProcessId) :
    (prune period objects hasParent (prune period objects hasParent forest).1).2 = 0 ↔
      ∀ node ∈ forest.nodes hasParent, ¬pruned period objects node.1 node.2.1 node.2.2 →
        (∀ below ∈ node.2.2.nodes true, pruned period objects below.1 below.2.1 below.2.2) →
          ¬pruned period objects node.1 node.2.1 .nil := by
  have sparing := pruned_root period objects
  rw [prune_eq, prune_eq, List.countP_eq_zero, Forest.contracted_iff sparing]
  refine forall₂_congr fun node _ => imp_congr_right fun isKept => ?_
  by_cases nothing : contract (pruned period objects) true node.2.2 = .nil
  · rw [nothing]
    rw [Forest.contract_eq_nil_iff sparing] at nothing
    exact ⟨fun stays _ => stays, fun stays => stays nothing⟩
  · have someChild : node.2.2 ≠ .nil := by
      intro noChild
      rw [noChild, Forest.contract_nil] at nothing
      exact nothing rfl
    rw [pruned_congr nothing someChild]
    rw [Forest.contract_eq_nil_iff sparing] at nothing
    exact ⟨fun _ all => absurd all nothing, fun _ => isKept⟩

/-- Without its child the idle process is removed by a second call. -/
theorem prune_prune_idleWithChild :
    (prune hundred idleWithChild false
      (prune hundred idleWithChild false idleWithChildTree).1).2 ≠ 0 := by
  decide +kernel

end Prune

end ProcessTree
end Bootchart
