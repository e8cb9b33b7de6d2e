import Bootchart.Library.Contraction
import Bootchart.ProcessTree.Totals

/-!
# Merging exploders

`merge_exploders` asks whether the set of commands is one of its own elements instead of
asking for the command of a process, and so it merges nothing.
-/

namespace Bootchart
namespace ProcessTree

open Library (Text Forest)

/-- The exploders of a tree are collapsed: all processes below them are merged into them,
and leave the tree. -/
structure Collapses
    (processes : List Text)
    (before : State)
    (tree : Forest ProcessId)
    (after : State)
    (result : Forest ProcessId)
    (removed : Nat) : Prop where
  /-- No exploder has children. -/
  childless : ∀ family ∈ result.families, before.cmd family.1 ∈ processes → family.2 = []
  /-- Each holds the samples of its former subtree. -/
  holds : ∀ node ∈ tree.nodes false, before.cmd node.2.1 ∈ processes →
    node.2.1 ∈ result.toList → ∀ proc ∈ node.2.1 :: node.2.2.toList,
      (before.objects proc).samples ⊆ (after.objects node.2.1).samples
  /-- Other processes do not change, unless they are below an exploder. -/
  untouched : ∀ proc ∈ tree.toList, (∀ exploder ∈ tree.toList,
    before.cmd exploder ∈ processes → exploder ≠ proc ∧ ¬tree.Above exploder proc) →
      after.objects proc = before.objects proc ∧
        result.childrenOf proc = tree.childrenOf proc
  /-- The processes that leave the tree are counted. -/
  count : numNodes result + removed = numNodes tree

/-- `merge_exploders` collapses the exploders if and only if none of them has children. -/
theorem collapses_mergeExploders_iff
    (processes : List Text)
    (state : State)
    (forest : Forest ProcessId) :
    Collapses processes state forest state (mergeExploders forest).1
        (mergeExploders forest).2 ↔
      ∀ family ∈ forest.families, state.cmd family.1 ∈ processes → family.2 = [] := by
  rw [mergeExploders_eq]
  refine ⟨Collapses.childless, fun childless => ?_⟩
  refine ⟨childless, fun node isNode isExploder _ proc member => ?_,
    fun _ _ _ => ⟨rfl, rfl⟩, rfl⟩
  have isFamily : (node.2.1, node.2.2.roots) ∈ forest.families := by
    rw [Forest.families_eq_map_nodes false]
    exact List.mem_map_of_mem isNode
  have noChildren := childless _ isFamily isExploder
  rw [Forest.roots_eq_nil.mp noChildren, Forest.toList_nil, List.mem_singleton] at member
  rw [member]
  exact List.Subset.refl _

/-- A process `hwup` with a child. -/
def hwupWithChild : State where
  objects
    | .mapped 1000 => Process.new 1000 ['h', 'w', 'u', 'p'] 0 0
    | _ => Process.new 2000 ['s', 'h'] 1000 1
  merges := []

/-- The child stays below it. -/
theorem not_collapses_hwupWithChild :
    ¬Collapses [['h', 'w', 'u', 'p']] hwupWithChild
      (.cons (.mapped 1000) (.cons (.mapped 2000) .nil .nil) .nil) hwupWithChild
      (mergeExploders (.cons (.mapped 1000) (.cons (.mapped 2000) .nil .nil) .nil)).1
      (mergeExploders (.cons (.mapped 1000) (.cons (.mapped 2000) .nil .nil) .nil)).2 := by
  intro collapses
  have childless := collapses.childless (.mapped 1000, [.mapped 2000]) (by decide)
  exact absurd (childless (by decide)) (by decide)

end ProcessTree
end Bootchart
