import Mathlib.Logic.Relation
import Mathlib.Tactic.Common

/-!
# Newcomers

Pairs of children and parents are listed one after the other. If each child is new when it is
listed, it has one parent, and nobody is an ancestor of its own.
-/

namespace Library

variable {α : Type*}

/-- Each child is new: neither its parent nor in any pair before. -/
structure Newcomers (pairs : List (α × α)) : Prop where
  /-- Nobody is its own parent. -/
  apart : ∀ pair ∈ pairs, pair.1 ≠ pair.2
  /-- A later child is not in an earlier pair. -/
  unseen : pairs.Pairwise fun earlier later => later.1 ≠ earlier.1 ∧ later.1 ≠ earlier.2

namespace Newcomers

variable {pairs : List (α × α)}

/-- A child has one place in the list. -/
theorem place_unique
    (newcomers : Newcomers pairs)
    {first second : Nat}
    {pair other : α × α}
    (isFirst : pairs[first]? = some pair)
    (isSecond : pairs[second]? = some other)
    (same : pair.1 = other.1) : first = second := by
  obtain ⟨inFirst, rfl⟩ := List.getElem?_eq_some_iff.mp isFirst
  obtain ⟨inSecond, rfl⟩ := List.getElem?_eq_some_iff.mp isSecond
  have unseen := List.pairwise_iff_getElem.mp newcomers.unseen
  rcases Nat.lt_trichotomy first second with less | equal | greater
  · exact absurd same.symm (unseen first second inFirst inSecond less).1
  · exact equal
  · exact absurd same (unseen second first inSecond inFirst greater).1

/-- A child has one parent. -/
theorem parent_unique
    (newcomers : Newcomers pairs)
    {child parent other : α}
    (isParent : (child, parent) ∈ pairs)
    (isOther : (child, other) ∈ pairs) : parent = other := by
  obtain ⟨first, isFirst⟩ := List.mem_iff_getElem?.mp isParent
  obtain ⟨second, isSecond⟩ := List.mem_iff_getElem?.mp isOther
  obtain rfl := newcomers.place_unique isFirst isSecond rfl
  exact (Prod.mk.inj (Option.some.inj (isFirst.symm.trans isSecond))).2

/-- A parent is listed before its child, if it is listed as a child at all. -/
theorem parent_before
    (newcomers : Newcomers pairs)
    {first second : Nat}
    {pair above : α × α}
    (isPair : pairs[first]? = some pair)
    (isAbove : pairs[second]? = some above)
    (isParent : pair.2 = above.1) : second < first := by
  obtain ⟨inFirst, rfl⟩ := List.getElem?_eq_some_iff.mp isPair
  obtain ⟨inSecond, rfl⟩ := List.getElem?_eq_some_iff.mp isAbove
  have unseen := List.pairwise_iff_getElem.mp newcomers.unseen
  rcases Nat.lt_trichotomy first second with less | equal | greater
  · exact absurd isParent.symm (unseen first second inFirst inSecond less).2
  · subst equal
    exact absurd isParent.symm (newcomers.apart _ (List.getElem_mem inFirst))
  · exact greater

/-- So is every ancestor. -/
theorem ancestor_before
    (newcomers : Newcomers pairs)
    {child ancestor : α}
    (isAncestor : Relation.TransGen (fun child parent => (child, parent) ∈ pairs) child ancestor)
    {first second : Nat}
    {pair above : α × α}
    (isPair : pairs[first]? = some pair)
    (isChild : pair.1 = child)
    (isAbove : pairs[second]? = some above)
    (isTop : above.1 = ancestor) : second < first := by
  induction isAncestor generalizing second above with
  | single isParent =>
      obtain ⟨place, isListed⟩ := List.mem_iff_getElem?.mp isParent
      obtain rfl := newcomers.place_unique isPair isListed isChild
      exact newcomers.parent_before isListed isAbove isTop.symm
  | tail _ isParent inductionHypothesis =>
      obtain ⟨place, isListed⟩ := List.mem_iff_getElem?.mp isParent
      exact Nat.lt_trans (newcomers.parent_before isListed isAbove isTop.symm)
        (inductionHypothesis isListed rfl)

/-- Nobody is an ancestor of its own. -/
theorem not_ancestor_self (newcomers : Newcomers pairs) (child : α) :
    ¬Relation.TransGen (fun child parent => (child, parent) ∈ pairs) child child := by
  intro isAncestor
  obtain ⟨parent, isParent, -⟩ := Relation.TransGen.head'_iff.mp isAncestor
  obtain ⟨place, isListed⟩ := List.mem_iff_getElem?.mp isParent
  exact Nat.lt_irrefl _ (newcomers.ancestor_before isAncestor isListed rfl isListed rfl)

end Newcomers
end Library
