import Mathlib.Algebra.BigOperators.Group.List.Basic
import Mathlib.Tactic.Abel

/-!
# Neighbouring elements

Each element of a list but the last makes a pair with the next one. What changes from one to the
next adds up to what changes from the first to the last.
-/

namespace Library

variable {α β : Type*}

/-- Each element and the next one. -/
def pairs (list : List α) : List (α × α) :=
  list.zip list.tail

@[simp] theorem pairs_nil : pairs ([] : List α) = [] := rfl

@[simp] theorem pairs_singleton (element : α) : pairs [element] = [] := rfl

@[simp] theorem pairs_cons_cons (first second : α) (rest : List α) :
    pairs (first :: second :: rest) = (first, second) :: pairs (second :: rest) := rfl

/-- A function of neighbours is one of pairs. -/
theorem zipWith_tail (f : α → α → β) (list : List α) :
    List.zipWith f list list.tail = (pairs list).map fun pair => f pair.1 pair.2 := by
  rw [pairs, List.zip, List.map_zipWith]

/-- Every element but the first is the second one of a pair. -/
theorem map_snd_pairs (list : List α) : (pairs list).map Prod.snd = list.tail := by
  apply List.map_snd_zip
  rw [List.length_tail]
  omega

/-- The pairs of mapped elements. -/
theorem pairs_map (f : α → β) (list : List α) :
    pairs (list.map f) = (pairs list).map (Prod.map f f) := by
  rw [pairs, pairs, ← List.map_tail, List.zip_map]

/-- Neighbours are related if and only if all pairs are. -/
theorem isChain_iff_pairs (relation : α → α → Prop) (list : List α) :
    list.IsChain relation ↔ ∀ pair ∈ pairs list, relation pair.1 pair.2 := by
  induction list with
  | nil => simp
  | cons first rest inductionHypothesis =>
      cases rest with
      | nil => simp
      | cons second rest =>
          rw [List.isChain_cons_cons, inductionHypothesis, pairs_cons_cons,
            List.forall_mem_cons]

/-- The changes add up. -/
theorem sum_pairs [AddCommGroup β] (value : α → β) (first : α) (rest : List α) :
    ((pairs (first :: rest)).map fun pair => value pair.2 - value pair.1).sum =
      value ((first :: rest).getLast (List.cons_ne_nil _ _)) - value first := by
  induction rest generalizing first with
  | nil => simp
  | cons second rest inductionHypothesis =>
      rw [pairs_cons_cons, List.map_cons, List.sum_cons, inductionHypothesis,
        List.getLast_cons_cons]
      abel

end Library
