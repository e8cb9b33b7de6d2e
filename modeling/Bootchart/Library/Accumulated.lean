import Bootchart.Library.Dict
import Mathlib.Algebra.Order.BigOperators.Group.List
import Mathlib.Data.List.Induction
import Mathlib.Data.List.Infix

/-!
# Values accumulated up to a key

Elements have keys in a linear order and values that can be added. The sum of the values
up to a key is a step function of the key; a dictionary of running sums, filled in the
order of the keys, holds it at the keys of the elements.
-/

namespace Library

variable {α κ M : Type*} [LinearOrder κ] [AddCommMonoid M]

/-- The sum of the values of the elements whose keys are at most a bound. -/
def accumulated (key : α → κ) (value : α → M) (elements : List α) (bound : κ) : M :=
  ((elements.filter fun element => key element ≤ bound).map value).sum

section Accumulated

variable {key : α → κ} {value : α → M} {elements : List α}

/-- If no key is greater than the bound, all values are added. -/
theorem accumulated_eq_sum
    {bound : κ}
    (atMost : ∀ element ∈ elements, key element ≤ bound) :
    accumulated key value elements bound = (elements.map value).sum := by
  rw [accumulated, List.filter_eq_self.mpr (by simpa using atMost)]

/-- More elements. -/
theorem accumulated_append (more : List α) (bound : κ) :
    accumulated key value (elements ++ more) bound =
      accumulated key value elements bound + accumulated key value more bound := by
  rw [accumulated, List.filter_append, List.map_append, List.sum_append]
  rfl

/-- An element whose key is greater than the bound is not added. -/
theorem accumulated_snoc_of_lt
    {element : α}
    {bound : κ}
    (greater : bound < key element) :
    accumulated key value (elements ++ [element]) bound =
      accumulated key value elements bound := by
  have left : decide (key element ≤ bound) = false := by simpa using greater
  simp [accumulated, left]

/-- Values that are not negative add up to more and more. -/
theorem accumulated_mono
    [PartialOrder M]
    [IsOrderedAddMonoid M]
    (nonneg : ∀ element ∈ elements, 0 ≤ value element)
    {first second : κ}
    (atMost : first ≤ second) :
    accumulated key value elements first ≤ accumulated key value elements second := by
  unfold accumulated
  have sub : (elements.filter fun element => key element ≤ first).Sublist
      (elements.filter fun element => key element ≤ second) := by
    refine List.monotone_filter_right elements fun element isAtMost => ?_
    rw [decide_eq_true_eq] at isAtMost ⊢
    exact isAtMost.trans atMost
  refine (sub.map value).sum_le_sum fun other isValue => ?_
  obtain ⟨element, member, rfl⟩ := List.mem_map.mp isValue
  exact nonneg element (List.mem_of_mem_filter member)

end Accumulated

/-! ## Running sums -/

/-- A dictionary of the sums so far, and the sum of all values. -/
def runningSums (key : α → κ) (value : α → M) (elements : List α) : Dict κ M × M :=
  elements.foldl (fun (sums, sum) element =>
    (sums.set (key element) (sum + value element), sum + value element)) (Dict.empty, 0)

section RunningSums

variable {key : α → κ} {value : α → M}

/-- One more element. -/
theorem runningSums_snoc (elements : List α) (element : α) :
    runningSums key value (elements ++ [element]) =
      ((runningSums key value elements).1.set (key element)
        ((runningSums key value elements).2 + value element),
        (runningSums key value elements).2 + value element) := by
  simp [runningSums]

/-- The sum of all values. -/
theorem snd_runningSums (elements : List α) :
    (runningSums key value elements).2 = (elements.map value).sum := by
  induction elements using List.reverseRecOn with
  | nil => rfl
  | append_singleton elements element inductionHypothesis =>
      rw [runningSums_snoc]
      simp [inductionHypothesis]

/-- At the keys of sorted elements the running sums are what was accumulated. -/
theorem get?_runningSums
    {elements : List α}
    (sorted : elements.Pairwise fun first second => key first ≤ key second)
    (bound : κ) :
    (runningSums key value elements).1.get? bound =
      if bound ∈ elements.map key then some (accumulated key value elements bound)
      else none := by
  induction elements using List.reverseRecOn with
  | nil => rfl
  | append_singleton elements element inductionHypothesis =>
      obtain ⟨sortedBefore, -, before⟩ := List.pairwise_append.mp sorted
      have greatest : ∀ other ∈ elements ++ [element], key other ≤ key element := by
        intro other member
        rcases List.mem_append.mp member with isBefore | isLast
        · exact before other isBefore element (by simp)
        · rw [List.mem_singleton.mp isLast]
      rw [runningSums_snoc, Dict.get?_set]
      by_cases here : bound = key element
      · subst here
        rw [if_pos rfl, if_pos (by simp), accumulated_eq_sum greatest, snd_runningSums]
        simp
      · rw [if_neg here, inductionHypothesis sortedBefore]
        have sameKeys : bound ∈ (elements ++ [element]).map key ↔
            bound ∈ elements.map key := by
          simp [here]
        rw [if_congr sameKeys rfl rfl]
        split
        next isKey =>
          obtain ⟨other, member, rfl⟩ := List.mem_map.mp isKey
          have less := lt_of_le_of_ne (greatest other (by simp [member])) here
          rw [accumulated_snoc_of_lt less]
        next => rfl

end RunningSums

/-! ## Sorted lists of keys -/

section Prefix

variable {keys before : List κ} {last : κ}

/-- The beginning of a sorted list comes before the next element. -/
theorem lt_of_mem_before
    (sorted : keys.Pairwise (· < ·))
    (isPrefix : before ++ [last] <+: keys) :
    ∀ key ∈ before, key < last := by
  intro key member
  have sortedBefore := sorted.sublist isPrefix.sublist
  exact (List.pairwise_append.mp sortedBefore).2.2 key member last (by simp)

/-- The beginning of a sorted list holds what is at most its last element. -/
theorem mem_before_iff_le
    (sorted : keys.Pairwise (· < ·))
    (isPrefix : before ++ [last] <+: keys)
    {key : κ}
    (member : key ∈ keys) :
    key ∈ before ++ [last] ↔ key ≤ last := by
  constructor
  · intro isBefore
    rcases List.mem_append.mp isBefore with inBefore | isLast
    · exact (lt_of_mem_before sorted isPrefix key inBefore).le
    · exact (List.mem_singleton.mp isLast).le
  · intro atMost
    obtain ⟨behind, rfl⟩ := isPrefix
    refine (List.mem_append.mp member).resolve_right fun inBehind => ?_
    have greater := (List.pairwise_append.mp sorted).2.2 last (by simp) key inBehind
    exact absurd greater atMost.not_gt

end Prefix

/-- Sorted elements split at a bound. -/
theorem exists_append_of_sorted
    {elements : List α}
    {key : α → κ}
    (sorted : elements.Pairwise fun first second => key first ≤ key second)
    (bound : κ) :
    ∃ front back, elements = front ++ back ∧ (∀ element ∈ front, key element ≤ bound) ∧
      ∀ element ∈ back, bound < key element := by
  induction elements with
  | nil => exact ⟨[], [], rfl, by simp, by simp⟩
  | cons element elements inductionHypothesis =>
      rw [List.pairwise_cons] at sorted
      rcases le_or_gt (key element) bound with atMost | greater
      · obtain ⟨front, back, rfl, inFront, inBack⟩ := inductionHypothesis sorted.2
        exact ⟨element :: front, back, rfl, List.forall_mem_cons.mpr ⟨atMost, inFront⟩, inBack⟩
      · refine ⟨[], element :: elements, rfl, by simp, List.forall_mem_cons.mpr ⟨greater, ?_⟩⟩
        exact fun other member => greater.trans_le (sorted.1 other member)

end Library
