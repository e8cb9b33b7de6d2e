import Mathlib.Data.List.Chain
import Mathlib.Data.List.Nodup
import Mathlib.Data.List.Sort
import Mathlib.Order.Defs.LinearOrder

/-!
# Neighbours in a sorted list

The neighbours in a sorted list have different labels if and only if, between any two
elements with the same label, there is one with another label. When a list is sorted by
keys, elements with equal keys keep their order.
-/

namespace Library

variable {α β : Type*}

/-! ## Lists in an order -/

section Between

variable {label : α → β} {before : α → α → Prop}

/-- An element with another label between two elements. -/
def Parted (label : α → β) (before : α → α → Prop) (elements : List α) (first second : α) :
    Prop :=
  ∃ other ∈ elements, label other ≠ label first ∧ before first other ∧ before other second

/-- Any two elements with the same label have one with another label between them. -/
def KeptApart (label : α → β) (before : α → α → Prop) (elements : List α) : Prop :=
  ∀ first ∈ elements, ∀ second ∈ elements, label second = label first →
    before first second → Parted label before elements first second

variable {first : α} {rest elements : List α}

/-- The elements behind the first are kept apart by elements behind it. -/
theorem KeptApart.tail
    (asymmetric : ∀ one two, before one two → ¬before two one)
    (sorted : (first :: rest).Pairwise before)
    (apart : KeptApart label before (first :: rest)) : KeptApart label before rest := by
  intro one isOne two isTwo same inOrder
  obtain ⟨other, isOther, differs, parts⟩ := apart one (List.mem_cons_of_mem _ isOne) two
    (List.mem_cons_of_mem _ isTwo) same inOrder
  rcases List.mem_cons.mp isOther with rfl | inRest
  · have isFirst := (List.pairwise_cons.mp sorted).1 one isOne
    exact absurd isFirst (asymmetric _ _ parts.1)
  · exact ⟨other, inRest, differs, parts⟩

/-- Nothing is between two neighbours. -/
theorem not_parted
    {next : α}
    (asymmetric : ∀ one two, before one two → ¬before two one)
    (sorted : (first :: next :: rest).Pairwise before) :
    ¬Parted label before (first :: next :: rest) first next := by
  obtain ⟨-, restSorted⟩ := List.pairwise_cons.mp sorted
  rintro ⟨other, isOther, -, behindFirst, beforeNext⟩
  rcases List.mem_cons.mp isOther with rfl | behind
  · exact asymmetric _ _ behindFirst behindFirst
  · rcases List.mem_cons.mp behind with rfl | further
    · exact asymmetric _ _ beforeNext beforeNext
    · have behindNext := (List.pairwise_cons.mp restSorted).1 other further
      exact asymmetric _ _ beforeNext behindNext

/-- An element that is unlike the next one is parted from those behind with its label. -/
theorem parted_of_ne
    {next second : α}
    (sorted : (first :: next :: rest).Pairwise before)
    (differs : label next ≠ label first)
    (member : second ∈ next :: rest)
    (same : label second = label first) :
    Parted label before (first :: next :: rest) first second := by
  obtain ⟨isFirst, restSorted⟩ := List.pairwise_cons.mp sorted
  refine ⟨next, by simp, differs, isFirst next List.mem_cons_self, ?_⟩
  rcases List.mem_cons.mp member with rfl | further
  · exact absurd same differs
  · exact (List.pairwise_cons.mp restSorted).1 second further

/-- The neighbours of a list in order are different if and only if elements with the same
label are kept apart. -/
theorem isChain_iff_keptApart
    (asymmetric : ∀ one two, before one two → ¬before two one)
    (sorted : elements.Pairwise before) :
    (elements.IsChain fun first next => label next ≠ label first) ↔
      KeptApart label before elements := by
  induction elements with
  | nil => simp [KeptApart]
  | cons first rest inductionHypothesis =>
      obtain ⟨isFirst, restSorted⟩ := List.pairwise_cons.mp sorted
      rw [List.isChain_cons, inductionHypothesis restSorted]
      constructor
      · rintro ⟨differs, apart⟩ one isOne two isTwo same inOrder
        rcases List.mem_cons.mp isTwo with rfl | twoInRest
        · rcases List.mem_cons.mp isOne with rfl | oneInRest
          · exact absurd inOrder (asymmetric _ _ inOrder)
          · exact absurd (isFirst one oneInRest) (asymmetric _ _ inOrder)
        · rcases List.mem_cons.mp isOne with rfl | oneInRest
          · cases rest with
            | nil => contradiction
            | cons next rest => exact parted_of_ne sorted (differs next rfl) twoInRest same
          · obtain ⟨other, isOther, parts⟩ := apart one oneInRest two twoInRest same inOrder
            exact ⟨other, List.mem_cons_of_mem _ isOther, parts⟩
      · intro apart
        refine ⟨fun next isNext same => ?_, apart.tail asymmetric sorted⟩
        cases rest with
        | nil => contradiction
        | cons second rest =>
            obtain rfl : second = next := Option.some.inj isNext
            exact not_parted asymmetric sorted (apart first List.mem_cons_self second
              (by simp) same (isFirst second List.mem_cons_self))

end Between

/-! ## Sorting by keys -/

section Keys

variable {γ : Type*} [LinearOrder γ] {label : α → β} {key : α → γ} {elements : List α}

/-- One element comes before another when the elements are sorted by their keys. -/
def SortsBefore (key : α → γ) (elements : List α) (first second : α) : Prop :=
  key first < key second ∨ key first = key second ∧ [first, second].Sublist elements

/-- Of two elements of a list one stands in front of the other. -/
theorem pair_sublist_or
    {first second : α}
    (isFirst : first ∈ elements)
    (isSecond : second ∈ elements)
    (different : first ≠ second) :
    [first, second].Sublist elements ∨ [second, first].Sublist elements := by
  induction elements with
  | nil => contradiction
  | cons head rest inductionHypothesis =>
      rcases List.mem_cons.mp isFirst with rfl | firstInRest
      · left
        have inRest := List.mem_of_ne_of_mem different.symm isSecond
        exact (List.singleton_sublist.mpr inRest).cons_cons first
      · rcases List.mem_cons.mp isSecond with rfl | secondInRest
        · right
          exact (List.singleton_sublist.mpr firstInRest).cons_cons second
        · exact (inductionHypothesis firstInRest secondInRest).imp (·.cons head)
            (·.cons head)

/-- In a list without duplicates two elements stand in one order only. -/
theorem not_pair_sublist_swap
    {first second : α}
    (distinct : elements.Nodup)
    (inOrder : [first, second].Sublist elements) : ¬[second, first].Sublist elements := by
  induction elements with
  | nil => simp at inOrder
  | cons head rest inductionHypothesis =>
      obtain ⟨notInRest, restDistinct⟩ := List.nodup_cons.mp distinct
      intro swapped
      rcases List.cons_sublist_cons'.mp inOrder with inRest | ⟨rfl, isSecond⟩
      · rcases List.cons_sublist_cons'.mp swapped with otherInRest | ⟨rfl, -⟩
        · exact inductionHypothesis restDistinct inRest otherInRest
        · exact notInRest (inRest.subset (by simp))
      · rcases List.cons_sublist_cons'.mp swapped with otherInRest | ⟨rfl, isFirst⟩
        · exact notInRest (otherInRest.subset (by simp))
        · exact notInRest (isFirst.subset (by simp))

/-- Two elements do not come before each other. -/
theorem SortsBefore.asymm
    (distinct : elements.Nodup)
    (first second : α)
    (inOrder : SortsBefore key elements first second) :
    ¬SortsBefore key elements second first := by
  rintro (less | ⟨same, swapped⟩)
  · rcases inOrder with lessToo | ⟨same, -⟩
    · exact lt_asymm less lessToo
    · exact absurd same less.ne'
  · rcases inOrder with less | ⟨-, notSwapped⟩
    · exact absurd same less.ne'
    · exact not_pair_sublist_swap distinct notSwapped swapped

/-- A list that is sorted by its keys is in this order. -/
theorem pairwise_mergeSort_sortsBefore (distinct : elements.Nodup) :
    (elements.mergeSort fun first second => key first ≤ key second).Pairwise
      (SortsBefore key elements) := by
  have transitive : ∀ first second third : α, decide (key first ≤ key second) = true →
      decide (key second ≤ key third) = true → decide (key first ≤ key third) = true := by
    simpa using fun _ _ _ => le_trans
  have total : ∀ first second : α,
      (decide (key first ≤ key second) || decide (key second ≤ key first)) = true := by
    simpa using fun first second => le_total (key first) (key second)
  have perm := List.mergeSort_perm elements fun first second => decide (key first ≤ key second)
  have sortedDistinct := perm.nodup_iff.mpr distinct
  rw [List.pairwise_iff_forall_sublist]
  intro first second inOrder
  have atMost : key first ≤ key second := of_decide_eq_true
    (List.pairwise_iff_forall_sublist.mp (List.pairwise_mergeSort transitive total _) inOrder)
  rcases atMost.lt_or_eq with less | same
  · exact .inl less
  · refine .inr ⟨same, ?_⟩
    have different : first ≠ second := by
      rintro rfl
      simpa using sortedDistinct.sublist inOrder
    refine (pair_sublist_or (perm.subset (inOrder.subset (by simp)))
      (perm.subset (inOrder.subset (by simp))) different).resolve_right fun swapped => ?_
    -- elements with equal keys keep their order
    have stable := List.pair_sublist_mergeSort transitive total
      (decide_eq_true same.symm.le) swapped
    exact not_pair_sublist_swap sortedDistinct inOrder stable

/-- After sorting by keys the neighbours are different if and only if elements with the same
label are kept apart. -/
theorem isChain_mergeSort_iff (distinct : elements.Nodup) :
    ((elements.mergeSort fun first second => key first ≤ key second).IsChain
        fun first next => label next ≠ label first) ↔
      KeptApart label (SortsBefore key elements) elements := by
  rw [isChain_iff_keptApart (SortsBefore.asymm distinct)
    (pairwise_mergeSort_sortsBefore distinct)]
  simp only [KeptApart, Parted, List.mem_mergeSort]

/-- One element alone is kept apart from nothing. -/
theorem keptApart_singleton (a : α) : KeptApart label (SortsBefore key [a]) [a] := by
  intro first isFirst second isSecond _ inOrder
  obtain rfl := List.mem_singleton.mp isFirst
  obtain rfl := List.mem_singleton.mp isSecond
  exact absurd inOrder (SortsBefore.asymm (List.nodup_singleton _) _ _ inOrder)

end Keys

end Library
