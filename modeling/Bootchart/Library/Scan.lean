import Mathlib.Data.List.Basic
import Mathlib.Tactic.Common

/-!
# Scanning by index

An index that goes forward until it comes to an element to stop at, or to the end. What is
behind an index is a list of its own.
-/

namespace Library

variable {α : Type*}

/-- The index of the next element to stop at, or of the end. -/
def scan (stop : α → Bool) (elements : List α) (i : Nat) : Nat :=
  if here : i < elements.length then
    if stop elements[i] then i else scan stop elements (i + 1)
  else i
termination_by elements.length - i

variable {stop : α → Bool} {elements : List α} {i : Nat}

/-- Scanning does not go back. -/
theorem le_scan (stop : α → Bool) (elements : List α) (i : Nat) :
    i ≤ scan stop elements i := by
  fun_induction scan with
  | case1 i here isStop => exact Nat.le_refl i
  | case2 i here noStop inductionHypothesis => omega
  | case3 i behind => exact Nat.le_refl i

/-- The element at an index, from what is behind it. -/
theorem getElem?_of_drop {a : α} {rest : List α} (isBehind : elements.drop i = a :: rest) :
    elements[i]? = some a := by
  rw [← List.head?_drop, isBehind, List.head?_cons]

/-- What is behind the next index. -/
theorem drop_succ_of_drop {a : α} {rest : List α} (isBehind : elements.drop i = a :: rest) :
    elements.drop (i + 1) = rest := by
  rw [← List.tail_drop, isBehind, List.tail_cons]

/-- What is behind some elements. -/
theorem drop_add_of_drop {before rest : List α} (isBehind : elements.drop i = before ++ rest) :
    elements.drop (i + before.length) = rest := by
  rw [← List.drop_drop, isBehind, List.drop_left]

/-- Scanning stops at once at an element to stop at. -/
theorem scan_of_stop
    {a : α}
    {rest : List α}
    (isBehind : elements.drop i = a :: rest)
    (isStop : stop a = true) : scan stop elements i = i := by
  obtain ⟨here, isElement⟩ := List.getElem?_eq_some_iff.mp (getElem?_of_drop isBehind)
  rw [scan, dif_pos here, isElement, if_pos isStop]

/-- Scanning passes over the elements in front. -/
theorem scan_eq
    {before rest : List α}
    {a : α}
    (isBehind : elements.drop i = before ++ a :: rest)
    (passes : ∀ b ∈ before, stop b = false)
    (isStop : stop a = true) : scan stop elements i = i + before.length := by
  induction before generalizing i with
  | nil => exact scan_of_stop isBehind isStop
  | cons b before inductionHypothesis =>
      obtain ⟨here, isElement⟩ := List.getElem?_eq_some_iff.mp (getElem?_of_drop isBehind)
      have noStop : ¬stop elements[i] = true := by
        rw [isElement, passes b (.head before)]
        exact Bool.false_ne_true
      rw [scan, dif_pos here, if_neg noStop, inductionHypothesis (drop_succ_of_drop isBehind)
        fun other member => passes other (.tail b member), List.length_cons]
      omega

end Library
