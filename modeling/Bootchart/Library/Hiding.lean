import Mathlib.Data.List.Perm.Basic

/-!
# Hiding elements of a list

Some elements of a list are kept and others hidden, and of all of them only some show. If
what is kept shows in the list too, apart from what is hidden, then it shows the same as the
list if and only if nothing that is hidden shows.
-/

namespace Library

/-- Of all elements some are kept and some are hidden, as far as they show. -/
structure Hides {α : Type*} (shows : α → Bool) (all kept hidden : List α) : Prop where
  /-- What is kept shows in order. -/
  sublist : (kept.filter shows).Sublist (all.filter shows)
  /-- Nothing that shows is lost or made up. -/
  perm : (all.filter shows).Perm (kept.filter shows ++ hidden.filter shows)

namespace Hides

variable {α : Type*} {shows : α → Bool} {all kept hidden others keptOthers hiddenOthers : List α}

/-- Everything is kept. -/
theorem refl (shows : α → Bool) (all : List α) : Hides shows all all [] where
  sublist := List.Sublist.refl _
  perm := by simp

/-- Everything is hidden. -/
theorem allHidden (shows : α → Bool) (all : List α) : Hides shows all [] all where
  sublist := by simp
  perm := by simp

/-- What does not show can be replaced. -/
theorem of_not_shows
    (notAll : ∀ a ∈ all, shows a = false)
    (notKept : ∀ a ∈ kept, shows a = false) : Hides shows all kept [] := by
  have none : all.filter shows = [] := by simpa using notAll
  have noneKept : kept.filter shows = [] := by simpa using notKept
  constructor
  · rw [none, noneKept]
  · rw [none, noneKept]
    rfl

/-- One list behind another. -/
theorem append
    (first : Hides shows all kept hidden)
    (second : Hides shows others keptOthers hiddenOthers) :
    Hides shows (all ++ others) (kept ++ keptOthers) (hidden ++ hiddenOthers) := by
  constructor
  · rw [List.filter_append, List.filter_append]
    exact first.sublist.append second.sublist
  · simp only [List.filter_append]
    refine (first.perm.append second.perm).trans ?_
    simp only [List.append_assoc]
    refine List.Perm.append_left _ ?_
    simp only [← List.append_assoc]
    exact List.Perm.append_right _ List.perm_append_comm

/-- The same is shown if and only if nothing is hidden that shows. -/
theorem filter_eq_iff (hides : Hides shows all kept hidden) :
    kept.filter shows = all.filter shows ↔ ∀ a ∈ hidden, shows a = false := by
  have lengths := hides.perm.length_eq
  rw [List.length_append] at lengths
  constructor
  · intro same
    rw [same] at lengths
    have none : hidden.filter shows = [] := List.eq_nil_of_length_eq_zero (by omega)
    simpa using none
  · intro nothing
    have none : hidden.filter shows = [] := by simpa using nothing
    rw [none, List.length_nil] at lengths
    exact hides.sublist.eq_of_length (by omega)

end Hides

end Library
