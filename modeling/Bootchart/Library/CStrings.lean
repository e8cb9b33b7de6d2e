import Mathlib.Data.List.Basic
import Mathlib.Tactic.Common

/-!
# Strings as C handles them

Reading a file piece by piece into a buffer, finding the first place of a part, and cutting a
string at the last place of a character. What the strings consist of does not matter.
-/

namespace Library

variable {α : Type*} [DecidableEq α]

/-! ## Reading pieces -/

/-- What `fgets` puts into a buffer of a size, call after call, with what is pending in it: a piece
ends behind a line end, or when the buffer is full. -/
def pieces (lineEnd : α) (size : Nat) : List α → List α → List (List α)
  | pending, [] => if pending = [] then [] else [pending]
  | pending, c :: file =>
      if c = lineEnd ∨ pending.length + 2 = size then
        (pending ++ [c]) :: pieces lineEnd size [] file
      else pieces lineEnd size (pending ++ [c]) file

section Pieces

variable {lineEnd : α} {size : Nat}

/-- A line that fits into the buffer is a piece. -/
theorem pieces_append
    {pending line : List α}
    (noEnd : lineEnd ∉ line)
    (fits : pending.length + line.length + 2 ≤ size)
    (file : List α) :
    pieces lineEnd size pending (line ++ lineEnd :: file) =
      (pending ++ line ++ [lineEnd]) :: pieces lineEnd size [] file := by
  induction line generalizing pending with
  | nil => rw [List.nil_append, pieces, if_pos (Or.inl rfl), List.append_nil]
  | cons c line inductionHypothesis =>
      rw [List.mem_cons, not_or] at noEnd
      rw [List.length_cons] at fits
      have goesOn : ¬(c = lineEnd ∨ pending.length + 2 = size) := by
        rintro (rfl | full)
        · exact noEnd.1 rfl
        · omega
      have fitsStill : (pending ++ [c]).length + line.length + 2 ≤ size := by
        rw [List.length_append, List.length_singleton]
        omega
      rw [List.cons_append, pieces, if_neg goesOn, inductionHypothesis noEnd.2 fitsStill,
        List.append_assoc pending]
      rfl

/-- Lines that fit into the buffer are the pieces. -/
theorem pieces_flatMap
    {lines : List (List α)}
    (noEnd : ∀ line ∈ lines, lineEnd ∉ line)
    (fit : ∀ line ∈ lines, line.length + 2 ≤ size) :
    pieces lineEnd size [] (lines.flatMap fun line => line ++ [lineEnd]) =
      lines.map fun line => line ++ [lineEnd] := by
  induction lines with
  | nil => rfl
  | cons line lines inductionHypothesis =>
      rw [List.forall_mem_cons] at noEnd fit
      have fits : ([] : List α).length + line.length + 2 ≤ size := by
        rw [List.length_nil, Nat.zero_add]
        exact fit.1
      rw [List.flatMap_cons, List.append_assoc, List.singleton_append,
        pieces_append noEnd.1 fits, inductionHypothesis noEnd.2 fit.2, List.nil_append,
        List.map_cons]

end Pieces

/-! ## Finding and cutting -/

/-- `strstr`: the string from the first place of a part on. -/
def findPart (part : List α) : List α → Option (List α)
  | [] => if part = [] then some [] else none
  | c :: rest =>
      if part.isPrefixOf (c :: rest) then some (c :: rest) else findPart part rest

/-- A part that begins with a character which is not there before is found. -/
theorem findPart_append
    {first : α}
    {before : List α}
    (notBefore : first ∉ before)
    (part behind : List α) :
    findPart (first :: part) (before ++ (first :: part) ++ behind) =
      some (first :: part ++ behind) := by
  induction before with
  | nil =>
      have isPrefix : (first :: part).isPrefixOf (first :: part ++ behind) = true :=
        List.isPrefixOf_iff_prefix.mpr (List.prefix_append _ _)
      rw [List.nil_append, List.cons_append, findPart, ← List.cons_append, if_pos isPrefix]
  | cons c before inductionHypothesis =>
      rw [List.mem_cons, not_or] at notBefore
      have isElsewhere : (first :: part).isPrefixOf
          (c :: (before ++ (first :: part) ++ behind)) ≠ true := by
        rw [List.isPrefixOf_cons_cons, Ne, Bool.and_eq_true, beq_iff_eq]
        exact fun isHere => notBefore.1 isHere.1
      rw [List.cons_append, List.cons_append, findPart, if_neg isElsewhere,
        inductionHypothesis notBefore.2]

/-- The string up to the last place of a character, if it is there. -/
def cutAtLast (last : α) : List α → List α
  | [] => []
  | c :: rest =>
      if last ∈ rest then c :: cutAtLast last rest
      else if c = last then []
      else c :: rest

/-- A string without the character is left as it is. -/
theorem cutAtLast_of_not_mem {last : α} {text : List α} (noPlace : last ∉ text) :
    cutAtLast last text = text := by
  cases text with
  | nil => rfl
  | cons c rest =>
      rw [List.mem_cons, not_or] at noPlace
      rw [cutAtLast, if_neg noPlace.2, if_neg (Ne.symm noPlace.1)]

/-- What is in front of the last place is kept. -/
theorem cutAtLast_append
    {last : α}
    {behind : List α}
    (notBehind : last ∉ behind)
    (text : List α) : cutAtLast last (text ++ last :: behind) = text := by
  induction text with
  | nil => rw [List.nil_append, cutAtLast, if_neg notBehind, if_pos rfl]
  | cons c text inductionHypothesis =>
      have isThere : last ∈ text ++ last :: behind :=
        List.mem_append_right _ List.mem_cons_self
      rw [List.cons_append, cutAtLast, if_pos isThere, inductionHypothesis]

end Library
