import Bootchart.Library.Text

/-!
# Words

A line is split at its spaces; words that are joined with single spaces are found again.
-/

namespace Library
namespace Text

/-- A word is not empty and has no spaces. -/
structure IsWord (word : Text) : Prop where
  /-- It is not empty. -/
  nonempty : word ≠ []
  /-- It has no spaces. -/
  unspaced : ∀ c ∈ word, isSpace c = false

@[simp] theorem words_nil : words [] = [] := by
  simp [words, List.splitOnP_nil]

/-- A space in front is skipped. -/
theorem words_cons {space : Char} (isGap : isSpace space = true) (rest : Text) :
    words (space :: rest) = words rest := by
  have empty : ∀ c ∈ ([] : Text), isSpace c = false := by
    simp
  have opened := List.splitOnP_append_cons_of_forall_mem empty space isGap rest
  rw [List.nil_append] at opened
  rw [words, opened, List.filter_cons_of_neg (by simp)]
  rfl

/-- A word in front of a space. -/
theorem words_append_cons
    {word : Text}
    (isWord : IsWord word)
    {space : Char}
    (isGap : isSpace space = true)
    (rest : Text) : words (word ++ space :: rest) = word :: words rest := by
  rw [words, List.splitOnP_append_cons_of_forall_mem isWord.unspaced space isGap,
    List.filter_cons_of_pos (by simpa using isWord.nonempty)]
  rfl

/-- A single word. -/
theorem words_of_isWord {word : Text} (isWord : IsWord word) : words word = [word] := by
  rw [words, List.splitOnP_eq_singleton isWord.unspaced,
    List.filter_cons_of_pos (by simpa using isWord.nonempty), List.filter_nil]

/-- Words that are joined. -/
theorem words_intercalate {list : List Text} (areWords : ∀ word ∈ list, IsWord word) :
    words ([' '].intercalate list) = list := by
  induction list with
  | nil => exact words_nil
  | cons word list inductionHypothesis =>
      rw [List.forall_mem_cons] at areWords
      cases list with
      | nil =>
          rw [List.intercalate_singleton]
          exact words_of_isWord areWords.1
      | cons next list =>
          rw [List.intercalate_cons_cons, List.append_assoc, List.singleton_append,
            words_append_cons areWords.1 rfl, inductionHypothesis areWords.2]

/-- A number is a word. -/
theorem isWord_decimal (number : Int) : IsWord (decimal number) where
  nonempty := decimal_ne_nil number
  unspaced := fun _ member => isSpace_of_mem_decimal member

end Text
end Library
