import Bootchart.Parsing.BlockText

/-!
# Two readers of one log

The reader that reads line by line strips the lines before it looks at them, the other one
looks at the text between empty lines. They read the same unless the second one leaves a
block out.
-/

namespace Bootchart
namespace Parsing

open Library (Text)
open Library.Text (readInt strip paragraphs unlines)
open Library.Utf8 (encode)

/-- Stripped lines, without the empty ones. -/
def tidyLines (lines : List Text) : List Text :=
  (lines.map strip).filter (· ≠ [])

/-- A block with its lines stripped and without empty lines. -/
def tidy (block : Block) : Block :=
  (block.1, tidyLines block.2)

/-- Both readers raise a `ParseError`, or both read the same blocks, up to spaces around
lines and empty lines. -/
def SameOutcome
    (whole : Except Exception (List Block))
    (stream : List Block × Option Exception) : Prop :=
  (∃ message other, whole = .error (.parseError message) ∧
    stream.2 = some (.parseError other)) ∨
  ∃ blocks, whole = .ok blocks ∧ stream.2 = none ∧ stream.1.map tidy = blocks.map tidy

/-- `_parse_timed_blocks` does not leave a paragraph out. -/
def Kept (block : Text) : Prop :=
  strip block ≠ [] ∧ ¬notRunning.isSuffixOf block

/-- The first line of a block is not a number. -/
def Untimed (lines : List Text) : Prop :=
  lines.head?.bind readInt = none

/-- `_parse_timed_blocks` leaves out nothing but an empty paragraph, or it meets a block
without a time. -/
def ReadsAlike (text : Text) : Prop :=
  (∃ block ∈ paragraphs text, Kept block ∧ Untimed (block.splitOn '\n')) ∨
    ∀ block ∈ paragraphs text, block = [] ∨ Kept block

/-! ## One block -/

/-- A block without a time is an error. -/
theorem parseBlock_untimed
    {lines : List Text}
    (untimed : Untimed lines) :
    ∃ message, parseBlock lines = .error (.parseError message) := by
  cases lines with
  | nil => exact ⟨_, rfl⟩
  | cons first lines =>
      have noTime : readInt first = none := untimed
      rw [parseBlock, noTime]
      exact ⟨_, rfl⟩

/-- Any other block is read. -/
theorem parseBlock_timed
    {lines : List Text}
    (timed : ¬Untimed lines) :
    ∃ time, parseBlock lines = .ok (time, lines.tail) := by
  cases lines with
  | nil => exact absurd rfl timed
  | cons first lines =>
      obtain ⟨time, isTime⟩ := Option.ne_none_iff_exists'.mp timed
      have isFirst : readInt first = some time := isTime
      rw [parseBlock, isFirst]
      exact ⟨time, rfl⟩

/-- Stripped lines are tidied to the same. -/
@[simp] theorem tidyLines_map_strip (lines : List Text) :
    tidyLines (lines.map strip) = tidyLines lines := by
  simp [tidyLines, Function.comp_def]

/-- An empty line is dropped. -/
theorem tidyLines_lastLine (lines : List Text) (line : Text) :
    tidyLines (lines ++ lastLine line) = tidyLines (lines ++ [line]) := by
  unfold lastLine tidyLines
  by_cases empty : line = []
  · subst empty
    rw [if_pos rfl]
    simp [strip, Library.Text.stripBy]
  · rw [if_neg empty]

/-! ## One more block -/

section Step

variable {whole : Except Exception (List Block)} {stream : List Block × Option Exception}

/-- A block that both read. -/
theorem sameOutcome_cons
    {block other : Block}
    (alike : tidy other = tidy block) :
    SameOutcome (whole.map (block :: ·)) (other :: stream.1, stream.2) ↔
      SameOutcome whole stream := by
  unfold SameOutcome
  cases whole with
  | error exception => simp [Except.map]
  | ok blocks => simp [Except.map, alike]

/-- When the line by line reader fails, the other one has to fail. -/
theorem sameOutcome_error
    {message : Text}
    (fails : stream.2 = some (.parseError message)) :
    SameOutcome whole stream ↔ ∃ other, whole = .error (.parseError other) := by
  simp [SameOutcome, fails]

end Step

/-- Whether `_parse_timed_blocks` fails. -/
theorem mapM_parseBlock_error (blocks : List Text) :
    (∃ message, blocks.mapM (fun block => parseBlock (block.splitOn '\n')) =
        .error (.parseError message)) ↔
      ∃ block ∈ blocks, Untimed (block.splitOn '\n') := by
  induction blocks with
  | nil => simp [pure, Except.pure]
  | cons block blocks inductionHypothesis =>
      rw [List.mapM_cons, List.exists_mem_cons_iff, ← inductionHypothesis]
      by_cases untimed : Untimed (block.splitOn '\n')
      · obtain ⟨message, failed⟩ := parseBlock_untimed untimed
        rw [failed]
        exact iff_of_true ⟨message, rfl⟩ (.inl untimed)
      · obtain ⟨time, isRead⟩ := parseBlock_timed untimed
        rw [isRead]
        simp only [untimed, false_or]
        cases blocks.mapM (fun block => parseBlock (block.splitOn '\n')) with
        | error exception => rfl
        | ok read => simp [bind, Except.bind, pure, Except.pure]

/-- `_parse_timed_blocks` raises a `ParseError` if and only if a block that it keeps has no
time. -/
theorem timedBlocks_error (text : Text) :
    (∃ message, timedBlocks text = .error (.parseError message)) ↔
      ∃ block ∈ paragraphs text, Kept block ∧ Untimed (block.splitOn '\n') := by
  rw [timedBlocks, mapM_parseBlock_error]
  simp [Kept, and_assoc]

/-! ## All blocks -/

/-- The first lines of a text, up to an empty line or to the last line. -/
theorem exists_lines
    (text : Text)
    (first : '\n' ∉ text.head?) :
    ∃ lines behind, (∀ line ∈ lines, IsLine line) ∧ text = unlines lines ++ behind ∧
      ('\n' ∉ behind ∨ lines ≠ [] ∧ '\n' ∈ behind.head?) := by
  induction size : text.length using Nat.strongRecOn generalizing text with
  | ind length inductionHypothesis =>
      by_cases member : '\n' ∈ text
      · obtain ⟨line, rest, isText, noEnd⟩ := List.eq_append_cons_of_mem member
        have isLine : IsLine line := by
          refine ⟨fun empty => ?_, noEnd⟩
          exact first (by simp [isText, empty])
        by_cases ends : '\n' ∈ rest.head?
        · exact ⟨[line], rest, by simpa using isLine, by simp [isText],
            .inr ⟨by simp, ends⟩⟩
        · have shorter : rest.length < length := by
            rw [← size, isText, List.length_append, List.length_cons]
            omega
          obtain ⟨lines, behind, areLines, isRest, isBehind⟩ :=
            inductionHypothesis _ shorter rest ends rfl
          refine ⟨line :: lines, behind, List.forall_mem_cons.mpr ⟨isLine, areLines⟩,
            by simp [isText, isRest], ?_⟩
          exact isBehind.imp_right fun behindIs => ⟨by simp, behindIs.2⟩
      · exact ⟨[], text, by simp, by simp, .inl member⟩

/-- Lines end in a line end. -/
theorem exists_unlines_eq
    {lines : List Text}
    (nonempty : lines ≠ []) : ∃ before, unlines lines = before ++ ['\n'] := by
  rw [← List.dropLast_concat_getLast nonempty, unlines_append]
  exact ⟨unlines lines.dropLast ++ lines.getLast nonempty, by simp⟩

/-- A text without two adjacent empty lines is read block by block: what holds of the last
block, and of a block and what follows if it holds of what follows, holds of the text. -/
theorem block_induction
    {motive : Text → Prop}
    (last : ∀ lines line, (∀ one ∈ lines, IsLine one) → '\n' ∉ line →
      motive (unlines lines ++ line))
    (block : ∀ lines rest, lines ≠ [] → (∀ one ∈ lines, IsLine one) → motive rest →
      motive (blockText lines ++ rest))
    (text : Text)
    (first : '\n' ∉ text.head?)
    (noTriple : ¬['\n', '\n', '\n'] <:+: text) : motive text := by
  induction size : text.length using Nat.strongRecOn generalizing text with
  | ind length inductionHypothesis =>
      obtain ⟨lines, behind, areLines, rfl, noEnd | ⟨nonempty, ends⟩⟩ :=
        exists_lines text first
      · exact last lines behind areLines noEnd
      · obtain ⟨rest, rfl⟩ := List.head?_eq_some_iff.mp ends
        have opened : unlines lines ++ '\n' :: rest = blockText lines ++ rest := by
          simp [blockText]
        rw [opened] at size noTriple ⊢
        have shorter : rest.length < length := by
          rw [← size, blockText, List.length_append, List.length_append,
            List.length_singleton]
          omega
        apply block lines rest nonempty areLines
        refine inductionHypothesis _ shorter rest (fun another => noTriple ?_)
          (fun triple => noTriple (triple.trans (List.suffix_append _ _).isInfix)) rfl
        obtain ⟨before, isLines⟩ := exists_unlines_eq nonempty
        obtain ⟨more, rfl⟩ := List.head?_eq_some_iff.mp another
        refine ⟨before, more, ?_⟩
        rw [blockText, isLines]
        simp

/-- The first line of a blank block is blank. -/
theorem strip_of_intercalate
    {first : Text}
    {lines : List Text}
    (blank : strip (['\n'].intercalate (first :: lines)) = []) : strip first = [] := by
  have isPrefix : first <+: ['\n'].intercalate (first :: lines) := by
    cases lines with
    | nil => simp
    | cons next lines =>
        rw [List.intercalate_cons_cons, List.append_assoc]
        exact List.prefix_append _ _
  have stripped := Library.Text.stripBy_prefix Library.Text.isSpace isPrefix
  unfold strip at blank
  rw [blank] at stripped
  exact List.prefix_nil.mp stripped

section Block

variable {lines : List Text} {rest : Text}

/-- The first block and the others. -/
theorem readsAlike_blockText
    (nonempty : lines ≠ [])
    (areLines : ∀ line ∈ lines, IsLine line) :
    ReadsAlike (blockText lines ++ rest) ↔
      if strip (['\n'].intercalate lines) = [] then
        ∃ message, timedBlocks rest = .error (.parseError message)
      else Untimed lines ∨ ReadsAlike rest := by
  have pieces := List.splitOn_intercalate '\n' (fun line member => (areLines line member).2)
    nonempty
  have something : ['\n'].intercalate lines ≠ [] := by
    obtain ⟨line, others, rfl⟩ := List.exists_cons_of_ne_nil nonempty
    have isLine := (areLines line (by simp)).1
    cases others <;> simp [isLine]
  have running := not_suffix_intercalate areLines
  rw [timedBlocks_error]
  unfold ReadsAlike
  rw [paragraphs_blockText nonempty areLines, List.exists_mem_cons_iff, List.forall_mem_cons,
    pieces]
  by_cases blank : strip (['\n'].intercalate lines) = []
  · rw [if_pos blank]
    simp [Kept, blank, something]
  · rw [if_neg blank]
    have kept : Kept (['\n'].intercalate lines) := ⟨blank, running⟩
    simp only [kept, true_and, or_true, or_assoc]

/-- Both readers read the first block and then the others. -/
theorem sameOutcome_blockText
    (nonempty : lines ≠ [])
    (areLines : ∀ line ∈ lines, IsLine line) :
    SameOutcome (timedBlocks (blockText lines ++ rest))
        (iterTimedBlocksFrom [] (fileLines (encode (blockText lines ++ rest)))) ↔
      if strip (['\n'].intercalate lines) = [] then
        ∃ message, timedBlocks rest = .error (.parseError message)
      else Untimed lines ∨
        SameOutcome (timedBlocks rest)
          (iterTimedBlocksFrom [] (fileLines (encode rest))) := by
  obtain ⟨first, others, rfl⟩ := List.exists_cons_of_ne_nil nonempty
  rw [timedBlocks_blockText nonempty areLines, Library.Utf8.encode_append,
    iterTimedBlocksFrom_blockText nonempty areLines, List.map_cons]
  by_cases blank : strip (['\n'].intercalate (first :: others)) = []
  · rw [if_pos blank, if_pos blank]
    have untimed : Untimed (strip first :: others.map strip) := by
      rw [strip_of_intercalate blank]
      rfl
    obtain ⟨message, failed⟩ := parseBlock_untimed untimed
    rw [failed]
    exact sameOutcome_error rfl
  · rw [if_neg blank, if_neg blank, parseBlock, parseBlock, Library.Text.readInt_strip]
    cases isTime : readInt first with
    | none => exact iff_of_true (.inl ⟨_, _, rfl, rfl⟩) (.inl isTime)
    | some time =>
        have timed : ¬Untimed (first :: others) := by
          simp [Untimed, isTime]
        have alike : tidy (time, others.map strip) = tidy (time, others) := by
          simp [tidy]
        rw [or_iff_right timed]
        exact sameOutcome_cons alike

/-- What is left at the end. -/
theorem readsAlike_last
    (areLines : ∀ line ∈ lines, IsLine line)
    {line : Text}
    (noEnd : '\n' ∉ line) :
    ReadsAlike (unlines lines ++ line) ↔
      unlines lines ++ line = [] ∨ Kept (unlines lines ++ line) := by
  unfold ReadsAlike
  rw [paragraphs_unlines_append areLines noEnd]
  simp only [List.mem_singleton, exists_eq_left, forall_eq]
  tauto

/-- The lines that are left at the end, with an empty last line or without it. -/
theorem exists_first
    {line : Text}
    (something : unlines lines ++ line ≠ []) :
    ∃ first more others, lines ++ [line] = first :: more ∧
      lines ++ lastLine line = first :: others ∧ tidyLines others = tidyLines more := by
  cases lines with
  | nil =>
      have nonempty : line ≠ [] := something
      exact ⟨line, [], [], rfl, by simp [lastLine, nonempty], rfl⟩
  | cons first lines =>
      exact ⟨first, lines ++ [line], lines ++ lastLine line, rfl, rfl,
        tidyLines_lastLine lines line⟩

/-- Both readers read what is left at the end, unless one leaves it out. -/
theorem sameOutcome_last
    (areLines : ∀ line ∈ lines, IsLine line)
    {line : Text}
    (noEnd : '\n' ∉ line) :
    SameOutcome (timedBlocks (unlines lines ++ line))
        (iterTimedBlocksFrom [] (fileLines (encode (unlines lines ++ line)))) ↔
      unlines lines ++ line = [] ∨ Kept (unlines lines ++ line) := by
  rw [timedBlocks_single (paragraphs_unlines_append areLines noEnd),
    splitOn_unlines_append areLines noEnd]
  by_cases nothing : unlines lines ++ line = []
  · rw [nothing]
    exact iff_of_true (.inr ⟨[], rfl, rfl, rfl⟩) (.inl rfl)
  · obtain ⟨first, more, others, isWhole, isStream, alike⟩ := exists_first nothing
    rw [iterTimedBlocksFrom_last areLines noEnd, isWhole, isStream,
      if_neg (List.cons_ne_nil first others), List.map_cons, parseBlock, parseBlock,
      Library.Text.readInt_strip, or_iff_right nothing]
    by_cases leftOut : strip (unlines lines ++ line) = [] ∨
        notRunning.isSuffixOf (unlines lines ++ line)
    · -- One reader has nothing; the other one has a block, or fails.
      rw [if_pos leftOut]
      refine iff_of_false ?_ fun kept => not_or.mpr kept leftOut
      cases readInt first with
      | none => simp [SameOutcome]
      | some time => simp [SameOutcome]
    · rw [if_neg leftOut]
      refine iff_of_true ?_ (not_or.mp leftOut)
      cases readInt first with
      | none => exact .inl ⟨_, _, rfl, rfl⟩
      | some time =>
          refine .inr ⟨_, rfl, rfl, ?_⟩
          simp [tidy, alike]

end Block

/-- `_iter_parse_timed_blocks` and `_parse_timed_blocks` give the same of a text without two
adjacent empty lines, and that does not begin with one, if and only if the second one leaves
out nothing but an empty paragraph, or fails. -/
theorem sameOutcome_iff
    {text : Text}
    (first : '\n' ∉ text.head?)
    (noTriple : ¬['\n', '\n', '\n'] <:+: text) :
    SameOutcome (parseTimedBlocks (encode text)) (iterParseTimedBlocks (encode text)) ↔
      ReadsAlike text := by
  rw [parseTimedBlocks, decodeUtf8, Library.Utf8.decode_encode]
  change SameOutcome (timedBlocks text)
    (iterTimedBlocksFrom [] (fileLines (encode text))) ↔ ReadsAlike text
  apply block_induction _ _ text first noTriple
  · intro lines line areLines noEnd
    rw [sameOutcome_last areLines noEnd, readsAlike_last areLines noEnd]
  · intro lines rest nonempty areLines inductionHypothesis
    rw [sameOutcome_blockText nonempty areLines, readsAlike_blockText nonempty areLines,
      inductionHypothesis]

/-- Both read two blocks of two lines; and both raise an exception if one of them has no time,
even with a block of white space behind it. -/
theorem sameOutcome_twoBlocks :
    SameOutcome (parseTimedBlocks (encode "1\na \n\n2\nb\n".toList))
        (iterParseTimedBlocks (encode "1\na \n\n2\nb\n".toList)) ∧
      SameOutcome (parseTimedBlocks (encode "1\na \n\nb\n\n \n".toList))
        (iterParseTimedBlocks (encode "1\na \n\nb\n\n \n".toList)) := by
  constructor
  · apply (sameOutcome_iff (by decide +kernel) (by decide +kernel)).mpr
    refine .inr ?_
    unfold Kept
    decide +kernel
  · apply (sameOutcome_iff (by decide +kernel) (by decide +kernel)).mpr
    refine .inl ⟨['b'], ?_⟩
    unfold Kept Untimed
    decide +kernel

/-- A last block that says that something is not running is read only line by line. -/
theorem not_sameOutcome_notRunning :
    ¬SameOutcome (parseTimedBlocks (encode "1\na not running\n".toList))
      (iterParseTimedBlocks (encode "1\na not running\n".toList)) := by
  have whole : parseTimedBlocks (encode "1\na not running\n".toList) = .ok [] := by
    decide +kernel
  have stream : iterParseTimedBlocks (encode "1\na not running\n".toList) =
      ([(1, ["a not running".toList])], none) := by
    decide +kernel
  rw [whole, stream]
  simp [SameOutcome]

end Parsing
end Bootchart
