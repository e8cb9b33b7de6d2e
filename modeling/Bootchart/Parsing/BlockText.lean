import Bootchart.Parsing.TimedBlocks

/-!
# Blocks of a log

A log is read block by block, whatever its blocks are: lines up to an empty one are a
block, and so is what is left at the end, where the last line may have no end.
-/

namespace Bootchart
namespace Parsing

open Library (Text)
open Library.Text (strip paragraphs unlines decimal)
open Library.Utf8 (encode)

/-- Lines and the empty line behind them. -/
def blockText (lines : List Text) : Text :=
  unlines lines ++ ['\n']

/-- A line of a text: not empty and without line ends. -/
def IsLine (line : Text) : Prop :=
  line ≠ [] ∧ '\n' ∉ line

/-- Texts put behind each other. -/
@[simp] theorem unlines_nil : unlines [] = [] := rfl

@[simp] theorem unlines_cons (line : Text) (lines : List Text) :
    unlines (line :: lines) = line ++ '\n' :: unlines lines := by
  simp [unlines]

theorem unlines_append (first second : List Text) :
    unlines (first ++ second) = unlines first ++ unlines second := by
  simp [unlines]

/-! ## Reading the whole log -/

section Whole

variable {lines : List Text}

/-- Lines joined do not end in a line end. -/
theorem not_suffix_intercalate
    (areLines : ∀ line ∈ lines, IsLine line) :
    ¬notRunning.isSuffixOf (['\n'].intercalate lines) := by
  intro isSuffix
  obtain ⟨before, isText⟩ := List.isSuffixOf_iff_suffix.mp isSuffix
  obtain ⟨message, isMessage⟩ := exists_notRunning_eq
  cases lines with
  | nil =>
      rw [isMessage] at isText
      simp at isText
  | cons line lines =>
      have pieces := List.splitOn_intercalate '\n' (fun line member => (areLines line member).2)
        (by simp : line :: lines ≠ [])
      have empty : [] ∈ line :: lines := by
        rw [← pieces, ← isText, isMessage, ← List.append_assoc,
          List.splitOn_append_cons_self]
        simp
      exact (areLines [] empty).1 rfl

/-- Lines up to an empty line are the first paragraph. -/
theorem paragraphs_blockText
    (nonempty : lines ≠ [])
    (areLines : ∀ line ∈ lines, IsLine line)
    (rest : Text) :
    paragraphs (blockText lines ++ rest) = ['\n'].intercalate lines :: paragraphs rest := by
  obtain ⟨line, others, rfl⟩ := List.exists_cons_of_ne_nil nonempty
  have opened : blockText (line :: others) ++ rest =
      unlines (line :: others) ++ '\n' :: rest := by
    simp [blockText]
  rw [opened]
  exact Library.Text.paragraphs_unlines (fun line member => (areLines line member).2)
    (fun line member => (areLines line (List.mem_cons_of_mem _ member)).1) rest

/-- `_parse_timed_blocks` reads the first block, unless it is blank, and then the
others. -/
theorem timedBlocks_blockText
    (nonempty : lines ≠ [])
    (areLines : ∀ line ∈ lines, IsLine line)
    (rest : Text) :
    timedBlocks (blockText lines ++ rest) =
      if strip (['\n'].intercalate lines) = [] then timedBlocks rest
      else do
        let block ← parseBlock lines
        let blocks ← timedBlocks rest
        return block :: blocks := by
  have pieces := List.splitOn_intercalate '\n' (fun line member => (areLines line member).2)
    nonempty
  rw [timedBlocks, paragraphs_blockText nonempty areLines, List.filter_cons]
  by_cases blank : strip (['\n'].intercalate lines) = []
  · rw [if_neg (by simp [blank]), if_pos blank]
    rfl
  · rw [if_pos (decide_eq_true ⟨blank, not_suffix_intercalate areLines⟩), if_neg blank,
      List.mapM_cons, pieces]
    rfl

/-- `_parse_timed_blocks` reads a single paragraph as one block, unless it is blank or says
that something is not running. -/
theorem timedBlocks_single
    {text : Text}
    (single : paragraphs text = [text]) :
    timedBlocks text =
      if strip text = [] ∨ notRunning.isSuffixOf text then .ok []
      else do
        let block ← parseBlock (text.splitOn '\n')
        return [block] := by
  rw [timedBlocks, single, List.filter_cons]
  by_cases leftOut : strip text = [] ∨ notRunning.isSuffixOf text
  · rw [if_pos leftOut, if_neg (by simp only [decide_eq_true_eq]; tauto)]
    rfl
  · rw [if_neg leftOut, if_pos (decide_eq_true (not_or.mp leftOut)), List.mapM_cons]
    rfl

/-- Lines and what is left behind them, joined. -/
theorem unlines_append_eq_intercalate (lines : List Text) (last : Text) :
    unlines lines ++ last = ['\n'].intercalate (lines ++ [last]) := by
  induction lines with
  | nil => simp
  | cons line lines inductionHypothesis =>
      rw [List.cons_append, List.intercalate_cons_of_ne_nil (by simp),
        ← inductionHypothesis]
      simp

/-- Lines and what is left behind them, split. -/
theorem splitOn_unlines_append
    (areLines : ∀ line ∈ lines, IsLine line)
    {last : Text}
    (noEnd : '\n' ∉ last) : (unlines lines ++ last).splitOn '\n' = lines ++ [last] := by
  rw [unlines_append_eq_intercalate]
  refine List.splitOn_intercalate '\n' (fun line member => ?_) (by simp)
  rcases List.mem_append.mp member with inLines | isLast
  · exact (areLines line inLines).2
  · rw [List.mem_singleton.mp isLast]
    exact noEnd

/-- Lines and what is left behind them are one paragraph. -/
theorem paragraphs_unlines_append
    (areLines : ∀ line ∈ lines, IsLine line)
    {last : Text}
    (noEnd : '\n' ∉ last) :
    paragraphs (unlines lines ++ last) = [unlines lines ++ last] := by
  induction lines with
  | nil =>
      have opened := Library.Text.paragraphs_append noEnd []
      simpa [paragraphs] using opened
  | cons line lines inductionHypothesis =>
      rw [List.forall_mem_cons] at areLines
      have rest := inductionHypothesis areLines.2
      rw [unlines_cons, List.append_assoc, Library.Text.paragraphs_append areLines.1.2,
        List.cons_append]
      have behind : paragraphs ('\n' :: (unlines lines ++ last)) =
          (paragraphs (unlines lines ++ last)).modifyHead ('\n' :: ·) := by
        cases isText : unlines lines ++ last with
        | nil => rfl
        | cons c text =>
            refine Library.Text.paragraphs_newline_cons (fun isNewline => ?_) text
            subst isNewline
            cases lines with
            | nil =>
                rw [unlines_nil, List.nil_append] at isText
                exact noEnd (by simp [isText])
            | cons next lines =>
                obtain ⟨first, others, rfl⟩ := List.exists_cons_of_ne_nil
                  (areLines.2 next (by simp)).1
                rw [unlines_cons, List.cons_append, List.cons_append] at isText
                obtain ⟨rfl, -⟩ := List.cons.inj isText
                exact (areLines.2 ('\n' :: others) (by simp)).2 (by simp)
      rw [behind, rest]
      rfl

end Whole

/-! ## Reading the log line by line -/

section Stream

/-- The lines of an encoded text. -/
theorem encode_unlines (lines : List Text) :
    encode (unlines lines) = (lines.map encode).flatMap (· ++ [10]) := by
  induction lines with
  | nil => rfl
  | cons line lines inductionHypothesis =>
      have newline : String.utf8EncodeChar '\n' = [10] :=
        Library.Utf8.encodeChar_of_lt (by decide)
      simp [inductionHypothesis, newline]

/-- A line of a text is one of the encoded text. -/
theorem IsLine.loggable {line : Text} (isLine : IsLine line) : Loggable (encode line) :=
  ⟨encode_ne_nil isLine.1, newline_not_mem_encode isLine.2⟩

/-- `_iter_parse_timed_blocks` reads some lines. -/
theorem iterTimedBlocksFrom_unlines
    {lines : List Text}
    (areLines : ∀ line ∈ lines, IsLine line)
    (rest : Bytes) :
    iterTimedBlocksFrom [] (fileLines (encode (unlines lines) ++ rest)) =
      iterTimedBlocksFrom (lines.map strip) (fileLines rest) := by
  have loggable : ∀ line ∈ lines.map encode, Loggable line := by
    intro line member
    obtain ⟨text, isText, rfl⟩ := List.mem_map.mp member
    exact (areLines text isText).loggable
  have decoded : (lines.map encode).mapM Library.Utf8.decode = some lines := by
    induction lines with
    | nil => rfl
    | cons line lines inductionHypothesis =>
        rw [List.map_cons, List.mapM_cons, Library.Utf8.decode_encode,
          inductionHypothesis (fun other member => areLines other
            (List.mem_cons_of_mem _ member))
            (fun other member => loggable other (List.mem_cons_of_mem _ member))]
        rfl
  rw [encode_unlines, iterTimedBlocksFrom_lines loggable, decoded]
  rfl

/-- `_iter_parse_timed_blocks` reads the first block and then the others. -/
theorem iterTimedBlocksFrom_blockText
    {lines : List Text}
    (nonempty : lines ≠ [])
    (areLines : ∀ line ∈ lines, IsLine line)
    (rest : Bytes) :
    iterTimedBlocksFrom [] (fileLines (encode (blockText lines) ++ rest)) =
      match parseBlock (lines.map strip) with
      | .ok block => (block :: (iterTimedBlocksFrom [] (fileLines rest)).1,
          (iterTimedBlocksFrom [] (fileLines rest)).2)
      | .error exception => ([], some exception) := by
  have newline : String.utf8EncodeChar '\n' = [10] :=
    Library.Utf8.encodeChar_of_lt (by decide)
  have opened : encode (blockText lines) ++ rest =
      encode (unlines lines) ++ ([] ++ 10 :: rest) := by
    simp [blockText, newline]
  have isNewline : Library.Utf8.decode [10] = some ['\n'] :=
    Library.Utf8.decode_eq_some.mpr rfl
  rw [opened, iterTimedBlocksFrom_unlines areLines, fileLines_line (by simp)]
  rw [List.nil_append, iterTimedBlocksFrom, isNewline]
  simp only [if_true, List.map_eq_nil_iff, nonempty, if_false, getLast?_any_notRunning]
  rfl

/-- The line that is left at the end. -/
def lastLine (line : Text) : List Text :=
  if line = [] then [] else [line]

/-- A line without its end is the last one of the file. -/
theorem fileLines_last
    {line : Bytes}
    (loggable : Loggable line) : fileLines line = [line] := by
  obtain ⟨nonempty, noEnd⟩ := loggable
  induction line with
  | nil => exact absurd rfl nonempty
  | cons byte line inductionHypothesis =>
      rw [List.mem_cons, not_or] at noEnd
      rw [fileLines, if_neg (Ne.symm noEnd.1)]
      cases line with
      | nil => rfl
      | cons next line => rw [inductionHypothesis (by simp) noEnd.2]

/-- `_iter_parse_timed_blocks` ends with the lines of the last block. -/
theorem iterTimedBlocksFrom_nil (lines : List Text) :
    iterTimedBlocksFrom (lines.map strip) [] =
      if lines = [] then ([], none)
      else
        match parseBlock (lines.map strip) with
        | .ok block => ([block], none)
        | .error exception => ([], some exception) := by
  simp only [iterTimedBlocksFrom, getLast?_any_notRunning, List.map_eq_nil_iff]
  rfl

/-- `_iter_parse_timed_blocks` reads what is left at the end. -/
theorem iterTimedBlocksFrom_last
    {lines : List Text}
    (areLines : ∀ line ∈ lines, IsLine line)
    {line : Text}
    (noEnd : '\n' ∉ line) :
    iterTimedBlocksFrom [] (fileLines (encode (unlines lines ++ line))) =
      if lines ++ lastLine line = [] then ([], none)
      else
        match parseBlock ((lines ++ lastLine line).map strip) with
        | .ok block => ([block], none)
        | .error exception => ([], some exception) := by
  rw [Library.Utf8.encode_append, iterTimedBlocksFrom_unlines areLines]
  by_cases empty : line = []
  · subst empty
    rw [lastLine, if_pos rfl, List.append_nil]
    exact iterTimedBlocksFrom_nil lines
  · have isLine : IsLine line := ⟨empty, noEnd⟩
    have noNewline : line ≠ ['\n'] := fun same => noEnd (by simp [same])
    rw [fileLines_last isLine.loggable, iterTimedBlocksFrom, Library.Utf8.decode_encode,
      ← iterTimedBlocksFrom_nil, lastLine, if_neg empty]
    simp only [if_neg noNewline, List.map_append, List.map_cons, List.map_nil]

end Stream

/-! ## Frames -/

section Frames

variable {frame : Block}

/-- A time is a line. -/
theorem isLine_decimal (time : Int) : IsLine (decimal time) :=
  ⟨Library.Text.decimal_ne_nil time, Library.Text.not_mem_decimal rfl (by decide) time⟩

/-- A frame is a block of text. -/
theorem frameText_eq (frame : Block) :
    frameText frame = blockText (decimal frame.1 :: frame.2) := rfl

/-- The lines of a frame, with its time. -/
theorem isLine_frame
    (time : Int)
    {lines : List Text}
    (areLines : ∀ line ∈ lines, IsLine line) :
    ∀ line ∈ decimal time :: lines, IsLine line := by
  rw [List.forall_mem_cons]
  exact ⟨isLine_decimal time, areLines⟩

/-- A time and what is behind it are not blank. -/
theorem strip_decimal_append_ne_nil (time : Int) (rest : Text) :
    strip (decimal time ++ rest) ≠ [] := by
  obtain ⟨c, digits, isDecimal⟩ :=
    List.exists_cons_of_ne_nil (Library.Text.decimal_ne_nil time)
  apply Library.Text.stripBy_ne_nil (c := c)
  · simp [isDecimal]
  · simp [Library.Text.isSpace_of_mem_decimal
      (show c ∈ decimal time by simp [isDecimal])]

/-- `_parse_timed_blocks` reads frame by frame. -/
theorem timedBlocks_frameText
    (areLines : ∀ line ∈ frame.2, IsLine line)
    (rest : Text) :
    timedBlocks (frameText frame ++ rest) = (timedBlocks rest).map (frame :: ·) := by
  have notBlank : strip (['\n'].intercalate (decimal frame.1 :: frame.2)) ≠ [] := by
    cases frame.2 with
    | nil => simpa using strip_decimal_append_ne_nil frame.1 []
    | cons line lines => simpa using strip_decimal_append_ne_nil frame.1 _
  rw [frameText_eq, timedBlocks_blockText (by simp) (isLine_frame frame.1 areLines),
    if_neg notBlank, parseBlock, Library.Text.readInt_decimal]
  cases timedBlocks rest <;> rfl

/-- `_iter_parse_timed_blocks` reads frame by frame. -/
theorem iterTimedBlocksFrom_frameText
    (areLines : ∀ line ∈ frame.2, IsLine line)
    {rest : Text}
    {blocks : List Block}
    (isRead : iterTimedBlocksFrom [] (fileLines (encode rest)) = (blocks, none)) :
    iterTimedBlocksFrom [] (fileLines (encode (frameText frame ++ rest))) =
      ((frame.1, frame.2.map strip) :: blocks, none) := by
  rw [frameText_eq, Library.Utf8.encode_append,
    iterTimedBlocksFrom_blockText (by simp) (isLine_frame frame.1 areLines), List.map_cons,
    parseBlock, Library.Text.readInt_strip, Library.Text.readInt_decimal, isRead]

/-- A text without a line end is not left out. -/
theorem not_suffix_of_noEnd {text : Text} (noEnd : '\n' ∉ text) :
    ¬notRunning.isSuffixOf text := by
  intro isSuffix
  obtain ⟨before, rfl⟩ := List.isSuffixOf_iff_suffix.mp isSuffix
  obtain ⟨message, isMessage⟩ := exists_notRunning_eq
  exact noEnd (by simp [isMessage])

/-- `_parse_timed_blocks` reads a part of a time as one block, if it is a number. -/
theorem timedBlocks_time
    {time : Int}
    {text : Text}
    (nonempty : text ≠ [])
    (isPart : text <+: decimal time) :
    timedBlocks text = (parseBlock [text]).map fun block => [block] := by
  have noEnd : '\n' ∉ text := fun member =>
    Library.Text.not_mem_decimal rfl (by decide) time (isPart.subset member)
  have noLines : ∀ line ∈ ([] : List Text), IsLine line := by simp
  have single := paragraphs_unlines_append noLines noEnd
  have pieces := splitOn_unlines_append noLines noEnd
  rw [unlines_nil, List.nil_append] at single pieces
  have notBlank : strip text ≠ [] := by
    obtain ⟨c, rest, rfl⟩ := List.exists_cons_of_ne_nil nonempty
    apply Library.Text.stripBy_ne_nil (c := c) List.mem_cons_self
    simp [Library.Text.isSpace_of_mem_decimal (isPart.subset List.mem_cons_self)]
  rw [timedBlocks_single single, pieces, List.nil_append,
    if_neg (not_or.mpr ⟨notBlank, not_suffix_of_noEnd noEnd⟩)]
  cases parseBlock [text] <;> rfl

/-- `_parse_timed_blocks` reads a time, lines and what is behind them as one block, unless it
is left out. -/
theorem timedBlocks_begun
    (time : Int)
    {lines : List Text}
    (areLines : ∀ line ∈ lines, IsLine line)
    {last : Text}
    (noEnd : '\n' ∉ last) :
    timedBlocks (unlines (decimal time :: lines) ++ last) =
      if notRunning.isSuffixOf (unlines (decimal time :: lines) ++ last) then .ok []
      else .ok [(time, lines ++ [last])] := by
  have withTime := isLine_frame time areLines
  have notBlank : strip (unlines (decimal time :: lines) ++ last) ≠ [] := by
    rw [unlines_cons, List.append_assoc]
    exact strip_decimal_append_ne_nil time _
  rw [timedBlocks_single (paragraphs_unlines_append withTime noEnd),
    splitOn_unlines_append withTime noEnd, List.cons_append, parseBlock,
    Library.Text.readInt_decimal]
  simp only [notBlank, false_or]
  rfl

/-- `_parse_timed_blocks` reads back the frames of a log. -/
theorem timedBlocks_logText
    {blocks : List Block}
    (areLines : ∀ block ∈ blocks, ∀ line ∈ block.2, IsLine line) :
    timedBlocks (logText blocks) = .ok blocks := by
  induction blocks with
  | nil => rfl
  | cons block blocks inductionHypothesis =>
      obtain ⟨isLines, restLines⟩ := List.forall_mem_cons.mp areLines
      have opened : logText (block :: blocks) = frameText block ++ logText blocks := by
        simp [logText]
      rw [opened, timedBlocks_frameText isLines, inductionHypothesis restLines]
      rfl

/-- `_parse_timed_blocks` reads back a log, unless a line is no UTF-8. -/
theorem parseTimedBlocks_logBytes
    {frames : List (Int × List Bytes)}
    (loggable : ∀ frame ∈ frames, ∀ line ∈ frame.2, Loggable line) :
    parseTimedBlocks (logBytes frames) =
      match frames.mapM decodeFrame with
      | some blocks => .ok blocks
      | none => .error .unicodeDecodeError := by
  rw [parseTimedBlocks, decodeUtf8, decode_logBytes]
  cases decoded : frames.mapM decodeFrame with
  | none => rfl
  | some blocks =>
      simp only [Option.map_some]
      apply timedBlocks_logText
      intro block member
      obtain ⟨frame, inLog, isBlock⟩ := Library.exists_of_mem_mapM decoded member
      exact (loggable_of_decodeFrame (loggable frame inLog) isBlock).2

end Frames

end Parsing
end Bootchart
