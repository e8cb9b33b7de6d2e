import Bootchart.Library.Text
import Bootchart.Library.Traverse
import Bootchart.Library.Utf8

/-!
# Timed blocks

A log consists of blocks separated by empty lines: a line with a time and the
lines logged at that time. Some parsers read the whole log first, others read it
block by block.
-/

namespace Bootchart
namespace Parsing

open Library (Text)
open Library.Text (readInt strip paragraphs unlines decimal)

/-- The contents of a file. -/
abbrev Bytes := List UInt8

/-- The exceptions parsers raise. -/
inductive Exception
  /-- `ParseError`, with its message. -/
  | parseError (value : Text)
  /-- `ValueError`. -/
  | valueError
  /-- `IndexError`. -/
  | indexError
  /-- `UnicodeDecodeError`. -/
  | unicodeDecodeError
  /-- `TypeError`. -/
  | typeError
  deriving DecidableEq

/-- The time of a block and its lines. -/
abbrev Block := Int × List Text

/-- `int(text)`. -/
def int (text : Text) : Except Exception Int :=
  match readInt text with
  | some value => .ok value
  | none => .error .valueError

/-- `bytes.decode('utf-8')`. -/
def decodeUtf8 (bytes : Bytes) : Except Exception Text :=
  match Library.Utf8.decode bytes with
  | some text => .ok text
  | none => .error .unicodeDecodeError

/-- The message for a block that does not begin with a time. -/
def noTimestamp (line : Text) : Text :=
  "expected a timed-block, but timestamp '".toList ++ line ++
    "' is not an integer".toList

/-- The nested function `parse` of both readers. -/
def parseBlock : List Text → Except Exception Block
  | [] => .error (.parseError
      "expected a timed-block consisting a timestamp followed by data lines".toList)
  | first :: lines =>
      match readInt first with
      | some time => .ok (time, lines)
      | none => .error (.parseError (noTimestamp first))

/-- The end of a block that is left out. -/
def notRunning : Text :=
  " not running".toList ++ ['\n']

/-- Such a block ends in a line end. -/
theorem exists_notRunning_eq : ∃ message, notRunning = message ++ ['\n'] :=
  ⟨_, rfl⟩

/-- `_parse_timed_blocks`, for the decoded file. -/
def timedBlocks (text : Text) : Except Exception (List Block) :=
  ((paragraphs text).filter fun block =>
    strip block ≠ [] ∧ ¬notRunning.isSuffixOf block).mapM
      fun block => parseBlock (block.splitOn '\n')

/-- `_parse_timed_blocks`. -/
def parseTimedBlocks (file : Bytes) : Except Exception (List Block) :=
  decodeUtf8 file >>= timedBlocks

/-- The lines of a file opened in binary mode, each with its end. -/
def fileLines : Bytes → List Bytes
  | [] => []
  | byte :: rest =>
      if byte = 10 then [byte] :: fileLines rest
      else
        match fileLines rest with
        | [] => [[byte]]
        | line :: lines => (byte :: line) :: lines

/-- `_iter_parse_timed_blocks` from a line on, with the lines of the block read
so far: the blocks it yields and the exception that ends it, if any. -/
def iterTimedBlocksFrom (block : List Text) :
    List Bytes → List Block × Option Exception
  | [] =>
      if block = [] then ([], none)
      else if (block.getLast?.any fun line => notRunning.isSuffixOf line) then
        ([], none)
      else
        match parseBlock block with
        | .ok parsed => ([parsed], none)
        | .error exception => ([], some exception)
  | line :: lines =>
      match Library.Utf8.decode line with
      | none => ([], some .unicodeDecodeError)
      | some text =>
          if text = ['\n'] then
            if block = [] then ([], none)
            else if (block.getLast?.any fun line => notRunning.isSuffixOf line) then
              iterTimedBlocksFrom [] lines
            else
              match parseBlock block with
              | .ok parsed =>
                  let (blocks, exception) := iterTimedBlocksFrom [] lines
                  (parsed :: blocks, exception)
              | .error exception => ([], some exception)
          else
            iterTimedBlocksFrom (block ++ [strip text]) lines

/-- `_iter_parse_timed_blocks`. -/
def iterParseTimedBlocks (file : Bytes) : List Block × Option Exception :=
  iterTimedBlocksFrom [] (fileLines file)

/-! ## Logs as the collector writes them -/

/-- A frame as the sampling loop writes it: the time, the lines, an empty line. -/
def frameText (frame : Block) : Text :=
  unlines (decimal frame.1 :: frame.2) ++ ['\n']

/-- The text of a log. -/
def logText (frames : List Block) : Text :=
  frames.flatMap frameText

/-- A log, whose lines may be any bytes. -/
def logBytes (frames : List (Int × List Bytes)) : Bytes :=
  frames.flatMap fun frame =>
    Library.Utf8.encode (decimal frame.1) ++ [10] ++
      frame.2.flatMap (· ++ [10]) ++ [10]

/-- A line of a log: not empty and without line ends. -/
def Loggable (line : Bytes) : Prop :=
  line ≠ [] ∧ 10 ∉ line

/-- The parsers strip parentheses from both ends of a command name. -/
def IsParen (c : Char) : Prop :=
  c = '(' ∨ c = ')'

/-- Decode the lines of a frame. -/
def decodeFrame (frame : Int × List Bytes) : Option Block :=
  (frame.2.mapM Library.Utf8.decode).map fun lines => (frame.1, lines)

/-- Decoding a line and what follows. -/
theorem decode_line (line rest : Bytes) :
    Library.Utf8.decode (line ++ 10 :: rest) =
      (Library.Utf8.decode line).bind fun text =>
        (Library.Utf8.decode rest).map fun behind => text ++ '\n' :: behind :=
  Library.Utf8.decode_append_cons (c := '\n') (by decide) line rest

/-- Decoding lines and what follows. -/
theorem decode_lines (lines : List Bytes) (rest : Bytes) :
    Library.Utf8.decode (lines.flatMap (· ++ [10]) ++ rest) =
      (lines.mapM Library.Utf8.decode).bind fun texts =>
        (Library.Utf8.decode rest).map fun behind => unlines texts ++ behind := by
  induction lines with
  | nil => simp [unlines]
  | cons line lines inductionHypothesis =>
      simp only [List.flatMap_cons, List.append_assoc, List.cons_append,
        List.nil_append]
      rw [decode_line, inductionHypothesis, List.mapM_cons]
      cases Library.Utf8.decode line with
      | none => rfl
      | some text =>
          cases lines.mapM Library.Utf8.decode with
          | none => rfl
          | some texts =>
              cases Library.Utf8.decode rest <;> simp [unlines]

/-- Decoding a frame and what follows. -/
theorem decode_frame (frame : Int × List Bytes) (rest : Bytes) :
    Library.Utf8.decode (logBytes [frame] ++ rest) =
      (decodeFrame frame).bind fun block =>
        (Library.Utf8.decode rest).map fun behind => frameText block ++ behind := by
  have opened : logBytes [frame] ++ rest = Library.Utf8.encode (decimal frame.1) ++
      10 :: (frame.2.flatMap (· ++ [10]) ++ ([] ++ 10 :: rest)) := by
    simp [logBytes]
  rw [opened, decode_line, decode_lines, decode_line, decodeFrame]
  simp only [Library.Utf8.decode_encode]
  cases frame.2.mapM Library.Utf8.decode with
  | none => rfl
  | some texts =>
      cases Library.Utf8.decode rest <;> simp [frameText, unlines, Library.Utf8.decode]

/-- Decoding a log. -/
theorem decode_logBytes (frames : List (Int × List Bytes)) :
    Library.Utf8.decode (logBytes frames) =
      (frames.mapM decodeFrame).map logText := by
  induction frames with
  | nil => rfl
  | cons frame frames inductionHypothesis =>
      have opened : logBytes (frame :: frames) = logBytes [frame] ++ logBytes frames := by
        simp [logBytes]
      rw [opened, decode_frame, inductionHypothesis, List.mapM_cons]
      cases decodeFrame frame with
      | none => rfl
      | some block => cases frames.mapM decodeFrame <;> simp [logText]

/-- An encoded text without line ends has none. -/
theorem newline_not_mem_encode {text : Text} (noEnd : '\n' ∉ text) :
    10 ∉ Library.Utf8.encode text :=
  mt (Library.Utf8.mem_encode (c := '\n') (by decide)).mp noEnd

/-- A text that is not empty is not encoded as nothing. -/
theorem encode_ne_nil {text : Text} (nonempty : text ≠ []) :
    Library.Utf8.encode text ≠ [] := by
  intro empty
  exact nonempty
    (Library.Utf8.encode_injective (empty.trans Library.Utf8.encode_nil.symm))

/-- A time is a line of a log. -/
theorem loggable_decimal (time : Int) :
    Loggable (Library.Utf8.encode (decimal time)) :=
  ⟨encode_ne_nil (Library.Text.decimal_ne_nil time),
    newline_not_mem_encode (Library.Text.not_mem_decimal rfl (by decide) time)⟩

/-- A decoded line is not empty and has no line ends. -/
theorem loggable_of_decode
    {line : Bytes}
    {text : Text}
    (loggable : Loggable line)
    (decoded : Library.Utf8.decode line = some text) :
    text ≠ [] ∧ '\n' ∉ text := by
  rw [Library.Utf8.decode_eq_some] at decoded
  subst decoded
  refine ⟨fun empty => loggable.1 (by simp [empty]), fun member => ?_⟩
  obtain ⟨before, behind, rfl⟩ := List.append_of_mem member
  apply loggable.2
  have newline : String.utf8EncodeChar '\n' = [10] :=
    Library.Utf8.encodeChar_of_lt (by decide)
  simp [newline]

/-- The decoded lines of a frame are not empty and have no line ends. -/
theorem loggable_of_decodeFrame
    {frame : Int × List Bytes}
    {block : Block}
    (loggable : ∀ line ∈ frame.2, Loggable line)
    (decoded : decodeFrame frame = some block) :
    block.1 = frame.1 ∧ ∀ text ∈ block.2, text ≠ [] ∧ '\n' ∉ text := by
  obtain ⟨texts, isTexts, rfl⟩ := Option.map_eq_some_iff.mp decoded
  refine ⟨rfl, fun text member => ?_⟩
  obtain ⟨line, inFrame, isText⟩ := Library.exists_of_mem_mapM isTexts member
  exact loggable_of_decode (loggable line inFrame) isText

/-- A line is the first one of the file. -/
theorem fileLines_line
    {line : Bytes}
    (noEnd : 10 ∉ line)
    (rest : Bytes) :
    fileLines (line ++ 10 :: rest) = (line ++ [10]) :: fileLines rest := by
  induction line with
  | nil => simp [fileLines]
  | cons byte line inductionHypothesis =>
      have other : byte ≠ 10 := fun same => noEnd (by simp [same])
      rw [List.cons_append, fileLines, if_neg other,
        inductionHypothesis fun member => noEnd (List.mem_cons_of_mem _ member)]
      rfl

/-- `_iter_parse_timed_blocks` reads the lines of a block. -/
theorem iterTimedBlocksFrom_lines
    {lines : List Bytes}
    (loggable : ∀ line ∈ lines, Loggable line)
    (block : List Text)
    (rest : Bytes) :
    iterTimedBlocksFrom block (fileLines (lines.flatMap (· ++ [10]) ++ rest)) =
      match lines.mapM Library.Utf8.decode with
      | some texts =>
          iterTimedBlocksFrom (block ++ texts.map strip) (fileLines rest)
      | none => ([], some .unicodeDecodeError) := by
  induction lines generalizing block with
  | nil => simp
  | cons line lines inductionHypothesis =>
      have opened : (line :: lines).flatMap (· ++ [10]) ++ rest =
          line ++ 10 :: (lines.flatMap (· ++ [10]) ++ rest) := by
        simp
      have isLoggable := loggable line (by simp)
      have decodedEnd : Library.Utf8.decode (line ++ [10]) =
          (Library.Utf8.decode line).map (· ++ ['\n']) := by
        rw [decode_line]
        cases Library.Utf8.decode line <;> rfl
      rw [opened, fileLines_line isLoggable.2, iterTimedBlocksFrom, decodedEnd,
        List.mapM_cons]
      cases decoded : Library.Utf8.decode line with
      | none => rfl
      | some text =>
          have nonempty : text ++ ['\n'] ≠ ['\n'] := by
            simpa using (loggable_of_decode isLoggable decoded).1
          have stripped : strip (text ++ ['\n']) = strip text :=
            Library.Text.stripBy_concat rfl text
          simp only [Option.map_some, if_neg nonempty, stripped]
          rw [inductionHypothesis fun other member =>
            loggable other (List.mem_cons_of_mem _ member)]
          cases lines.mapM Library.Utf8.decode <;> simp

/-- A stripped line does not end in a line end. -/
theorem not_suffix_strip (text : Text) : ¬notRunning.isSuffixOf (strip text) := by
  intro isSuffix
  obtain ⟨before, isLine⟩ := List.isSuffixOf_iff_suffix.mp isSuffix
  obtain ⟨message, isMessage⟩ := exists_notRunning_eq
  have endsLine : '\n' ∈ (strip text).getLast? := by
    rw [← isLine, isMessage]
    simp
  exact Library.Text.not_drop_of_mem_getLast?_stripBy endsLine rfl

/-- So no block is left out. -/
theorem getLast?_any_notRunning (lines : List Text) :
    ((lines.map strip).getLast?.any fun line => notRunning.isSuffixOf line) = false := by
  rw [Option.any_eq_false]
  intro line isLast
  obtain ⟨text, -, rfl⟩ := List.mem_map.mp (List.mem_of_mem_getLast? isLast)
  exact Bool.eq_false_iff.mpr (not_suffix_strip text)

/-- `_iter_parse_timed_blocks` yields a block at an empty line. -/
theorem iterTimedBlocksFrom_end
    (time : Int)
    (texts : List Text)
    (rest : List Bytes) :
    iterTimedBlocksFrom ((decimal time :: texts).map strip) ([10] :: rest) =
      ((time, texts.map strip) :: (iterTimedBlocksFrom [] rest).1,
        (iterTimedBlocksFrom [] rest).2) := by
  have newline : Library.Utf8.decode [10] = some ['\n'] :=
    Library.Utf8.decode_eq_some.mpr rfl
  rw [iterTimedBlocksFrom, newline]
  simp only [if_true, getLast?_any_notRunning]
  simp [parseBlock, Library.Text.strip_decimal]

/-- `_iter_parse_timed_blocks` reads a frame and what is behind it, unless a line of the
frame is no UTF-8. -/
theorem iterTimedBlocksFrom_logBytes
    {frame : Int × List Bytes}
    (loggable : ∀ line ∈ frame.2, Loggable line)
    (rest : Bytes) :
    iterTimedBlocksFrom [] (fileLines (logBytes [frame] ++ rest)) =
      match decodeFrame frame with
      | some block => ((block.1, block.2.map strip) ::
          (iterTimedBlocksFrom [] (fileLines rest)).1,
            (iterTimedBlocksFrom [] (fileLines rest)).2)
      | none => ([], some .unicodeDecodeError) := by
  have opened : logBytes [frame] ++ rest =
      (Library.Utf8.encode (decimal frame.1) :: frame.2).flatMap (· ++ [10]) ++
        ([] ++ 10 :: rest) := by
    simp [logBytes]
  have loggableLines : ∀ line ∈ Library.Utf8.encode (decimal frame.1) :: frame.2,
      Loggable line := by
    rw [List.forall_mem_cons]
    exact ⟨loggable_decimal frame.1, loggable⟩
  rw [opened, iterTimedBlocksFrom_lines loggableLines, fileLines_line (by simp),
    List.mapM_cons, decodeFrame, Library.Utf8.decode_encode]
  cases decoded : frame.2.mapM Library.Utf8.decode with
  | none => rfl
  | some texts =>
      simp only [Option.map_some, Option.pure_def, Option.bind_eq_bind, Option.bind_some,
        List.nil_append]
      rw [iterTimedBlocksFrom_end]

/-- `_iter_parse_timed_blocks` reads back a log with its lines stripped, unless
a line is no UTF-8. -/
theorem iterParseTimedBlocks_logBytes
    {frames : List (Int × List Bytes)}
    (loggable : ∀ frame ∈ frames, ∀ line ∈ frame.2, Loggable line) :
    match frames.mapM decodeFrame with
    | some blocks => iterParseTimedBlocks (logBytes frames) =
        (blocks.map fun block => (block.1, block.2.map strip), none)
    | none => (iterParseTimedBlocks (logBytes frames)).2 =
        some .unicodeDecodeError := by
  unfold iterParseTimedBlocks
  induction frames with
  | nil => rfl
  | cons frame frames inductionHypothesis =>
      have readRest := inductionHypothesis fun other member =>
        loggable other (List.mem_cons_of_mem _ member)
      have opened : logBytes (frame :: frames) = logBytes [frame] ++ logBytes frames := by
        simp [logBytes]
      rw [opened, iterTimedBlocksFrom_logBytes (loggable frame (by simp)), List.mapM_cons]
      cases decoded : decodeFrame frame with
      | none => rfl
      | some block =>
          cases restDecoded : frames.mapM decodeFrame with
          | none => simpa [restDecoded] using readRest
          | some blocks =>
              rw [restDecoded] at readRest
              simp only [readRest]
              rfl

end Parsing
end Bootchart
