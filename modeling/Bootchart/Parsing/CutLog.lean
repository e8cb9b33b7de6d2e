import Bootchart.Parsing.BlockText

/-!
# Logs that are cut

A buffer that runs full cuts a log at any byte. What was written whole before the cut is
read back; of the frame in which the cut falls, one more block may be read.
-/

namespace Bootchart
namespace Parsing

open Library (Text)
open Library.Text (readInt strip unlines decimal)
open Library.Utf8 (encode)

/-- The bytes that are left of a log. -/
def cutLog (frames : List Block) (length : Nat) : Bytes :=
  (encode (logText frames)).take length

/-- The number of bytes of a log. -/
def logSize (frames : List Block) : Nat :=
  (encode (logText frames)).length

/-- What may be read of a log of which some bytes are left: all frames that lie wholly
before the cut, each with its lines in a normal form, and then at most one block, that
carries something of the next frame. -/
def ReadsCut
    (normal : Text → Text)
    (carries : Block → Nat → Block → Prop)
    (frames : List Block)
    (length : Nat)
    (blocks : List Block) : Prop :=
  ∃ (whole rest : List Block) (further : Option Block), frames = whole ++ rest ∧
    logSize whole ≤ length ∧
    (∀ next ∈ rest.head?, length < logSize (whole ++ [next])) ∧
    blocks = (whole.map fun frame => (frame.1, frame.2.map normal)) ++ further.toList ∧
    ∀ block ∈ further, ∃ next ∈ rest.head?, carries next (length - logSize whole) block

/-- A block carries the time of a frame and a prefix of its lines. -/
def CarriesFrame (next : Block) (_ : Nat) (block : Block) : Prop :=
  block.1 = next.1 ∧ ['\n'].intercalate block.2 <+: unlines next.2

/-- A block carries what is left of a frame: a number of the digits that are left, if the
cut falls into the time, else the time; and a prefix of the lines in their normal form. -/
structure CarriesCut
    (normal : Text → Text)
    (next : Block)
    (length : Nat)
    (block : Block) : Prop where
  /-- The time. -/
  time : if length < (decimal next.1).length then
      readInt ((decimal next.1).take length) = some block.1
    else block.1 = next.1
  /-- The lines. -/
  content : ['\n'].intercalate block.2 <+: unlines (next.2.map normal)

/-! ## One frame -/

/-- The beginning of lines and an empty line: some of the lines, and the beginning of the
next one. -/
theorem exists_of_prefix_blockText
    {lines : List Text}
    {start : Text}
    (isPrefix : start <+: blockText lines)
    (short : start.length < (blockText lines).length) :
    ∃ done last, start = unlines done ++ last ∧
      ((∃ next more, lines = done ++ next :: more ∧ last <+: next) ∨
        (lines = done ∧ last = [])) := by
  induction lines generalizing start with
  | nil =>
      have empty : start = [] := by
        apply List.length_eq_zero_iff.mp
        simpa [blockText] using short
      exact ⟨[], [], by simp [empty], .inr ⟨rfl, rfl⟩⟩
  | cons line lines inductionHypothesis =>
      have opened : blockText (line :: lines) = line ++ '\n' :: blockText lines := by
        simp [blockText]
      rw [opened] at isPrefix short
      by_cases within : start.length ≤ line.length
      · refine ⟨[], start, by simp, .inl ⟨line, lines, rfl, ?_⟩⟩
        exact List.prefix_of_prefix_length_le isPrefix (List.prefix_append _ _) within
      · obtain ⟨count, isCount⟩ : ∃ count, start.length = line.length + (count + 1) :=
          ⟨start.length - line.length - 1, by omega⟩
        have isStart : start = line ++ '\n' :: (blockText lines).take count := by
          rw [List.prefix_iff_eq_take.mp isPrefix, isCount, List.take_length_add_append,
            List.take_succ_cons]
        have shortRest : ((blockText lines).take count).length <
            (blockText lines).length := by
          simp only [List.length_append, List.length_cons] at short
          rw [List.length_take]
          omega
        obtain ⟨done, last, isRest, isLast⟩ :=
          inductionHypothesis (List.take_prefix _ _) shortRest
        refine ⟨line :: done, last, by rw [isStart, isRest]; simp, ?_⟩
        rcases isLast with ⟨next, more, rfl, begins⟩ | ⟨rfl, rfl⟩
        · exact .inl ⟨next, more, rfl, begins⟩
        · exact .inr ⟨rfl, rfl⟩

/-- What is left of a frame: nothing but digits of the time, or the time, some of the lines,
and the beginning of the next one. -/
theorem exists_of_cut_frame
    {frame : Block}
    {length : Nat}
    (short : length < (frameText frame).length) :
    (length ≤ (decimal frame.1).length ∧
        (frameText frame).take length = (decimal frame.1).take length) ∨
      ((decimal frame.1).length < length ∧ ∃ done last,
        (frameText frame).take length = unlines (decimal frame.1 :: done) ++ last ∧
          ((∃ next more, frame.2 = done ++ next :: more ∧ last <+: next) ∨
            (frame.2 = done ∧ last = []))) := by
  have opened : frameText frame = decimal frame.1 ++ '\n' :: blockText frame.2 := by
    simp [frameText, blockText]
  by_cases within : length ≤ (decimal frame.1).length
  · refine .inl ⟨within, ?_⟩
    rw [opened, List.take_append_of_le_length within]
  · refine .inr ⟨Nat.lt_of_not_le within, ?_⟩
    obtain ⟨count, rfl⟩ : ∃ count, length = (decimal frame.1).length + (count + 1) :=
      ⟨length - (decimal frame.1).length - 1, by omega⟩
    have shortRest : ((blockText frame.2).take count).length <
        (blockText frame.2).length := by
      rw [opened] at short
      simp only [List.length_append, List.length_cons] at short
      rw [List.length_take]
      omega
    obtain ⟨done, last, isRest, isLast⟩ :=
      exists_of_prefix_blockText (List.take_prefix _ _) shortRest
    refine ⟨done, last, ?_, isLast⟩
    rw [opened, List.take_length_add_append, List.take_succ_cons, isRest]
    simp

/-- Joined lines are a beginning of the lines with their ends. -/
theorem intercalate_prefix_unlines (lines : List Text) :
    ['\n'].intercalate lines <+: unlines lines := by
  induction lines using List.reverseRecOn with
  | nil => simp
  | append_singleton lines last _ =>
      rw [← unlines_append_eq_intercalate, unlines_append, List.prefix_append_right_inj]
      simp

/-- Lines that begin like those of a frame, joined. -/
theorem intercalate_prefix_of_begins
    {done lines : List Text}
    {last : Text}
    (begins : (∃ next more, lines = done ++ next :: more ∧ last <+: next) ∨
      (lines = done ∧ last = [])) :
    ['\n'].intercalate (done ++ [last]) <+: unlines lines := by
  rw [← unlines_append_eq_intercalate]
  rcases begins with ⟨next, more, rfl, isPrefix⟩ | ⟨rfl, rfl⟩
  · rw [unlines_append, List.prefix_append_right_inj, unlines_cons]
    exact isPrefix.trans (List.prefix_append _ _)
  · exact (List.append_nil _).symm ▸ List.prefix_refl _

/-- The same when all lines are stripped, and an empty line at the end is none. -/
theorem intercalate_prefix_of_begins_strip
    {done lines : List Text}
    {last : Text}
    (begins : (∃ next more, lines = done ++ next :: more ∧ last <+: next) ∨
      (lines = done ∧ last = [])) :
    ['\n'].intercalate ((done ++ lastLine last).map strip) <+:
      unlines (lines.map strip) := by
  by_cases empty : last = []
  · rw [lastLine, if_pos empty, List.append_nil]
    have onlySome : ∃ more, lines = done ++ more := by
      rcases begins with ⟨next, more, rfl, -⟩ | ⟨rfl, -⟩
      · exact ⟨next :: more, rfl⟩
      · exact ⟨[], by simp⟩
    obtain ⟨more, rfl⟩ := onlySome
    rw [List.map_append, unlines_append]
    exact (intercalate_prefix_unlines _).trans (List.prefix_append _ _)
  · rw [lastLine, if_neg empty, List.map_append]
    apply intercalate_prefix_of_begins
    rcases begins with ⟨next, more, rfl, isPrefix⟩ | ⟨-, rfl⟩
    · exact .inl ⟨strip next, more.map strip, by simp,
        Library.Text.stripBy_prefix _ isPrefix⟩
    · exact absurd rfl empty

/-- The lines of a frame up to a cut. -/
theorem isLine_of_begins
    {frame : Block}
    {done : List Text}
    {last : Text}
    (areLines : ∀ line ∈ frame.2, IsLine line)
    (begins : (∃ next more, frame.2 = done ++ next :: more ∧ last <+: next) ∨
      (frame.2 = done ∧ last = [])) :
    (∀ line ∈ done, IsLine line) ∧ '\n' ∉ last := by
  rcases begins with ⟨next, more, isLines, isPrefix⟩ | ⟨rfl, rfl⟩
  · rw [isLines] at areLines
    refine ⟨fun line member => ?_, fun member => ?_⟩
    · exact areLines line (List.mem_append_left _ member)
    · exact (areLines next (by simp)).2 (isPrefix.subset member)
  · exact ⟨areLines, List.not_mem_nil⟩

section Cut

variable {frame : Block} {length : Nat}

/-- What is left of the time is a number, unless nothing is left. -/
theorem time_of_cut
    (notNegative : 0 ≤ frame.1)
    (within : length ≤ (decimal frame.1).length)
    (something : (decimal frame.1).take length ≠ []) :
    ∃ time, readInt ((decimal frame.1).take length) = some time ∧
      if length < (decimal frame.1).length then
        readInt ((decimal frame.1).take length) = some time
      else time = frame.1 := by
  by_cases cut : length < (decimal frame.1).length
  · have plain : ∀ c ∈ (decimal frame.1).take length, c.isDigit := by
      intro c member
      have inDecimal := List.mem_of_mem_take member
      unfold decimal at inDecimal
      rw [if_neg (Int.not_lt.mpr notNegative)] at inDecimal
      exact Nat.isDigit_of_mem_toDigits (by decide) (by decide) inDecimal
    obtain ⟨time, isTime⟩ := Library.Text.exists_readInt_digits something plain
    refine ⟨time, isTime, ?_⟩
    rw [if_pos cut]
    exact isTime
  · have whole : length = (decimal frame.1).length := le_antisymm within (not_lt.mp cut)
    refine ⟨frame.1, ?_, by rw [if_neg cut]⟩
    rw [whole, List.take_length, Library.Text.readInt_decimal]

/-- `_parse_timed_blocks` reads at most one block of a frame that is cut. -/
theorem timedBlocks_cut
    (notNegative : 0 ≤ frame.1)
    (areLines : ∀ line ∈ frame.2, IsLine line)
    (short : length < (frameText frame).length) :
    ∃ further : Option Block, timedBlocks ((frameText frame).take length) =
        .ok further.toList ∧ ∀ block ∈ further, CarriesCut id frame length block := by
  rcases exists_of_cut_frame short with ⟨within, isStart⟩ | ⟨beyond, done, last, isStart,
    begins⟩
  · rw [isStart]
    by_cases nothing : (decimal frame.1).take length = []
    · exact ⟨none, by rw [nothing]; rfl, by simp⟩
    · obtain ⟨time, isTime, isRight⟩ := time_of_cut notNegative within nothing
      refine ⟨some (time, []), ?_, ?_⟩
      · rw [timedBlocks_time nothing (List.take_prefix _ _), parseBlock, isTime]
        rfl
      · rintro block ⟨⟩
        exact ⟨isRight, by simp⟩
  · obtain ⟨linesBefore, noEnd⟩ := isLine_of_begins areLines begins
    rw [isStart, timedBlocks_begun frame.1 linesBefore noEnd]
    split
    · exact ⟨none, rfl, by simp⟩
    · refine ⟨some (frame.1, done ++ [last]), rfl, ?_⟩
      rintro block ⟨⟩
      refine ⟨by rw [if_neg (not_lt.mpr beyond.le)], ?_⟩
      rw [List.map_id]
      exact intercalate_prefix_of_begins begins

/-- `_iter_parse_timed_blocks` reads at most one block of a frame that is cut. -/
theorem iterTimedBlocksFrom_cut
    (notNegative : 0 ≤ frame.1)
    (areLines : ∀ line ∈ frame.2, IsLine line)
    (short : length < (frameText frame).length) :
    ∃ further : Option Block,
      iterTimedBlocksFrom [] (fileLines (encode ((frameText frame).take length))) =
        (further.toList, none) ∧
      ∀ block ∈ further, CarriesCut strip frame length block := by
  rcases exists_of_cut_frame short with ⟨within, isStart⟩ | ⟨beyond, done, last, isStart,
    begins⟩
  · have noEnd : '\n' ∉ (decimal frame.1).take length := fun member =>
      Library.Text.not_mem_decimal rfl (by decide) frame.1 (List.mem_of_mem_take member)
    have noLines : ∀ line ∈ ([] : List Text), IsLine line := by simp
    have read := iterTimedBlocksFrom_last noLines noEnd
    rw [unlines_nil, List.nil_append, List.nil_append] at read
    rw [isStart, read]
    by_cases nothing : (decimal frame.1).take length = []
    · exact ⟨none, by rw [lastLine, if_pos nothing, if_pos rfl]; rfl, by simp⟩
    · obtain ⟨time, isTime, isRight⟩ := time_of_cut notNegative within nothing
      refine ⟨some (time, []), ?_, ?_⟩
      · rw [lastLine, if_neg nothing, if_neg (by simp), List.map_singleton, parseBlock,
          Library.Text.readInt_strip, isTime]
        rfl
      · rintro block ⟨⟩
        exact ⟨isRight, by simp⟩
  · obtain ⟨linesBefore, noEnd⟩ := isLine_of_begins areLines begins
    have withTime := isLine_frame frame.1 linesBefore
    rw [isStart, iterTimedBlocksFrom_last withTime noEnd, if_neg (by simp),
      List.cons_append, List.map_cons, parseBlock, Library.Text.readInt_strip,
      Library.Text.readInt_decimal]
    refine ⟨some (frame.1, (done ++ lastLine last).map strip), rfl, ?_⟩
    rintro block ⟨⟩
    refine ⟨by rw [if_neg (not_lt.mpr beyond.le)], ?_⟩
    exact intercalate_prefix_of_begins_strip begins

end Cut

/-! ## All frames -/

/-- A frame of a log: a time and lines of ASCII characters. -/
structure IsFrame (frame : Block) : Prop where
  /-- The uptime is not negative. -/
  notNegative : 0 ≤ frame.1
  /-- The lines are not empty and have no line ends in them. -/
  areLines : ∀ line ∈ frame.2, IsLine line
  /-- Their characters are ASCII. -/
  ascii : ∀ line ∈ frame.2, ∀ c ∈ line, c.toNat < 128

/-- All characters of a frame are ASCII. -/
theorem IsFrame.ascii_frameText
    {frame : Block}
    (isFrame : IsFrame frame) : ∀ c ∈ frameText frame, c.toNat < 128 := by
  have asciiLines : ∀ line ∈ decimal frame.1 :: frame.2, ∀ c ∈ line, c.toNat < 128 := by
    rw [List.forall_mem_cons]
    exact ⟨Library.Text.ascii_decimal frame.1, isFrame.ascii⟩
  intro c member
  unfold frameText unlines at member
  rcases List.mem_append.mp member with inLines | isEnd
  · obtain ⟨line, inFrame, inLine⟩ := List.mem_flatMap.mp inLines
    rcases List.mem_append.mp inLine with inText | isEnd
    · exact asciiLines line inFrame c inText
    · rw [List.mem_singleton.mp isEnd]
      decide
  · rw [List.mem_singleton.mp isEnd]
    decide

/-- All characters of a log are ASCII. -/
theorem ascii_logText
    {frames : List Block}
    (areFrames : ∀ frame ∈ frames, IsFrame frame) :
    ∀ c ∈ logText frames, c.toNat < 128 := by
  intro c member
  obtain ⟨frame, inLog, inFrame⟩ := List.mem_flatMap.mp member
  exact (areFrames frame inLog).ascii_frameText c inFrame

/-- The size of a log, frame by frame. -/
theorem logSize_cons
    {frame : Block}
    (isFrame : IsFrame frame)
    (frames : List Block) :
    logSize (frame :: frames) = (frameText frame).length + logSize frames := by
  unfold logSize logText
  rw [List.flatMap_cons, Library.Utf8.encode_append, List.length_append,
    Library.Utf8.length_encode isFrame.ascii_frameText]

/-- What reads frame by frame, and at most one block of a frame that is cut, reads so of a
log that is cut. -/
theorem exists_readsCut
    (reads : Text → List Block → Prop)
    (normal : Text → Text)
    (carries : Block → Nat → Block → Prop)
    {frames : List Block}
    (areFrames : ∀ frame ∈ frames, IsFrame frame)
    (nothing : reads [] [])
    (whole : ∀ frame, IsFrame frame → ∀ rest blocks, reads rest blocks →
      reads (frameText frame ++ rest) ((frame.1, frame.2.map normal) :: blocks))
    (cut : ∀ frame, IsFrame frame → ∀ length < (frameText frame).length,
      ∃ further : Option Block, reads ((frameText frame).take length) further.toList ∧
        ∀ block ∈ further, carries frame length block)
    (length : Nat) :
    ∃ blocks, reads ((logText frames).take length) blocks ∧
      ReadsCut normal carries frames length blocks := by
  induction frames generalizing length with
  | nil =>
      refine ⟨[], by simpa [logText] using nothing, [], [], none, rfl, ?_⟩
      simp [logSize, logText]
  | cons frame frames inductionHypothesis =>
      rw [List.forall_mem_cons] at areFrames
      have opened : logText (frame :: frames) = frameText frame ++ logText frames := by
        simp [logText]
      rw [opened]
      by_cases short : length < (frameText frame).length
      · obtain ⟨further, isRead, carried⟩ := cut frame areFrames.1 length short
        refine ⟨further.toList, ?_, [], frame :: frames, further, rfl, ?_⟩
        · rwa [List.take_append_of_le_length short.le]
        · refine ⟨by simp [logSize, logText], ?_, rfl, ?_⟩
          · rintro next ⟨⟩
            rw [List.nil_append, logSize_cons areFrames.1]
            omega
          · intro block member
            exact ⟨frame, rfl, carried block member⟩
      · obtain ⟨count, rfl⟩ : ∃ count, length = (frameText frame).length + count :=
          ⟨length - (frameText frame).length, by omega⟩
        obtain ⟨blocks, isRead, before, rest, further, isLog, fits, ends, isBlocks,
          carried⟩ := inductionHypothesis areFrames.2 count
        refine ⟨(frame.1, frame.2.map normal) :: blocks, ?_, frame :: before, rest, further,
          by rw [isLog]; rfl, ?_⟩
        · rw [List.take_length_add_append]
          exact whole frame areFrames.1 _ _ isRead
        · rw [logSize_cons areFrames.1, Nat.add_sub_add_left]
          refine ⟨by omega, fun next isNext => ?_, by rw [isBlocks]; rfl, carried⟩
          have beyond := ends next isNext
          rw [List.cons_append, logSize_cons areFrames.1]
          omega

/-- Of a log that is cut at any byte, `_parse_timed_blocks` and `_iter_parse_timed_blocks`
read all frames before the cut and at most one more block, with a number of the digits that
are left when the cut falls into a time. -/
theorem readsCut_parse_iterParse
    {frames : List Block}
    (areFrames : ∀ frame ∈ frames, IsFrame frame)
    (length : Nat) :
    (∃ blocks, parseTimedBlocks (cutLog frames length) = .ok blocks ∧
      ReadsCut id (CarriesCut id) frames length blocks) ∧
    ∃ blocks, iterParseTimedBlocks (cutLog frames length) = (blocks, none) ∧
      ReadsCut strip (CarriesCut strip) frames length blocks := by
  have isText : cutLog frames length = encode ((logText frames).take length) :=
    Library.Utf8.take_encode (ascii_logText areFrames) length
  rw [isText]
  constructor
  · obtain ⟨blocks, isRead, readsCut⟩ := exists_readsCut
      (fun text blocks => timedBlocks text = .ok blocks) id (CarriesCut id) areFrames rfl
      (fun frame isFrame rest blocks isRead => by
        rw [List.map_id, timedBlocks_frameText isFrame.areLines, isRead]
        rfl)
      (fun frame isFrame length short =>
        timedBlocks_cut isFrame.notNegative isFrame.areLines short) length
    refine ⟨blocks, ?_, readsCut⟩
    rw [parseTimedBlocks, decodeUtf8, Library.Utf8.decode_encode]
    exact isRead
  · exact exists_readsCut
      (fun text blocks =>
        iterTimedBlocksFrom [] (fileLines (encode text)) = (blocks, none))
      strip (CarriesCut strip) areFrames rfl
      (fun frame isFrame rest blocks isRead =>
        iterTimedBlocksFrom_frameText isFrame.areLines isRead)
      (fun frame isFrame length short =>
        iterTimedBlocksFrom_cut isFrame.notNegative isFrame.areLines short) length

/-- A log that is cut in its second frame. -/
theorem readsCut_shortLog :
    (∃ blocks, parseTimedBlocks (cutLog [(12, ["a".toList]), (345, [])] 7) = .ok blocks ∧
      ReadsCut id (CarriesCut id) [(12, ["a".toList]), (345, [])] 7 blocks) ∧
    ∃ blocks, iterParseTimedBlocks (cutLog [(12, ["a".toList]), (345, [])] 7) =
        (blocks, none) ∧
      ReadsCut strip (CarriesCut strip) [(12, ["a".toList]), (345, [])] 7 blocks :=
  readsCut_parse_iterParse
    (by
      intro frame member
      rcases List.mem_cons.mp member with rfl | isSecond
      · exact ⟨by decide, by unfold IsLine; decide, by simp⟩
      · rw [List.mem_singleton.mp isSecond]
        exact ⟨by decide, by simp, by simp⟩) 7

/-- When the cut falls into the time of a frame, another time is read: of a frame at time
12 that is cut behind its first digit, a frame at time 1. And even of a log that is not cut,
`_iter_parse_timed_blocks` reads lines without the spaces around them. -/
theorem not_carriesFrame_digits :
    (parseTimedBlocks (cutLog [(12, [])] 1) = .ok [(1, [])] ∧
      ¬ReadsCut id CarriesFrame [(12, [])] 1 [(1, [])]) ∧
    iterParseTimedBlocks (cutLog [(1, [[' ', 'a']])] 6) = ([(1, [['a']])], none) ∧
      ¬ReadsCut id CarriesFrame [(1, [[' ', 'a']])] 6 [(1, [['a']])] := by
  refine ⟨⟨by decide +kernel, ?_⟩, by decide +kernel, ?_⟩
  · rintro ⟨whole, rest, further, isLog, fits, -, isBlocks, carried⟩
    cases whole with
    | nil =>
        rw [List.map_nil, List.nil_append] at isBlocks
        obtain rfl : further = some (1, []) := by
          cases further <;> simp at isBlocks ⊢
          exact isBlocks.symm
        obtain ⟨next, isNext, sameTime, -⟩ := carried _ rfl
        rw [List.nil_append] at isLog
        rw [← isLog] at isNext
        cases isNext
        exact absurd sameTime (by decide)
    | cons frame whole =>
        obtain ⟨rfl, -⟩ := List.cons.inj isLog
        simp at isBlocks
  · rintro ⟨whole, rest, further, isLog, -, beyond, isBlocks, -⟩
    cases whole with
    | nil =>
        rw [List.nil_append] at isLog
        rw [← isLog] at beyond
        exact absurd (beyond _ rfl) (by decide +kernel)
    | cons frame whole =>
        obtain ⟨rfl, -⟩ := List.cons.inj isLog
        simp at isBlocks

end Parsing
end Bootchart
