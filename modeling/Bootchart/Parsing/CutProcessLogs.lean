import Bootchart.Parsing.LeftOfLog
import Bootchart.Parsing.ProcPsLine
import Bootchart.Parsing.TaskstatsLine

/-!
# Process logs that are cut

`_parse_taskstats_log` and `_parse_proc_ps_log` skip what is left of a last line only if it
has too few tokens. Of what has enough of them they convert tokens that are not there whole,
or at all.
-/

namespace Bootchart
namespace Parsing

open Library (Text)
open Library.Text (readInt strip unlines decimal)
open Library.Utf8 (encode decode)
open Collector (Taskstats Pid taskstatText)

/-! ## The readers of blocks -/

/-- Lines, of which the last does not end as the message that something is not running, are not
left out. -/
theorem not_suffix_unlines_append
    {lines : List Text}
    (areLines : ∀ line ∈ lines, IsLine line)
    (running : ∀ line ∈ lines, 'g' ∉ line.getLast?)
    {last : Text}
    (noEnd : '\n' ∉ last) :
    ¬notRunning.isSuffixOf (unlines lines ++ last) := by
  intro isSuffix
  obtain ⟨before, isText⟩ := List.isSuffixOf_iff_suffix.mp isSuffix
  have isMessage : notRunning = " not runnin".toList ++ ['g', '\n'] := by decide
  rw [isMessage] at isText
  cases last using List.reverseRecOn with
  | append_singleton last c =>
      have sameEnd := congrArg List.getLast? isText
      rw [← List.append_assoc, ← List.append_assoc, List.getLast?_concat] at sameEnd
      obtain rfl : '\n' = c := by simpa using sameEnd
      exact noEnd (by simp)
  | nil =>
      cases lines using List.reverseRecOn with
      | nil =>
          have sameLength := congrArg List.length isText
          simp at sameLength
      | append_singleton lines line =>
          have isLine := areLines line (by simp)
          rw [unlines_append, unlines_cons, unlines_nil, List.append_nil] at isText
          have opened : (before ++ " not runnin".toList ++ ['g']) ++ ['\n'] =
              (unlines lines ++ line) ++ ['\n'] := by
            simpa using isText
          have sameEnd := congrArg List.getLast? (List.append_inj_left' opened rfl)
          rw [List.getLast?_concat, List.getLast?_append_of_ne_nil _ isLine.1] at sameEnd
          exact running line (by simp) sameEnd.symm

/-- A text ends in a character below 128 if and only if its encoding ends in it. -/
theorem getLast?_encode {c : Char} (ascii : c.toNat < 128) {text : Text}
    (isLast : c ∈ text.getLast?) : UInt8.ofNat c.toNat ∈ (encode text).getLast? := by
  obtain ⟨before, rfl⟩ := List.getLast?_eq_some_iff.mp isLast
  rw [Library.Utf8.encode_append, Library.Utf8.encode_cons, Library.Utf8.encode_nil,
    Library.Utf8.encodeChar_of_lt ascii, List.append_nil, List.getLast?_concat]
  rfl

/-- Neither a time nor lines that do not end in a character end in it when they are
decoded. -/
theorem running_frame
    (time : Int)
    {lines : List Bytes}
    (running : ∀ line ∈ lines, 103 ∉ line.getLast?)
    {texts : List Text}
    (areTexts : lines.mapM decode = some texts) :
    ∀ text ∈ decimal time :: texts, 'g' ∉ text.getLast? := by
  rw [List.forall_mem_cons]
  constructor
  · intro isLast
    exact Library.Text.not_mem_decimal rfl (by decide) time (List.mem_of_getLast? isLast)
  · intro text member isLast
    obtain ⟨line, inLines, isText⟩ := Library.exists_of_mem_mapM areTexts member
    apply running line inLines
    rw [← Library.Utf8.decode_eq_some.mp isText]
    exact getLast?_encode (c := 'g') (by decide) isLast

/-- The files that `_parse_timed_blocks` reads. -/
theorem parseTimedBlocks_eq_ok {file : Bytes} {blocks : List Block} :
    parseTimedBlocks file = .ok blocks ↔
      ∃ text, decode file = some text ∧ timedBlocks text = .ok blocks := by
  rw [parseTimedBlocks, Library.bind_eq_ok]
  refine exists_congr fun text => and_congr_left' ?_
  rw [decodeUtf8]
  cases decode file <;> simp

/-- `_parse_timed_blocks`. -/
theorem readsBlocks_parseTimedBlocks :
    ReadsBlocks (fun file blocks => parseTimedBlocks file = .ok blocks) id
      (fun text => [text]) where
  nothing blocks := by
    have isNothing : parseTimedBlocks [] = .ok [] := rfl
    rw [isNothing, Except.ok.injEq, eq_comm]
  frame {frame} loggable rest blocks := by
    simp only [parseTimedBlocks_eq_ok, decode_frame, List.map_id]
    cases decoded : decodeFrame frame with
    | none => simp
    | some block =>
        have areLines := (loggable_of_decodeFrame loggable decoded).2
        cases decode rest with
        | none => simp
        | some text =>
            simp only [Option.bind_some, Option.map_some, Option.some.injEq, exists_eq_left',
              timedBlocks_frameText areLines, Library.map_eq_ok]
            simp [eq_comm]
  time {time text} nonempty isPart blocks := by
    rw [parseTimedBlocks_eq_ok]
    simp only [Library.Utf8.decode_encode, Option.some.injEq, exists_eq_left',
      timedBlocks_time nonempty isPart, Library.map_eq_ok, parseBlock]
    cases readInt text with
    | none => simp
    | some value => simp [eq_comm]
  lines frame loggable running {start} noEnd blocks := by
    rw [parseTimedBlocks_eq_ok, decode_line, decode_lines, Library.Utf8.decode_encode]
    cases areTexts : frame.2.mapM decode with
    | none => simp [decodeFrame, areTexts]
    | some texts =>
        cases isText : decode start with
        | none => simp
        | some text =>
            have isFrame : decodeFrame frame = some (frame.1, texts) := by
              rw [decodeFrame, areTexts]
              rfl
            have areLines := (loggable_of_decodeFrame loggable isFrame).2
            have noEndText : '\n' ∉ text := by
              rw [← Library.Utf8.decode_eq_some.mp isText] at noEnd
              exact mt (Library.Utf8.mem_encode (c := '\n') (by decide)).mpr noEnd
            have notLeftOut := not_suffix_unlines_append (isLine_frame frame.1 areLines)
              (running_frame frame.1 running areTexts) noEndText
            have isRead := timedBlocks_begun frame.1 areLines noEndText
            rw [if_neg notLeftOut, unlines_cons, List.append_assoc, List.cons_append] at isRead
            simp [isFrame, isRead, eq_comm]
  last text := .inl rfl

/-- `_iter_parse_timed_blocks` reads the bytes behind the lines of a block. -/
theorem iterTimedBlocksFrom_start
    (lines : List Text)
    {start : Bytes}
    (noEnd : 10 ∉ start) :
    iterTimedBlocksFrom (lines.map strip) (fileLines start) =
      match decode start with
      | none => ([], some .unicodeDecodeError)
      | some text => iterTimedBlocksFrom ((lines ++ lastLine text).map strip) [] := by
  by_cases nothing : start = []
  · subst nothing
    change _ = iterTimedBlocksFrom ((lines ++ lastLine []).map strip) []
    rw [lastLine, if_pos rfl, List.append_nil]
    rfl
  · rw [fileLines_last ⟨nothing, noEnd⟩, iterTimedBlocksFrom]
    cases isText : decode start with
    | none => rfl
    | some text =>
        obtain ⟨nonempty, noNewline⟩ := loggable_of_decode ⟨nothing, noEnd⟩ isText
        have notNewline : text ≠ ['\n'] := fun same => noNewline (by simp [same])
        simp only [if_neg notNewline, lastLine, if_neg nonempty, List.map_append,
          List.map_singleton]

/-- `_iter_parse_timed_blocks`. -/
theorem readsBlocks_iterParseTimedBlocks :
    ReadsBlocks (fun file blocks => iterParseTimedBlocks file = (blocks, none)) strip
      lastLine where
  nothing blocks := by
    have isNothing : iterParseTimedBlocks [] = ([], none) := rfl
    rw [isNothing, Prod.mk.injEq, and_iff_left rfl, eq_comm]
  frame {frame} loggable rest blocks := by
    rw [iterParseTimedBlocks, iterTimedBlocksFrom_logBytes loggable, iterParseTimedBlocks]
    cases decodeFrame frame with
    | none => simp
    | some block =>
        generalize iterTimedBlocksFrom [] (fileLines rest) = read
        obtain ⟨behind, exception⟩ := read
        constructor
        · rintro ⟨⟩
          exact ⟨block, behind, rfl, rfl, rfl⟩
        · rintro ⟨_, _, ⟨⟩, ⟨⟩, rfl⟩
          rfl
  time {time text} nonempty isPart blocks := by
    have noEnd : '\n' ∉ text := fun member =>
      Library.Text.not_mem_decimal rfl (by decide) time (isPart.subset member)
    have noLines : ∀ line ∈ ([] : List Text), IsLine line := by simp
    have isRead := iterTimedBlocksFrom_last noLines noEnd
    rw [unlines_nil, List.nil_append, List.nil_append, lastLine, if_neg nonempty,
      if_neg (by simp)] at isRead
    rw [iterParseTimedBlocks, isRead, List.map_singleton, parseBlock,
      Library.Text.readInt_strip]
    cases readInt text with
    | none => simp
    | some value => simp [eq_comm]
  lines frame loggable running {start} noEnd blocks := by
    have opened : encode (decimal frame.1) ++ 10 :: (frame.2.flatMap (· ++ [10]) ++ start) =
        (encode (decimal frame.1) :: frame.2).flatMap (· ++ [10]) ++ start := by
      simp
    have loggableLines : ∀ line ∈ encode (decimal frame.1) :: frame.2, Loggable line := by
      rw [List.forall_mem_cons]
      exact ⟨loggable_decimal frame.1, loggable⟩
    rw [iterParseTimedBlocks, opened, iterTimedBlocksFrom_lines loggableLines, List.mapM_cons,
      Library.Utf8.decode_encode]
    cases areTexts : frame.2.mapM decode with
    | none => simp [decodeFrame, areTexts]
    | some texts =>
        have isFrame : decodeFrame frame = some (frame.1, texts) := by
          rw [decodeFrame, areTexts]
          rfl
        simp only [Option.bind_eq_bind, Option.bind_some, Option.pure_def, List.nil_append,
          iterTimedBlocksFrom_start _ noEnd]
        cases decode start with
        | none => simp
        | some text =>
            dsimp only
            rw [iterTimedBlocksFrom_nil, if_neg (by simp), List.cons_append, List.map_cons,
              parseBlock, Library.Text.readInt_strip, Library.Text.readInt_decimal, isFrame]
            constructor
            · rintro ⟨⟩
              exact ⟨_, text, rfl, rfl, rfl⟩
            · rintro ⟨_, _, ⟨⟩, ⟨⟩, rfl⟩
              rfl
  last text := by
    by_cases nothing : text = []
    · exact .inr ⟨nothing, if_pos nothing⟩
    · exact .inl (if_neg nothing)

/-! ## The readers of lines -/

/-- A command name without spaces and parentheses. -/
def BareName (comm : Bytes) : Prop :=
  32 ∉ comm ∧ 40 ∉ comm ∧ 41 ∉ comm

/-- A line has fewer tokens than a number. -/
def FewerTokens (number : Nat) (text : Text) : Prop :=
  (text.splitOn ' ').length < number

/-- The name as a text has no spaces and parentheses. -/
theorem BareName.text
    {name : Text}
    (bare : BareName (encode name)) : ' ' ∉ name ∧ ∀ c ∈ name, ¬IsParen c := by
  obtain ⟨noSpace, noOpening, noClosing⟩ := bare
  refine ⟨mt (Library.Utf8.mem_encode (c := ' ') (by decide)).mpr noSpace, ?_⟩
  rintro c member (rfl | rfl)
  · exact noOpening ((Library.Utf8.mem_encode (c := '(') (by decide)).mpr member)
  · exact noClosing ((Library.Utf8.mem_encode (c := ')') (by decide)).mpr member)

/-- A number at the end of a line is not the end of a message. -/
theorem running_append_decimal (before : Bytes) (number : Int) :
    103 ∉ (before ++ encode (decimal number)).getLast? := by
  rw [List.getLast?_append_of_ne_nil _ (encode_ne_nil (Library.Text.decimal_ne_nil number))]
  intro isLast
  exact Library.Text.not_mem_decimal rfl (by decide) number
    ((Library.Utf8.mem_encode (c := 'g') (by decide)).mp (List.mem_of_getLast? isLast))

/-- A line with other than six tokens is skipped. -/
theorem parseTaskstatLine_eq_none {line : Text} :
    parseTaskstatLine line = .ok none ↔ (line.splitOn ' ').length ≠ 6 := by
  rw [parseTaskstatLine]
  split
  next opid ppid cmd cpuNs blkioDelayNs swapinDelayNs tokens =>
    rw [tokens]
    refine iff_of_false ?_ (fun other => other rfl)
    simp only [Library.bind_eq_ok, not_exists, not_and]
    rintro _ - _ - _ - _ - _ - ⟨⟩
  next other =>
    refine iff_of_true rfl fun six => ?_
    generalize line.splitOn ' ' = tokens at six other
    obtain ⟨opid, rest, rfl⟩ := List.exists_of_length_succ _ six
    obtain ⟨ppid, numbers, rfl⟩ := List.exists_of_length_succ _ (Nat.succ.inj six)
    obtain ⟨cmd, cpuNs, blkioDelayNs, swapinDelayNs, rfl⟩ :=
      List.length_eq_four.mp (Nat.succ.inj (Nat.succ.inj six))
    exact other _ _ _ _ _ _ rfl

/-- `_parse_taskstats_log` reads the lines of the collector. -/
theorem readsLine_taskstat
    {sample : Taskstats × Pid}
    (writable : Writable sample.1)
    (bare : BareName sample.1.acComm) :
    ReadsLine (fun sample : Taskstats × Pid => taskstatText sample.1 sample.2) id
      parseTaskstatLine SameRecord (FewerTokens 6) sample where
  loggable := loggable_taskstatText writable
  running := by
    have opened : taskstatText sample.1 sample.2 =
        (Collector.decimal sample.1.acPid ++ 32 :: (Collector.decimal sample.2 ++
          32 :: (sample.1.acComm ++ 32 :: (Collector.decimal sample.1.cpuRunRealTotal.toInt ++
            32 :: (Collector.decimal sample.1.blkioDelayTotal.toInt ++ [32]))))) ++
              encode (decimal sample.1.swapinDelayTotal.toInt) := by
      simp [taskstatText, Collector.decimal]
    rw [opened]
    exact running_append_decimal _ _
  whole text decoded := by
    rw [decode_taskstatText] at decoded
    obtain ⟨name, isName, rfl⟩ := Option.map_eq_some_iff.mp decoded
    have encoded := Library.Utf8.decode_eq_some.mp isName
    rw [← encoded] at bare
    obtain ⟨noSpace, noParen⟩ := bare.text
    refine ⟨lineRecord sample name, ?_, (sameRecord_lineRecord writable encoded).mpr ⟨?_, ?_⟩⟩
    · rw [id_eq, parseTaskstatLine_lineText, if_neg noSpace]
    · exact fun c isHead => noParen c (List.mem_of_mem_head? isHead)
    · exact fun c isLast => noParen c (List.mem_of_mem_getLast? isLast)
  part {start} isPart notWhole text decoded := by
    rw [id_eq, parseTaskstatLine_eq_none, FewerTokens]
    have noSpace (number : Int) : (Collector.decimal number).count 32 = 0 :=
      List.count_eq_zero.mpr (mt (Library.Utf8.mem_encode (c := ' ') (by decide)).mp
        (Library.Text.not_mem_decimal rfl (by decide) number))
    have spaces : (taskstatText sample.1 sample.2).count 32 = 5 := by
      simp [taskstatText, noSpace, List.count_eq_zero.mpr bare.1]
    have fewer := isPart.sublist.count_le 32
    have sameCount := Library.Utf8.count_encode (c := ' ') (by decide) text
    rw [Library.Utf8.decode_eq_some.mp decoded] at sameCount
    change start.count 32 = _ at sameCount
    rw [Library.Text.length_splitOn]
    omega

/-- A line with fewer than 21 tokens is skipped. -/
theorem parseStatLine_eq_none {line : Text} :
    parseStatLine line = .ok none ↔ FewerTokens 21 line := by
  rw [parseStatLine, FewerTokens]
  by_cases skipped : line = [] ∨ (line.splitOn ' ').length < 21
  · rw [if_pos skipped]
    refine iff_of_true rfl (skipped.elim ?_ id)
    rintro rfl
    decide
  · rw [if_neg skipped]
    refine iff_of_false ?_ fun fewer => skipped (.inr fewer)
    simp only [Library.bind_eq_ok, not_exists, not_and]
    rintro _ - _ - ⟨⟩

/-- `_parse_proc_ps_log` reads the lines of `/proc/<pid>/stat`. -/
theorem readsLine_stat
    {line : StatLine}
    (wellFormed : line.WellFormed)
    (bare : BareName line.comm) :
    ReadsLine StatLine.bytes strip parseStatLine StatLine.SameRecord
      (fun text => FewerTokens 21 (strip text)) line where
  loggable := loggable_bytes wellFormed
  running := by
    obtain ⟨before, number, isBack⟩ := exists_back_eq line
    rw [StatLine.bytes, isBack, Library.Utf8.encode_append, ← List.append_assoc,
      ← List.append_assoc]
    exact running_append_decimal _ number
  whole text decoded := by
    rw [decode_bytes] at decoded
    obtain ⟨name, isName, rfl⟩ := Option.map_eq_some_iff.mp decoded
    have encoded := Library.Utf8.decode_eq_some.mp isName
    rw [← encoded] at bare
    obtain ⟨noSpace, noParen⟩ := bare.text
    have survives : Survives name := by
      refine ⟨fun pair => ?_, fun pair => ?_, ?_, ?_⟩
      · exact noSpace (pair.subset (by simp))
      · exact noSpace (pair.subset (by simp))
      · exact fun c isHead => noParen c (List.mem_of_mem_head? isHead)
      · exact fun c isLast => noParen c (List.mem_of_mem_getLast? isLast)
    rw [strip_text]
    exact parseStatLine_of_survives wellFormed encoded survives
  part _ _ text _ := parseStatLine_eq_none

/-! ## The logs -/

/-- Of a taskstats log of which some bytes are left, exactly the lines that are whole are
read, and nothing is raised. -/
def TaskstatsReadLeft (frames : List (Int × List (Taskstats × Pid))) (length : Nat) : Prop :=
  ∃ read, taskstatRecords ((taskstatLog frames).take length) = .ok read ∧
    List.Forall₂ (fun frame block => block.1 = frame.1 ∧
      List.Forall₂ SameRecord frame.2 block.2)
        (leftOf (fun sample => taskstatText sample.1 sample.2) frames length).frames read

/-- The same for a log of process statuses. -/
def StatsReadLeft (frames : List (Int × List StatLine)) (length : Nat) : Prop :=
  ∃ read, statRecords ((statLog frames).take length) = .ok read ∧
    List.Forall₂ (fun frame block => block.1 = frame.1 ∧
      List.Forall₂ StatLine.SameRecord frame.2 block.2)
        (leftOf StatLine.bytes frames length).frames read

/-- The records of a taskstats log are those of its blocks. -/
theorem taskstatsReadLeft_iff {frames : List (Int × List (Taskstats × Pid))} {length : Nat} :
    TaskstatsReadLeft frames length ↔
      ReadsLeft (fun file blocks => parseTimedBlocks file = .ok blocks) parseTaskstatLine
        (fun sample => taskstatText sample.1 sample.2) SameRecord frames length := by
  unfold TaskstatsReadLeft
  simp only [taskstatLog_eq, taskstatRecords, Library.bind_eq_ok]
  constructor
  · rintro ⟨read, ⟨blocks, areBlocks, areRecords⟩, related⟩
    exact ⟨blocks, read, areBlocks, areRecords, related⟩
  · rintro ⟨blocks, read, areBlocks, areRecords, related⟩
    exact ⟨read, ⟨blocks, areBlocks, areRecords⟩, related⟩

/-- The same for a log of process statuses. -/
theorem statsReadLeft_iff {frames : List (Int × List StatLine)} {length : Nat} :
    StatsReadLeft frames length ↔
      ReadsLeft (fun file blocks => iterParseTimedBlocks file = (blocks, none)) parseStatLine
        StatLine.bytes StatLine.SameRecord frames length := by
  unfold StatsReadLeft
  simp only [statRecords_eq_ok]
  constructor
  · rintro ⟨read, ⟨blocks, areBlocks, areRecords⟩, related⟩
    exact ⟨blocks, read, areBlocks, areRecords, related⟩
  · rintro ⟨blocks, read, areBlocks, areRecords, related⟩
    exact ⟨read, ⟨blocks, areBlocks, areRecords⟩, related⟩

/-- Of logs that are cut at any byte, exactly the lines that are whole are read, and nothing is
raised, if and only if what is left is UTF-8, no time is cut, and the line that is cut has
fewer than six tokens or, when it is stripped, fewer than 21. -/
theorem readLeft_iff_harmless
    {samples : List (Int × List (Taskstats × Pid))}
    (writable : ∀ frame ∈ samples, ∀ sample ∈ frame.2, Writable sample.1)
    (bareSamples : ∀ frame ∈ samples, ∀ sample ∈ frame.2, BareName sample.1.acComm)
    {stats : List (Int × List StatLine)}
    (wellFormed : ∀ frame ∈ stats, ∀ line ∈ frame.2, line.WellFormed)
    (bareStats : ∀ frame ∈ stats, ∀ line ∈ frame.2, BareName line.comm)
    (length : Nat) :
    (TaskstatsReadLeft samples length ↔
        Harmless (fun sample => taskstatText sample.1 sample.2) (FewerTokens 6)
          samples length) ∧
      (StatsReadLeft stats length ↔
        Harmless StatLine.bytes (fun text => FewerTokens 21 (strip text)) stats length) := by
  constructor
  · rw [taskstatsReadLeft_iff]
    apply readsLeft_iff readsBlocks_parseTimedBlocks
    · exact fun frame inLog sample inFrame => readsLine_taskstat
        (writable frame inLog sample inFrame) (bareSamples frame inLog sample inFrame)
    · unfold FewerTokens
      decide
    · rfl
  · rw [statsReadLeft_iff]
    apply readsLeft_iff readsBlocks_iterParseTimedBlocks
    · exact fun frame inLog line inFrame => readsLine_stat
        (wellFormed frame inLog line inFrame) (bareStats frame inLog line inFrame)
    · unfold FewerTokens
      decide
    · rfl

/-- A short name is bare. -/
theorem bareName_a : BareName (encode ['a']) := by
  unfold BareName
  decide +kernel

/-- If the log is cut in front of the last token, that token is empty; if it is cut in front of
the token with the start time, that token is missing. -/
theorem not_readLeft_lastToken :
    (Writable (namedTaskstats ['a']) ∧ BareName (namedTaskstats ['a']).acComm ∧
      taskstatRecords ((taskstatLog [(3, [(namedTaskstats ['a'], 1)])]).take 14) =
        .error .valueError ∧
      ¬TaskstatsReadLeft [(3, [(namedTaskstats ['a'], 1)])] 14) ∧
    (namedLine ['a']).WellFormed ∧ BareName (namedLine ['a']).comm ∧
      statRecords ((statLog [(3, [namedLine ['a']])]).take 45) = .error .indexError ∧
      ¬StatsReadLeft [(3, [namedLine ['a']])] 45 := by
  have valueError : taskstatRecords ((taskstatLog [(3, [(namedTaskstats ['a'], 1)])]).take 14) =
      .error .valueError := by
    decide +kernel
  have indexError : statRecords ((statLog [(3, [namedLine ['a']])]).take 45) =
      .error .indexError := by
    decide +kernel
  refine ⟨⟨⟨by decide, by decide, by decide, by decide, by decide, by decide⟩, bareName_a,
    valueError, ?_⟩, ⟨by decide, by decide, by decide, by decide, by decide⟩, bareName_a,
    indexError, ?_⟩
  · rintro ⟨read, isRead, -⟩
    exact absurd (valueError.symm.trans isRead) (by simp)
  · rintro ⟨read, isRead, -⟩
    exact absurd (indexError.symm.trans isRead) (by simp)

/-- If only the pid is left of a line, nothing goes wrong. -/
theorem readLeft_pid :
    TaskstatsReadLeft [(3, [(namedTaskstats ['a'], 1)])] 3 ∧
      StatsReadLeft [(3, [namedLine ['a']])] 3 := by
  have writable : Writable (namedTaskstats ['a']) :=
    ⟨by decide, by decide, by decide, by decide, by decide, by decide⟩
  have wellFormed : (namedLine ['a']).WellFormed :=
    ⟨by decide, by decide, by decide, by decide, by decide⟩
  have bareSample : BareName (namedTaskstats ['a']).acComm := bareName_a
  have bareLine : BareName (namedLine ['a']).comm := bareName_a
  obtain ⟨taskstats, stats⟩ := @readLeft_iff_harmless [(3, [(namedTaskstats ['a'], 1)])]
    (by simpa using writable) (by simpa using bareSample) [(3, [namedLine ['a']])]
    (by simpa using wellFormed) (by simpa using bareLine) 3
  refine ⟨taskstats.mpr ⟨by decide +kernel, by decide +kernel, fun text isText => ?_⟩,
    stats.mpr ⟨by decide +kernel, by decide +kernel, fun text isText => ?_⟩⟩
  · have isPid : (leftOf (fun sample : Taskstats × Pid => taskstatText sample.1 sample.2)
        [(3, [(namedTaskstats ['a'], 1)])] 3).line = encode ['7'] := by
      decide +kernel
    rw [isPid, Library.Utf8.decode_encode] at isText
    obtain rfl := Option.some.inj isText
    unfold FewerTokens
    decide
  · have isPid : (leftOf StatLine.bytes [(3, [namedLine ['a']])] 3).line = encode ['7'] := by
      decide +kernel
    rw [isPid, Library.Utf8.decode_encode] at isText
    obtain rfl := Option.some.inj isText
    unfold FewerTokens
    decide

end Parsing
end Bootchart
