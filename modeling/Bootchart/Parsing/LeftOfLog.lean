import Bootchart.Parsing.CutLog

/-!
# What is left of a log

Of a log that is cut at any byte some lines are left whole, and perhaps a part of one more. A
parser of lines that skips that part reads the lines that are whole, and no more.
-/

namespace Bootchart
namespace Parsing

open Library (Text)
open Library.Text (readInt strip unlines decimal)
open Library.Utf8 (encode decode)

/-- What is left of a log. -/
structure Left (α : Type) where
  /-- The frames, with the lines that are whole. -/
  frames : List (Int × List α)
  /-- A part of a time. -/
  time : Bytes
  /-- A part of a line. -/
  line : Bytes

section Left

variable {α : Type} (bytesOf : α → Bytes)

/-- A frame as it is written. -/
def written (frame : Int × List α) : Int × List Bytes :=
  (frame.1, frame.2.map bytesOf)

/-- A log as it is written. -/
def writtenLog (frames : List (Int × List α)) : Bytes :=
  logBytes (frames.map (written bytesOf))

/-- The lines that are whole when some bytes are left, and a part of the next one. A line
without its end is whole. -/
def leftLines : List α → Nat → List α × Bytes
  | [], _ => ([], [])
  | line :: lines, length =>
      if length < (bytesOf line).length then ([], (bytesOf line).take length)
      else
        let rest := leftLines lines (length - (bytesOf line).length - 1)
        (line :: rest.1, rest.2)

/-- What is left of a log when some bytes are. -/
def leftOf : List (Int × List α) → Nat → Left α
  | [], _ => { frames := [], time := [], line := [] }
  | frame :: frames, length =>
      let time := encode (decimal frame.1)
      let size := (logBytes [written bytesOf frame]).length
      if length < time.length then
        { frames := [], time := time.take length, line := [] }
      else if length < size then
        let lines := leftLines bytesOf frame.2 (length - time.length - 1)
        { frames := [(frame.1, lines.1)], time := [], line := lines.2 }
      else
        let rest := leftOf frames (length - size)
        { rest with frames := frame :: rest.frames }

/-- Nothing goes wrong with what is left: it is UTF-8, there is no part of a time, and the part
of a line is short. -/
structure Harmless
    (short : Text → Prop)
    (frames : List (Int × List α))
    (length : Nat) : Prop where
  /-- What is left is UTF-8. -/
  utf8 : (decode ((writtenLog bytesOf frames).take length)).isSome
  /-- The cut does not fall into a time. -/
  time : (leftOf bytesOf frames length).time = []
  /-- The part of a line is short. -/
  line : ∀ text, decode (leftOf bytesOf frames length).line = some text → short text

variable {bytesOf}

/-- Nothing is left of lines when no bytes are. -/
theorem leftLines_zero
    {lines : List α}
    (loggable : ∀ line ∈ lines, Loggable (bytesOf line)) :
    leftLines bytesOf lines 0 = ([], []) := by
  cases lines with
  | nil => rfl
  | cons line lines =>
      have nonempty := List.length_pos_of_ne_nil (loggable line List.mem_cons_self).1
      rw [leftLines, if_pos nonempty, List.take_zero]

/-- The bytes that are left of lines: some lines with their ends, and behind them either a
part of the next line or all of it without its end. -/
theorem exists_leftLines
    {lines : List α}
    (loggable : ∀ line ∈ lines, Loggable (bytesOf line))
    (length : Nat) :
    ∃ done start, (lines.flatMap (bytesOf · ++ [10])).take length =
        done.flatMap (bytesOf · ++ [10]) ++ start ∧ done ⊆ lines ∧
      ((leftLines bytesOf lines length = (done, start) ∧
          (start = [] ∨ ∃ line ∈ lines, start <+: bytesOf line ∧ start ≠ bytesOf line)) ∨
        ∃ line ∈ lines, start = bytesOf line ∧
          leftLines bytesOf lines length = (done ++ [line], [])) := by
  induction lines generalizing length with
  | nil => exact ⟨[], [], by simp, List.Subset.refl _, .inl ⟨rfl, .inl rfl⟩⟩
  | cons line lines inductionHypothesis =>
      obtain ⟨isLoggable, restLoggable⟩ := List.forall_mem_cons.mp loggable
      have opened : (line :: lines).flatMap (bytesOf · ++ [10]) =
          bytesOf line ++ 10 :: lines.flatMap (bytesOf · ++ [10]) := by
        simp
      rw [opened]
      rcases Nat.lt_trichotomy length (bytesOf line).length with inside | rfl | beyond
      · refine ⟨[], (bytesOf line).take length, ?_, List.nil_subset _, .inl ⟨?_, .inr ?_⟩⟩
        · rw [List.take_append_of_le_length inside.le]
          rfl
        · rw [leftLines, if_pos inside]
        · refine ⟨line, List.mem_cons_self, List.take_prefix _ _, fun same => ?_⟩
          have sameLength := congrArg List.length same
          rw [List.length_take] at sameLength
          omega
      · refine ⟨[], bytesOf line, ?_, List.nil_subset _, .inr ⟨line, List.mem_cons_self, rfl, ?_⟩⟩
        · rw [List.take_left]
          rfl
        · rw [leftLines, if_neg (Nat.lt_irrefl _), Nat.sub_self, Nat.zero_sub,
            leftLines_zero restLoggable]
          rfl
      · obtain ⟨count, rfl⟩ : ∃ count, length = (bytesOf line).length + (count + 1) :=
          ⟨length - (bytesOf line).length - 1, by omega⟩
        obtain ⟨done, start, isTaken, areLines, isLeft⟩ :=
          inductionHypothesis restLoggable count
        have left : leftLines bytesOf (line :: lines) ((bytesOf line).length + (count + 1)) =
            (line :: (leftLines bytesOf lines count).1,
              (leftLines bytesOf lines count).2) := by
          rw [leftLines, if_neg (by omega), Nat.add_sub_cancel_left, Nat.add_sub_cancel]
        refine ⟨line :: done, start, ?_, ?_, ?_⟩
        · rw [List.take_length_add_append, List.take_succ_cons, isTaken]
          simp
        · exact List.cons_subset_cons line areLines
        · rw [left]
          rcases isLeft with ⟨same, begins⟩ | ⟨next, member, isStart, same⟩
          · refine .inl ⟨by rw [same], begins.imp_right ?_⟩
            rintro ⟨next, member, isPart⟩
            exact ⟨next, List.mem_cons_of_mem _ member, isPart⟩
          · refine .inr ⟨next, List.mem_cons_of_mem _ member, isStart, ?_⟩
            rw [same]
            rfl

end Left

/-! ## Readers -/

/-- A reader of blocks, which brings every line into a normal form: what it reads of a log, of
a part of a time, and of lines that are cut. -/
structure ReadsBlocks
    (reads : Bytes → List Block → Prop)
    (normal : Text → Text)
    (last : Text → List Text) : Prop where
  /-- Nothing has no blocks. -/
  nothing (blocks : List Block) : reads [] blocks ↔ blocks = []
  /-- A frame is a block. -/
  frame
    {frame : Int × List Bytes}
    (loggable : ∀ line ∈ frame.2, Loggable line)
    (rest : Bytes)
    (blocks : List Block) :
    reads (logBytes [frame] ++ rest) blocks ↔
      ∃ block behind, decodeFrame frame = some block ∧ reads rest behind ∧
        blocks = (block.1, block.2.map normal) :: behind
  /-- A time, or a part of it, is a block if it is a number. -/
  time
    {time : Int}
    {text : Text}
    (nonempty : text ≠ [])
    (isPart : text <+: decimal time)
    (blocks : List Block) :
    reads (encode text) blocks ↔
      ∃ value, readInt text = some value ∧ blocks = [(value, [])]
  /-- A time with lines is a block, and what is behind them is a line of it. -/
  lines
    (frame : Int × List Bytes)
    (loggable : ∀ line ∈ frame.2, Loggable line)
    (running : ∀ line ∈ frame.2, 103 ∉ line.getLast?)
    {start : Bytes}
    (noEnd : 10 ∉ start)
    (blocks : List Block) :
    reads (encode (decimal frame.1) ++ 10 :: (frame.2.flatMap (· ++ [10]) ++ start)) blocks ↔
      ∃ block text, decodeFrame frame = some block ∧ decode start = some text ∧
        blocks = [(block.1, (block.2 ++ last text).map normal)]
  /-- If nothing is behind the lines it may be left out. -/
  last (text : Text) : last text = [text] ∨ text = [] ∧ last text = []

/-- A reader of lines reads a line if it is whole, and skips a part of it exactly if that is
short. -/
structure ReadsLine
    {α R : Type}
    (bytesOf : α → Bytes)
    (normal : Text → Text)
    (readLine : Text → Except Exception (Option R))
    (same : α → R → Prop)
    (short : Text → Prop)
    (line : α) : Prop where
  /-- It is a line of a log. -/
  loggable : Loggable (bytesOf line)
  /-- It does not end as the message that something is not running. -/
  running : 103 ∉ (bytesOf line).getLast?
  /-- The line is read. -/
  whole (text : Text) (decoded : decode (bytesOf line) = some text) :
    ∃ record, readLine (normal text) = .ok (some record) ∧ same line record
  /-- A part of it is skipped if it is short. -/
  part
    {start : Bytes}
    (isPart : start <+: bytesOf line)
    (notWhole : start ≠ bytesOf line)
    (text : Text)
    (decoded : decode start = some text) :
    readLine (normal text) = .ok none ↔ short text

/-- The records of a block. -/
def readBlock
    {R : Type}
    (readLine : Text → Except Exception (Option R))
    (block : Block) : Except Exception (Int × List R) :=
  (block.2.mapM readLine).map fun records => (block.1, records.filterMap id)

/-- Nothing is raised, and what is read of a log that is cut are the lines that are whole. -/
def ReadsLeft
    {α R : Type}
    (reads : Bytes → List Block → Prop)
    (readLine : Text → Except Exception (Option R))
    (bytesOf : α → Bytes)
    (same : α → R → Prop)
    (frames : List (Int × List α))
    (length : Nat) : Prop :=
  ∃ blocks read,
    reads ((writtenLog bytesOf frames).take length) blocks ∧
      blocks.mapM (readBlock readLine) = .ok read ∧
        List.Forall₂ (fun frame block => block.1 = frame.1 ∧
          List.Forall₂ same frame.2 block.2) (leftOf bytesOf frames length).frames read

section Reading

variable {α R : Type} {bytesOf : α → Bytes} {reads : Bytes → List Block → Prop}
  {normal : Text → Text} {last : Text → List Text}
  {readLine : Text → Except Exception (Option R)} {same : α → R → Prop}
  {short : Text → Prop}

/-- Lines that are whole are read. -/
theorem exists_records
    {lines : List α}
    (readsLines : ∀ line ∈ lines, ReadsLine bytesOf normal readLine same short line)
    {texts : List Text}
    (decoded : (lines.map bytesOf).mapM decode = some texts) :
    ∃ records, (texts.map normal).mapM readLine = .ok (records.map some) ∧
      List.Forall₂ same lines records := by
  induction lines generalizing texts with
  | nil =>
      obtain rfl : [] = texts := Option.some.inj decoded
      exact ⟨[], rfl, .nil⟩
  | cons line lines inductionHypothesis =>
      obtain ⟨isRead, restRead⟩ := List.forall_mem_cons.mp readsLines
      rw [List.map_cons, List.mapM_cons] at decoded
      obtain ⟨text, isText, decodedRest⟩ := Option.bind_eq_some_iff.mp decoded
      obtain ⟨others, areOthers, sameTexts⟩ := Option.bind_eq_some_iff.mp decodedRest
      obtain rfl : text :: others = texts := Option.some.inj sameTexts
      obtain ⟨record, isRecord, isSame⟩ := isRead.whole text isText
      obtain ⟨records, areRecords, areSame⟩ := inductionHypothesis restRead areOthers
      refine ⟨record :: records, ?_, .cons isSame areSame⟩
      rw [List.map_cons, List.mapM_cons, isRecord, areRecords]
      rfl

/-- A block of lines that are read. -/
theorem readBlock_eq_ok
    {lines : List Text}
    {records : List R}
    (areRecords : lines.mapM readLine = .ok (records.map some))
    (time : Int) : readBlock readLine (time, lines) = .ok (time, records) := by
  rw [readBlock, areRecords]
  simp [Except.map, List.filterMap_map]

/-- A block of lines that are read, and of a last one that may be left out if it is empty. -/
theorem readBlock_append
    {texts : List Text}
    {records : List R}
    (areRecords : (texts.map normal).mapM readLine = .ok (records.map some))
    (empty : readLine (normal []) = .ok none)
    {text : Text}
    (isLast : last text = [text] ∨ text = [] ∧ last text = [])
    (time : Int) :
    readBlock readLine (time, (texts ++ last text).map normal) =
      (readLine (normal text)).map fun further => (time, records ++ further.toList) := by
  rcases isLast with isOne | ⟨rfl, isNone⟩
  · rw [isOne, readBlock, List.map_append, List.mapM_append, areRecords, List.map_singleton]
    cases isRead : readLine (normal text) with
    | error exception => simp [isRead, bind, Except.bind, Except.map]
    | ok further =>
        cases further <;> simp [isRead, bind, Except.bind, Except.map, pure, Except.pure]
  · rw [isNone, List.append_nil, readBlock_eq_ok areRecords, empty]
    simp [Except.map]

/-- One written frame. -/
theorem logBytes_written (frame : Int × List α) :
    logBytes [written bytesOf frame] =
      encode (decimal frame.1) ++ 10 :: (frame.2.flatMap (bytesOf · ++ [10]) ++ [10]) := by
  simp [logBytes, written, List.flatMap_map]

section Whole

variable {frame : Int × List α} {frames : List (Int × List α)} {count : Nat}

/-- The bytes that are left when the first frame is whole. -/
theorem take_writtenLog_cons :
    (writtenLog bytesOf (frame :: frames)).take
        ((logBytes [written bytesOf frame]).length + count) =
      logBytes [written bytesOf frame] ++ (writtenLog bytesOf frames).take count := by
  have opened : writtenLog bytesOf (frame :: frames) =
      logBytes [written bytesOf frame] ++ writtenLog bytesOf frames := by
    simp [writtenLog, logBytes]
  rw [opened, List.take_length_add_append]

/-- What is left when the first frame is whole. -/
theorem leftOf_cons :
    leftOf bytesOf (frame :: frames) ((logBytes [written bytesOf frame]).length + count) =
      { leftOf bytesOf frames count with
        frames := frame :: (leftOf bytesOf frames count).frames } := by
  have longer : (encode (decimal frame.1)).length ≤
      (logBytes [written bytesOf frame]).length := by
    rw [logBytes_written, List.length_append]
    omega
  rw [leftOf, if_neg (by omega), if_neg (by omega), Nat.add_sub_cancel_left]

/-- Behind a frame that is whole, lines are read as without it. -/
theorem readsLeft_cons
    (readsBlocks : ReadsBlocks reads normal last)
    (readsLines : ∀ line ∈ frame.2, ReadsLine bytesOf normal readLine same short line) :
    ReadsLeft reads readLine bytesOf same (frame :: frames)
        ((logBytes [written bytesOf frame]).length + count) ↔
      (decodeFrame (written bytesOf frame)).isSome ∧
        ReadsLeft reads readLine bytesOf same frames count := by
  have loggable : ∀ line ∈ (written bytesOf frame).2, Loggable line := by
    intro line member
    obtain ⟨original, inFrame, rfl⟩ := List.mem_map.mp member
    exact (readsLines original inFrame).loggable
  unfold ReadsLeft
  rw [leftOf_cons, take_writtenLog_cons]
  constructor
  · rintro ⟨blocks, read, isRead, areRecords, related⟩
    obtain ⟨block, behind, decoded, restRead, rfl⟩ :=
      (readsBlocks.frame loggable _ _).mp isRead
    obtain ⟨first, others, -, restRelated, rfl⟩ := List.forall₂_cons_left_iff.mp related
    rw [List.mapM_cons] at areRecords
    obtain ⟨_, -, restRecords⟩ := Library.bind_eq_ok.mp areRecords
    obtain ⟨_, areOthers, sameRead⟩ := Library.bind_eq_ok.mp restRecords
    obtain ⟨-, rfl⟩ := List.cons.inj (Except.ok.inj sameRead)
    exact ⟨Option.isSome_of_eq_some decoded, behind, _, restRead, areOthers, restRelated⟩
  · rintro ⟨decodes, behind, read, restRead, areRecords, related⟩
    obtain ⟨block, decoded⟩ := Option.isSome_iff_exists.mp decodes
    obtain ⟨texts, areTexts, rfl⟩ := Option.map_eq_some_iff.mp decoded
    obtain ⟨records, isRecords, areSame⟩ := exists_records readsLines areTexts
    have isBlock := readBlock_eq_ok isRecords frame.1
    refine ⟨_, (frame.1, records) :: read, (readsBlocks.frame loggable _ _).mpr
      ⟨_, behind, decoded, restRead, rfl⟩, ?_, .cons ⟨rfl, areSame⟩ related⟩
    rw [List.mapM_cons]
    change (readBlock readLine (frame.1, texts.map normal) >>= _) = _
    rw [isBlock, areRecords]
    rfl

/-- Behind a frame that is whole and UTF-8, the rest is as harmless as without it. -/
theorem harmless_cons :
    Harmless bytesOf short (frame :: frames)
        ((logBytes [written bytesOf frame]).length + count) ↔
      (decodeFrame (written bytesOf frame)).isSome ∧ Harmless bytesOf short frames count := by
  have utf8 : (decode ((writtenLog bytesOf (frame :: frames)).take
        ((logBytes [written bytesOf frame]).length + count))).isSome ↔
      (decodeFrame (written bytesOf frame)).isSome ∧
        (decode ((writtenLog bytesOf frames).take count)).isSome := by
    rw [take_writtenLog_cons, decode_frame]
    cases decodeFrame (written bytesOf frame) <;> simp
  constructor
  · rintro ⟨isUtf8, noTime, isShort⟩
    rw [leftOf_cons] at noTime isShort
    obtain ⟨decodes, restUtf8⟩ := utf8.mp isUtf8
    exact ⟨decodes, restUtf8, noTime, isShort⟩
  · rintro ⟨decodes, restUtf8, noTime, isShort⟩
    refine ⟨utf8.mpr ⟨decodes, restUtf8⟩, ?_, ?_⟩
    · rw [leftOf_cons]
      exact noTime
    · rw [leftOf_cons]
      exact isShort

end Whole

section Cut

variable {frame : Int × List α} {frames : List (Int × List α)} {length : Nat}

/-- The bytes that are left when the cut falls into the first frame. -/
theorem take_writtenLog_of_lt (short : length < (logBytes [written bytesOf frame]).length) :
    (writtenLog bytesOf (frame :: frames)).take length =
      (encode (decimal frame.1) ++ 10 :: frame.2.flatMap (bytesOf · ++ [10])).take length := by
  have opened : writtenLog bytesOf (frame :: frames) =
      (encode (decimal frame.1) ++ 10 :: frame.2.flatMap (bytesOf · ++ [10])) ++
        10 :: writtenLog bytesOf frames := by
    simp [writtenLog, logBytes, written, List.flatMap_map]
  rw [opened, List.take_append_of_le_length]
  rw [logBytes_written] at short
  simp only [List.length_append, List.length_cons, List.length_nil] at short ⊢
  omega

/-- When the cut falls into the first time or right behind it, what is read is what is whole if
and only if nothing goes wrong. -/
theorem readsLeft_iff_of_le
    (readsBlocks : ReadsBlocks reads normal last)
    (readsLines : ∀ line ∈ frame.2, ReadsLine bytesOf normal readLine same short line)
    (shortNil : short [])
    (within : length ≤ (encode (decimal frame.1)).length) :
    ReadsLeft reads readLine bytesOf same (frame :: frames) length ↔
      Harmless bytesOf short (frame :: frames) length := by
  have inFrame : length < (logBytes [written bytesOf frame]).length := by
    rw [logBytes_written]
    simp only [List.length_append, List.length_cons]
    omega
  have isCut : (writtenLog bytesOf (frame :: frames)).take length =
      encode ((decimal frame.1).take length) := by
    rw [take_writtenLog_of_lt inFrame, List.take_append_of_le_length within,
      Library.Utf8.take_encode (Library.Text.ascii_decimal frame.1)]
  have isUtf8 : (decode ((writtenLog bytesOf (frame :: frames)).take length)).isSome := by
    rw [isCut, Library.Utf8.decode_encode]
    rfl
  rcases Nat.lt_or_eq_of_le within with inside | isWhole
  · have left : leftOf bytesOf (frame :: frames) length =
        { frames := [], time := (encode (decimal frame.1)).take length, line := [] } := by
      rw [leftOf, if_pos inside]
    have noTime : (encode (decimal frame.1)).take length = [] ↔
        (decimal frame.1).take length = [] := by
      rw [Library.Utf8.take_encode (Library.Text.ascii_decimal frame.1)]
      constructor
      · exact fun nothing => not_not.mp fun something => encode_ne_nil something nothing
      · exact fun nothing => by rw [nothing]; rfl
    by_cases nothing : (decimal frame.1).take length = []
    · refine iff_of_true ⟨[], [], ?_, rfl, ?_⟩ ⟨isUtf8, ?_, ?_⟩
      · rw [isCut, nothing]
        exact (readsBlocks.nothing []).mpr rfl
      · rw [left]
        exact .nil
      · rw [left]
        exact noTime.mpr nothing
      · rw [left]
        rintro text ⟨⟩
        exact shortNil
    · refine iff_of_false ?_ fun harmless => ?_
      · rintro ⟨blocks, read, isRead, areRecords, related⟩
        rw [isCut, readsBlocks.time nothing (List.take_prefix _ _)] at isRead
        obtain ⟨value, -, rfl⟩ := isRead
        rw [left] at related
        obtain rfl := List.forall₂_nil_left_iff.mp related
        exact absurd areRecords nofun
      · have isNothing := harmless.time
        rw [left] at isNothing
        exact nothing (noTime.mp isNothing)
  · have left : leftOf bytesOf (frame :: frames) length =
        { frames := [(frame.1, [])], time := [], line := [] } := by
      rw [leftOf, if_neg (by omega), if_pos inFrame, isWhole, Nat.sub_self, Nat.zero_sub,
        leftLines_zero fun line member => (readsLines line member).loggable]
    have sameLength := Library.Utf8.length_encode (Library.Text.ascii_decimal frame.1)
    refine iff_of_true ⟨[(frame.1, [])], [(frame.1, [])], ?_, rfl, ?_⟩ ⟨isUtf8, ?_, ?_⟩
    · rw [isCut, List.take_of_length_le (by omega), readsBlocks.time
        (Library.Text.decimal_ne_nil _) (List.prefix_refl _)]
      exact ⟨frame.1, Library.Text.readInt_decimal _, rfl⟩
    · rw [left]
      exact .cons ⟨rfl, .nil⟩ .nil
    · rw [left]
    · rw [left]
      rintro text ⟨⟩
      exact shortNil

/-- A time and some lines are UTF-8 if the lines are. -/
theorem isSome_decode_lines (time : Int) (lines : List Bytes) (start : Bytes) :
    (decode (encode (decimal time) ++ 10 :: (lines.flatMap (· ++ [10]) ++ start))).isSome ↔
      ∃ texts text, lines.mapM decode = some texts ∧ decode start = some text := by
  rw [decode_line, decode_lines, Library.Utf8.decode_encode]
  cases lines.mapM decode with
  | none => simp
  | some texts => simp [Option.isSome_iff_exists]

/-- What is read of a time, of lines that are whole, and of what is behind them. -/
theorem exists_reads_lines_iff
    (readsBlocks : ReadsBlocks reads normal last)
    (skipsNil : readLine (normal []) = .ok none)
    {time : Int}
    {lines : List Bytes}
    (loggable : ∀ line ∈ lines, Loggable line)
    (running : ∀ line ∈ lines, 103 ∉ line.getLast?)
    {start : Bytes}
    (noEnd : 10 ∉ start)
    {texts : List Text}
    (areTexts : lines.mapM decode = some texts)
    {text : Text}
    (isText : decode start = some text)
    {records : List R}
    (areRecords : (texts.map normal).mapM readLine = .ok (records.map some))
    (related : List (Int × List R) → Prop) :
    (∃ blocks read,
        reads (encode (decimal time) ++ 10 :: (lines.flatMap (· ++ [10]) ++ start)) blocks ∧
          blocks.mapM (readBlock readLine) = .ok read ∧ related read) ↔
      ∃ further, readLine (normal text) = .ok further ∧
        related [(time, records ++ further.toList)] := by
  have isFrame : decodeFrame (time, lines) = some (time, texts) := by
    rw [decodeFrame, areTexts]
    rfl
  have isRead := readsBlocks.lines (time, lines) loggable running noEnd
  have isBlock := readBlock_append areRecords skipsNil (readsBlocks.last text) time
  constructor
  · rintro ⟨blocks, read, areBlocks, isOk, isRelated⟩
    obtain ⟨block, other, sameFrame, sameText, rfl⟩ := (isRead _).mp areBlocks
    obtain rfl := Option.some.inj (isFrame.symm.trans sameFrame)
    obtain rfl := Option.some.inj (isText.symm.trans sameText)
    rw [List.mapM_cons, List.mapM_nil, isBlock] at isOk
    obtain ⟨first, isFirst, rest⟩ := Library.bind_eq_ok.mp isOk
    obtain ⟨further, isFurther, rfl⟩ := Library.map_eq_ok.mp isFirst
    obtain rfl := Except.ok.inj rest
    exact ⟨further, isFurther, isRelated⟩
  · rintro ⟨further, isFurther, isRelated⟩
    refine ⟨_, _, (isRead _).mpr ⟨_, _, isFrame, isText, rfl⟩, ?_, isRelated⟩
    rw [List.mapM_cons, List.mapM_nil, isBlock, isFurther]
    rfl

/-- What is left when the cut falls behind the first time: some lines with their ends, and
behind them either a part of the next line or all of it without its end. -/
theorem exists_left_of_lt
    (loggable : ∀ line ∈ frame.2, Loggable (bytesOf line))
    (behind : (encode (decimal frame.1)).length < length)
    (inFrame : length < (logBytes [written bytesOf frame]).length) :
    ∃ done start whole part, done ⊆ frame.2 ∧ 10 ∉ start ∧
      (writtenLog bytesOf (frame :: frames)).take length = encode (decimal frame.1) ++
        10 :: ((done.map bytesOf).flatMap (· ++ [10]) ++ start) ∧
      leftOf bytesOf (frame :: frames) length =
        { frames := [(frame.1, whole)], time := [], line := part } ∧
      ((whole = done ∧ part = start ∧
          (start = [] ∨ ∃ line ∈ frame.2, start <+: bytesOf line ∧ start ≠ bytesOf line)) ∨
        ∃ line ∈ frame.2, start = bytesOf line ∧ whole = done ++ [line] ∧ part = []) := by
  obtain ⟨count, rfl⟩ : ∃ count, length = (encode (decimal frame.1)).length + (count + 1) :=
    ⟨length - (encode (decimal frame.1)).length - 1, by omega⟩
  obtain ⟨done, start, isTaken, areLines, isLeft⟩ := exists_leftLines loggable count
  refine ⟨done, start, (leftLines bytesOf frame.2 count).1, (leftLines bytesOf frame.2 count).2,
    areLines, ?_, ?_, ?_, ?_⟩
  · rcases isLeft with ⟨-, rfl | ⟨line, member, isPart, -⟩⟩ | ⟨line, member, rfl, -⟩
    · simp
    · exact fun inStart => (loggable line member).2 (isPart.subset inStart)
    · exact (loggable line member).2
  · rw [take_writtenLog_of_lt inFrame, List.take_length_add_append, List.take_succ_cons,
      isTaken, List.flatMap_map]
  · rw [leftOf, if_neg (by omega), if_pos inFrame, Nat.add_sub_cancel_left,
      Nat.add_sub_cancel]
  · rcases isLeft with ⟨isLeft, begins⟩ | ⟨line, member, isStart, isLeft⟩
    · exact .inl ⟨by rw [isLeft], by rw [isLeft], begins⟩
    · exact .inr ⟨line, member, isStart, by rw [isLeft], by rw [isLeft]⟩

/-- When the cut falls behind the first time, what is read is what is whole if and only if
nothing goes wrong. -/
theorem readsLeft_iff_of_lt
    (readsBlocks : ReadsBlocks reads normal last)
    (readsLines : ∀ line ∈ frame.2, ReadsLine bytesOf normal readLine same short line)
    (shortNil : short [])
    (skipsNil : readLine (normal []) = .ok none)
    (behind : (encode (decimal frame.1)).length < length)
    (inFrame : length < (logBytes [written bytesOf frame]).length) :
    ReadsLeft reads readLine bytesOf same (frame :: frames) length ↔
      Harmless bytesOf short (frame :: frames) length := by
  obtain ⟨done, start, whole, part, areLines, noEnd, isCut, left, cases⟩ := exists_left_of_lt
    (fun line member => (readsLines line member).loggable) behind inFrame
  have doneRead : ∀ line ∈ done, ReadsLine bytesOf normal readLine same short line :=
    fun line member => readsLines line (areLines member)
  have doneLoggable : ∀ line ∈ done.map bytesOf, Loggable line := by
    rw [List.forall_mem_map]
    exact fun line member => (doneRead line member).loggable
  have doneRunning : ∀ line ∈ done.map bytesOf, 103 ∉ line.getLast? := by
    rw [List.forall_mem_map]
    exact fun line member => (doneRead line member).running
  have harmless_iff : Harmless bytesOf short (frame :: frames) length ↔
      (∃ texts text, (done.map bytesOf).mapM decode = some texts ∧
        decode start = some text) ∧ ∀ text, decode part = some text → short text := by
    rw [← isSome_decode_lines frame.1, ← isCut]
    constructor
    · rintro ⟨utf8, -, isShort⟩
      rw [left] at isShort
      exact ⟨utf8, isShort⟩
    · rintro ⟨utf8, isShort⟩
      exact ⟨utf8, by rw [left], by rwa [left]⟩
  rw [harmless_iff, ReadsLeft, isCut, left]
  by_cases isUtf8 : ∃ texts text, (done.map bytesOf).mapM decode = some texts ∧
      decode start = some text
  · obtain ⟨texts, text, areTexts, isText⟩ := isUtf8
    obtain ⟨records, areRecords, areSame⟩ := exists_records doneRead areTexts
    rw [exists_reads_lines_iff readsBlocks skipsNil doneLoggable doneRunning noEnd areTexts
      isText areRecords, and_iff_right ⟨texts, text, areTexts, isText⟩]
    rcases cases with ⟨rfl, rfl, begins⟩ | ⟨line, member, rfl, rfl, rfl⟩
    · -- A part of a line is left, or nothing is.
      have skips_iff : readLine (normal text) = .ok none ↔ short text := by
        rcases begins with rfl | ⟨line, member, isPart, notWhole⟩
        · obtain rfl := Option.some.inj isText
          exact iff_of_true skipsNil shortNil
        · exact (readsLines line member).part isPart notWhole text isText
      rw [isText]
      simp only [Option.some.injEq, forall_eq', ← skips_iff]
      constructor
      · rintro ⟨further, isFurther, related⟩
        have sameLength := (List.forall₂_cons.mp related).1.2.length_eq
        rw [areSame.length_eq, List.length_append] at sameLength
        cases further with
        | none => exact isFurther
        | some record => simp at sameLength
      · intro skips
        exact ⟨none, skips, .cons ⟨rfl, by simpa using areSame⟩ .nil⟩
    · -- All but the end of a line is left.
      obtain ⟨record, isRecord, isSame⟩ := (readsLines line member).whole text isText
      refine iff_of_true ⟨some record, isRecord, .cons ⟨rfl, ?_⟩ .nil⟩ ?_
      · exact List.rel_append areSame (.cons isSame .nil)
      · rintro text ⟨⟩
        exact shortNil
  · refine iff_of_false ?_ fun harmless => isUtf8 harmless.1
    rintro ⟨blocks, read, areBlocks, -⟩
    obtain ⟨block, text, decoded, isText, -⟩ := (readsBlocks.lines
      (frame.1, done.map bytesOf) doneLoggable doneRunning noEnd _).mp areBlocks
    obtain ⟨texts, areTexts, -⟩ := Option.map_eq_some_iff.mp decoded
    exact isUtf8 ⟨texts, text, areTexts, isText⟩

end Cut

/-- What is read of a log that is cut is what is whole if and only if nothing goes wrong. -/
theorem readsLeft_iff
    (readsBlocks : ReadsBlocks reads normal last)
    {frames : List (Int × List α)}
    (readsLines : ∀ frame ∈ frames, ∀ line ∈ frame.2,
      ReadsLine bytesOf normal readLine same short line)
    (shortNil : short [])
    (skipsNil : readLine (normal []) = .ok none)
    (length : Nat) :
    ReadsLeft reads readLine bytesOf same frames length ↔
      Harmless bytesOf short frames length := by
  induction frames generalizing length with
  | nil =>
      have nothing : (writtenLog bytesOf []).take length = [] := by
        simp [writtenLog, logBytes]
      refine iff_of_true ⟨[], [], ?_, rfl, .nil⟩ ⟨?_, rfl, ?_⟩
      · rw [nothing]
        exact (readsBlocks.nothing []).mpr rfl
      · rw [nothing]
        rfl
      · rintro text ⟨⟩
        exact shortNil
  | cons frame frames inductionHypothesis =>
      obtain ⟨firstReads, restReads⟩ := List.forall_mem_cons.mp readsLines
      by_cases within : length ≤ (encode (decimal frame.1)).length
      · exact readsLeft_iff_of_le readsBlocks firstReads shortNil within
      · by_cases inFrame : length < (logBytes [written bytesOf frame]).length
        · exact readsLeft_iff_of_lt readsBlocks firstReads shortNil skipsNil
            (Nat.lt_of_not_le within) inFrame
        · obtain ⟨count, rfl⟩ := Nat.exists_eq_add_of_le (Nat.not_lt.mp inFrame)
          rw [readsLeft_cons readsBlocks firstReads, harmless_cons,
            inductionHypothesis restReads]

end Reading

end Parsing
end Bootchart
