import Bootchart.Collector.Cmdline
import Bootchart.Parsing.Cmdline

/-!
# Command lines, from the collector to the chart

`dump_cmdline` writes a colon in front of the executable and the arguments, so that no line is
empty. `_parse_cmdline_log` removes all colons from the beginning of both lines.
-/

namespace Bootchart
namespace Parsing

open Library (Text Dict)
open Library.Text (paragraphs unlines)
open Library.Utf8 (encode decode)
open Collector (Pid commandLine writtenArguments dumpCmdline pathMax)

/-! ## Logs -/

/-- A process that is logged. -/
structure LoggedProcess where
  /-- The pid. -/
  pid : Pid
  /-- The path of the executable. -/
  exe : Bytes
  /-- The arguments. -/
  arguments : List Text
  /-- The path has no line end. -/
  exe_oneLine : 10 ∉ exe
  /-- A path has no zero. -/
  exe_noZero : 0 ∉ exe
  /-- The arguments have no line ends. -/
  oneLine : ∀ argument ∈ arguments, '\n' ∉ argument
  /-- The arguments have no zeros. -/
  noZero : ∀ argument ∈ arguments, '\x00' ∉ argument
  /-- The arguments are not too long. -/
  length_le : (commandLine (arguments.map encode)).length ≤ 4095

namespace LoggedProcess

/-- What is logged of a process. -/
def dumped (process : LoggedProcess) : Option Bytes :=
  dumpCmdline process.pid (some process.exe) (some (commandLine (process.arguments.map encode)))

/-- The line in front of the arguments fits into `str`. -/
def Fits (process : LoggedProcess) : Prop :=
  (Collector.decimal process.pid).length + process.exe.length + 5 ≤ pathMax

/-- The path is a text. -/
def IsText (process : LoggedProcess) : Prop :=
  (decode process.exe).isSome

/-- Neither the path nor the first argument begins with a colon. -/
def NoColon (process : LoggedProcess) : Prop :=
  process.exe.head? ≠ some 58 ∧ ∀ argument ∈ process.arguments.head?, argument.head? ≠ some ':'

instance : DecidablePred Fits := fun process =>
  inferInstanceAs (Decidable (_ + process.exe.length + 5 ≤ pathMax))

instance : DecidablePred IsText := fun process =>
  inferInstanceAs (Decidable ((decode process.exe).isSome = true))

instance : DecidablePred NoColon := fun process =>
  inferInstanceAs (Decidable (process.exe.head? ≠ some 58 ∧
    ∀ argument ∈ process.arguments.head?, argument.head? ≠ some ':'))

end LoggedProcess

/-- The log of some processes. -/
def cmdlineLog (processes : List LoggedProcess) : Option Bytes :=
  (processes.mapM LoggedProcess.dumped).map List.flatten

/-- The log of some processes tells their executables and arguments. -/
def TellsCmdlines (processes : List LoggedProcess) : Prop :=
  ∃ log cmdLines, cmdlineLog processes = some log ∧ parseCmdlineLog log = .ok cmdLines ∧
    ∀ process ∈ processes, ∃ cmdline, cmdLines.get? process.pid = some cmdline ∧
      encode cmdline.exe = process.exe ∧ cmdline.args = process.arguments

/-! ## Blocks -/

namespace LoggedProcess

variable (process : LoggedProcess)

/-- What is logged of a process whose path fits. -/
def bytes : Bytes :=
  Collector.decimal process.pid ++ ([10, 58] ++ (process.exe ++ [10, 58])) ++
    (commandLine (process.arguments.map encode) ++ [10, 10])

/-- A path that fits is logged as it is, and all arguments. -/
theorem dumped_of_fits (fits : process.Fits) : process.dumped = some process.bytes := by
  have short : process.exe.length ≤ pathMax - 1 := by
    unfold Fits at fits
    omega
  have noLine : ∀ argument ∈ process.arguments.map encode, 10 ∉ argument := by
    intro argument member newline
    obtain ⟨text, isArgument, rfl⟩ := List.mem_map.mp member
    exact process.oneLine text isArgument
      ((Library.Utf8.mem_encode (c := '\n') (by decide)).mp newline)
  have isString : Collector.cString process.exe = process.exe := by
    rw [Collector.cString, List.takeWhile_eq_self_iff]
    exact fun byte member => decide_eq_true fun isZero => process.exe_noZero (isZero ▸ member)
  rw [dumped, dumpCmdline]
  simp only [List.take_of_length_le short, isString, Option.elim_some,
    Collector.writtenArguments_of_oneLine process.length_le noLine]
  rw [if_pos]
  · rfl
  · unfold Fits at fits
    simp only [List.length_append, List.length_cons, List.length_nil]
    omega

/-- Nothing is said of a path that does not fit. -/
theorem dumped_of_not_fits (long : ¬process.Fits) : process.dumped = none := by
  have isString : (Collector.cString (process.exe.take (pathMax - 1))).length =
      min (pathMax - 1) process.exe.length := by
    rw [Collector.cString, List.takeWhile_eq_self_iff.mpr, List.length_take]
    exact fun byte member => decide_eq_true fun isZero =>
      process.exe_noZero (isZero ▸ List.mem_of_mem_take member)
  rw [dumped, dumpCmdline, if_neg]
  unfold Fits at long
  simp only [List.length_append, List.length_cons, List.length_nil, isString]
  omega

/-- The lines of a block. -/
def lines (exe : Text) : List Text :=
  [Library.Text.decimal process.pid, ':' :: exe,
    ':' :: process.arguments.flatMap (· ++ ['\x00'])]

/-- The bytes of the arguments. -/
theorem encode_arguments (arguments : List Text) :
    encode (arguments.flatMap (· ++ ['\x00'])) = commandLine (arguments.map encode) := by
  induction arguments with
  | nil => rfl
  | cons argument arguments inductionHypothesis =>
      rw [List.flatMap_cons, Library.Utf8.encode_append, inductionHypothesis, List.map_cons,
        Collector.commandLine_cons, Library.Utf8.encode_append, List.append_assoc]
      rfl

/-- A block in front of other blocks is decoded if the path is a text. -/
theorem decode_bytes_append (rest : Bytes) :
    decode (process.bytes ++ rest) =
      (decode process.exe).bind fun exe => (decode rest).map fun behind =>
        unlines (process.lines exe) ++ '\n' :: behind := by
  have opened : process.bytes ++ rest =
      encode (Library.Text.decimal process.pid ++ ['\n', ':']) ++
        (process.exe ++ UInt8.ofNat '\n'.toNat ::
          (encode (':' :: process.arguments.flatMap (· ++ ['\x00']) ++ ['\n', '\n']) ++ rest)) := by
    simp only [bytes, Library.Utf8.encode_append, Library.Utf8.encode_cons, encode_arguments,
      List.append_assoc]
    rfl
  rw [opened, Library.Utf8.decode_encode_append,
    Library.Utf8.decode_append_cons (by decide), Library.Utf8.decode_encode_append]
  cases decode process.exe <;> cases decode rest <;> simp [lines, unlines]

/-- What is read of a process. -/
def cmdline (exe : Text) : Cmdline where
  exe := exe.dropWhile (· = ':')
  args := (((process.arguments.flatMap (· ++ ['\x00'])).dropWhile (· = ':')).splitOn
    '\x00').dropLast

/-- The lines have no line ends. -/
theorem not_mem_lines
    {exe : Text}
    (oneLine : '\n' ∉ exe) : ∀ line ∈ process.lines exe, '\n' ∉ line := by
  have inArguments : '\n' ∉ process.arguments.flatMap (· ++ ['\x00']) := by
    intro member
    obtain ⟨argument, isArgument, here⟩ := List.mem_flatMap.mp member
    rcases List.mem_append.mp here with inArgument | isEnd
    · exact process.oneLine argument isArgument inArgument
    · exact absurd (List.mem_singleton.mp isEnd) (by decide)
  have inPid : '\n' ∉ Library.Text.decimal process.pid :=
    Library.Text.not_mem_decimal (by decide) (by decide) process.pid
  simp [lines, oneLine, inArguments, inPid]

/-- A block is read. -/
theorem cmdlineBlock_lines
    {exe : Text}
    (oneLine : '\n' ∉ exe)
    (cmdLines : Dict Int Cmdline) :
    cmdlineBlock cmdLines (['\n'].intercalate (process.lines exe)) =
      .ok (cmdLines.set process.pid (process.cmdline exe)) := by
  rw [cmdlineBlock, List.splitOn_intercalate '\n' (process.not_mem_lines oneLine)
    (by simp [lines])]
  simp only [lines, int, Library.Text.readInt_decimal]
  rfl

/-- Terminated arguments are told apart. -/
theorem splitOn_arguments
    {arguments : List Text}
    (noZero : ∀ argument ∈ arguments, '\x00' ∉ argument) :
    ((arguments.flatMap (· ++ ['\x00'])).splitOn '\x00').dropLast = arguments := by
  induction arguments with
  | nil => rfl
  | cons argument arguments inductionHypothesis =>
      rw [List.forall_mem_cons] at noZero
      rw [List.flatMap_cons, List.append_assoc, List.singleton_append,
        List.splitOn_append_cons_self_of_not_mem noZero.1,
        List.dropLast_cons_of_ne_nil (List.splitOn_ne_nil _ _), inductionHypothesis noZero.2]

/-- No colon is removed if and only if there is none at the beginning. -/
theorem dropWhile_colon_eq_self_iff (text : Text) :
    text.dropWhile (· = ':') = text ↔ text.head? ≠ some ':' := by
  cases text with
  | nil => simp
  | cons c text =>
      by_cases colon : c = ':'
      · have shorter := (List.dropWhile_suffix (l := text) (· = ':')).length_le
        rw [List.dropWhile_cons_of_pos (by simp [colon])]
        refine iff_of_false (fun same => ?_) (by simp [colon])
        have long := congrArg List.length same
        rw [List.length_cons] at long
        omega
      · rw [List.dropWhile_cons_of_neg (by simp [colon])]
        simp [colon]

/-- Colons in front of a zero are those of the argument. -/
theorem dropWhile_colon_append (argument rest : Text) :
    (argument ++ '\x00' :: rest).dropWhile (· = ':') =
      argument.dropWhile (· = ':') ++ '\x00' :: rest := by
  induction argument with
  | nil => rfl
  | cons c argument inductionHypothesis =>
      by_cases colon : c = ':'
      · rw [List.cons_append, List.dropWhile_cons_of_pos (by simp [colon]), inductionHypothesis,
          List.dropWhile_cons_of_pos (by simp [colon])]
      · rw [List.cons_append, List.dropWhile_cons_of_neg (by simp [colon]),
          List.dropWhile_cons_of_neg (by simp [colon]), List.cons_append]

/-- The arguments are read if and only if the first one does not begin with a colon. -/
theorem args_eq_iff
    {arguments : List Text}
    (noZero : ∀ argument ∈ arguments, '\x00' ∉ argument) :
    (((arguments.flatMap (· ++ ['\x00'])).dropWhile (· = ':')).splitOn '\x00').dropLast =
        arguments ↔
      ∀ argument ∈ arguments.head?, argument.head? ≠ some ':' := by
  cases arguments with
  | nil => exact iff_of_true rfl (by simp)
  | cons argument arguments =>
      have stripped : ((argument :: arguments).flatMap (· ++ ['\x00'])).dropWhile (· = ':') =
          (argument.dropWhile (· = ':') :: arguments).flatMap (· ++ ['\x00']) := by
        simp only [List.flatMap_cons, List.append_assoc, List.singleton_append,
          dropWhile_colon_append]
      have stillNoZero : ∀ text ∈ argument.dropWhile (· = ':') :: arguments, '\x00' ∉ text := by
        rw [List.forall_mem_cons] at noZero ⊢
        exact ⟨fun member => noZero.1 ((List.dropWhile_suffix _).subset member), noZero.2⟩
      rw [stripped, splitOn_arguments stillNoZero, List.cons.injEq, dropWhile_colon_eq_self_iff]
      simp

/-- The path as a text. -/
def exeText : Text :=
  (decode process.exe).getD []

variable {process}

/-- A path that is a text. -/
theorem decode_exe (isText : process.IsText) : decode process.exe = some process.exeText :=
  (Option.some_get isText).symm.trans (congrArg some (Option.get_eq_getD _))

/-- The text of a path has no line end. -/
theorem oneLine_exeText (isText : process.IsText) : '\n' ∉ process.exeText := by
  have encoded := Library.Utf8.decode_eq_some.mp (decode_exe isText)
  intro newline
  apply process.exe_oneLine
  rw [← encoded]
  exact (Library.Utf8.mem_encode (c := '\n') (by decide)).mpr newline

end LoggedProcess

open LoggedProcess

/-! ## Whole logs -/

variable {processes : List LoggedProcess}

/-- A log is written if and only if all paths fit. -/
theorem cmdlineLog_eq_some_iff {log : Bytes} :
    cmdlineLog processes = some log ↔
      (∀ process ∈ processes, process.Fits) ∧ processes.flatMap bytes = log := by
  have dumpedAll : (∀ process ∈ processes, process.Fits) →
      processes.mapM dumped = some (processes.map bytes) := by
    intro fits
    apply Library.mapM_eq_pure
    exact fun process member => process.dumped_of_fits (fits process member)
  constructor
  · intro isLog
    have fits : ∀ process ∈ processes, process.Fits := by
      intro process member
      by_contra long
      rw [cmdlineLog, Library.mapM_eq_none member (process.dumped_of_not_fits long)] at isLog
      contradiction
    rw [cmdlineLog, dumpedAll fits, Option.map_some, ← List.flatMap_def] at isLog
    exact ⟨fits, Option.some.inj isLog⟩
  · rintro ⟨fits, rfl⟩
    rw [cmdlineLog, dumpedAll fits, List.flatMap_def]
    rfl

/-- If a log can be decoded, all paths are texts. -/
theorem isText_of_decode
    {text : Text}
    (decoded : decode (processes.flatMap bytes) = some text) :
    ∀ process ∈ processes, process.IsText := by
  induction processes generalizing text with
  | nil => exact List.forall_mem_nil _
  | cons process processes inductionHypothesis =>
      rw [List.flatMap_cons, decode_bytes_append] at decoded
      obtain ⟨exe, isExe, rest⟩ := Option.bind_eq_some_iff.mp decoded
      obtain ⟨behind, isBehind, -⟩ := Option.map_eq_some_iff.mp rest
      exact List.forall_mem_cons.mpr ⟨Option.isSome_of_eq_some isExe, inductionHypothesis isBehind⟩

/-- If all paths are texts, the log is the text of all blocks. -/
theorem decode_of_isText (areTexts : ∀ process ∈ processes, process.IsText) :
    decode (processes.flatMap bytes) =
      some (processes.flatMap fun process => unlines (process.lines process.exeText) ++ ['\n']) := by
  induction processes with
  | nil => rfl
  | cons process processes inductionHypothesis =>
      rw [List.forall_mem_cons] at areTexts
      rw [List.flatMap_cons, decode_bytes_append, decode_exe areTexts.1,
        inductionHypothesis areTexts.2]
      simp

/-- The blocks are told apart. -/
theorem paragraphs_blocks (areTexts : ∀ process ∈ processes, process.IsText) :
    paragraphs (processes.flatMap fun process =>
        unlines (process.lines process.exeText) ++ ['\n']) =
      processes.map (fun process => ['\n'].intercalate (process.lines process.exeText)) ++ [[]] := by
  induction processes with
  | nil => rfl
  | cons process processes inductionHypothesis =>
      rw [List.forall_mem_cons] at areTexts
      rw [List.flatMap_cons, List.append_assoc, List.singleton_append, lines,
        Library.Text.paragraphs_unlines (process.not_mem_lines (oneLine_exeText areTexts.1))
          (by simp), inductionHypothesis areTexts.2]
      rfl

/-- What is read, process after process. -/
def readCmdlines (cmdLines : Dict Int Cmdline) (processes : List LoggedProcess) :
    Dict Int Cmdline :=
  processes.foldl (fun cmdLines process =>
    cmdLines.set process.pid (process.cmdline process.exeText)) cmdLines

/-- The blocks are read. -/
theorem foldlM_blocks
    (areTexts : ∀ process ∈ processes, process.IsText)
    (cmdLines : Dict Int Cmdline) :
    (processes.map (fun process : LoggedProcess =>
        ['\n'].intercalate (process.lines process.exeText)) ++ [[]]).foldlM cmdlineBlock cmdLines = .ok (readCmdlines cmdLines processes) := by
  induction processes generalizing cmdLines with
  | nil => rfl
  | cons process processes inductionHypothesis =>
      rw [List.forall_mem_cons] at areTexts
      rw [List.map_cons, List.cons_append, List.foldlM_cons,
        process.cmdlineBlock_lines (oneLine_exeText areTexts.1)]
      exact inductionHypothesis areTexts.2 _

/-- The log of processes whose paths are texts is read. -/
theorem parseCmdlineLog_bytes (areTexts : ∀ process ∈ processes, process.IsText) :
    parseCmdlineLog (processes.flatMap bytes) = .ok (readCmdlines Dict.empty processes) := by
  rw [parseCmdlineLog, decodeUtf8, decode_of_isText areTexts]
  exact (congrArg (List.foldlM cmdlineBlock Dict.empty) (paragraphs_blocks areTexts)).trans
    (foldlM_blocks areTexts Dict.empty)

/-- The bytes of a text begin with a colon if and only if the text does. -/
theorem head?_encode_eq_colon_iff (text : Text) :
    (encode text).head? = some 58 ↔ text.head? = some ':' := by
  cases text with
  | nil => simp
  | cons c text =>
      rw [Library.Utf8.encode_cons, List.head?_cons, Option.some.injEq]
      by_cases ascii : c.toNat < 128
      · rw [Library.Utf8.encodeChar_of_lt ascii, List.singleton_append, List.head?_cons,
          Option.some.injEq, ← UInt8.toNat_inj, UInt8.toNat_ofNat', ← Char.toNat_inj]
        change c.toNat % 256 = 58 ↔ c.toNat = 58
        omega
      · refine iff_of_false (fun colon => ?_) ?_
        · obtain ⟨byte, bytes, isEncoded⟩ :=
            List.exists_cons_of_ne_nil (@String.utf8EncodeChar_ne_nil c)
          have large := @Library.Utf8.le_of_mem_encodeChar c (Nat.not_lt.mp ascii) byte
            (by simp [isEncoded])
          rw [isEncoded, List.cons_append, List.head?_cons] at colon
          rw [Option.some.inj colon] at large
          exact absurd large (by decide)
        · rintro rfl
          exact ascii (by decide)

/-- A path is read if and only if it does not begin with a colon. -/
theorem encode_exe_iff {process : LoggedProcess} (isText : process.IsText) :
    encode (process.cmdline process.exeText).exe = process.exe ↔ process.exe.head? ≠ some 58 := by
  have encoded := Library.Utf8.decode_eq_some.mp (decode_exe isText)
  rw [← encoded, Library.Utf8.encode_injective.eq_iff, ne_eq, head?_encode_eq_colon_iff]
  exact dropWhile_colon_eq_self_iff process.exeText

/-- A log tells executables and arguments if and only if, for each process, the path fits and is
a text, and neither the path nor the first argument begins with a colon. -/
theorem tellsCmdlines_iff (distinct : (processes.map (·.pid)).Nodup) :
    TellsCmdlines processes ↔
      ∀ process ∈ processes, process.Fits ∧ process.IsText ∧ process.NoColon := by
  have told : ∀ process ∈ processes, (readCmdlines Dict.empty processes).get? process.pid =
      some (process.cmdline process.exeText) := fun process member =>
    Library.Dict.get?_foldl_set distinct member Dict.empty
  have noColon : ∀ process : LoggedProcess, process.IsText →
      ((encode (process.cmdline process.exeText).exe = process.exe ∧
        (process.cmdline process.exeText).args = process.arguments) ↔ process.NoColon) :=
    fun process isText => and_congr (encode_exe_iff isText) (args_eq_iff process.noZero)
  constructor
  · rintro ⟨log, cmdLines, isLog, isParsed, right⟩ process member
    obtain ⟨fits, rfl⟩ := cmdlineLog_eq_some_iff.mp isLog
    have areTexts : ∀ process ∈ processes, process.IsText := by
      cases decoded : decode (processes.flatMap bytes) with
      | none =>
          rw [parseCmdlineLog, decodeUtf8, decoded] at isParsed
          contradiction
      | some text => exact isText_of_decode decoded
    rw [parseCmdlineLog_bytes areTexts] at isParsed
    obtain rfl := Except.ok.inj isParsed
    obtain ⟨cmdline, found, exe, args⟩ := right process member
    obtain rfl := Option.some.inj ((told process member).symm.trans found)
    exact ⟨fits process member, areTexts process member,
      (noColon process (areTexts process member)).mp ⟨exe, args⟩⟩
  · intro plain
    refine ⟨_, _, cmdlineLog_eq_some_iff.mpr ⟨fun process member => (plain process member).1, rfl⟩,
      parseCmdlineLog_bytes fun process member => (plain process member).2.1,
      fun process member => ⟨_, told process member, ?_⟩⟩
    exact (noColon process (plain process member).2.1).mpr (plain process member).2.2

/-- A process with an argument. -/
def withArgument (argument : Text) (oneLine : '\n' ∉ argument) (noZero : '\x00' ∉ argument)
    (length_le : (commandLine ([argument].map encode)).length ≤ 4095) : LoggedProcess where
  pid := 7
  exe := encode "/bin/sh".toList
  arguments := [argument]
  exe_oneLine := by decide
  exe_noZero := by decide
  oneLine := List.forall_mem_singleton.mpr oneLine
  noZero := List.forall_mem_singleton.mpr noZero
  length_le := length_le

/-- A process with several arguments, one of which is empty and one begins with a colon. -/
def severalArguments : LoggedProcess where
  pid := 19
  exe := encode "/opt/é".toList
  arguments := ["é".toList, [], ":0".toList]
  exe_oneLine := by decide
  exe_noZero := by decide
  oneLine := by decide
  noZero := by decide
  length_le := by decide +kernel

/-- Two processes are told. -/
theorem tellsCmdlines_two :
    TellsCmdlines [withArgument "sh".toList (by decide) (by decide) (by decide +kernel),
      severalArguments] := by
  apply (tellsCmdlines_iff (by decide)).mpr
  intro process member
  rcases List.mem_cons.mp member with rfl | isSecond
  · exact ⟨by decide +kernel, by decide +kernel, by decide +kernel⟩
  · rw [List.mem_singleton.mp isSecond]
    exact ⟨by decide +kernel, by decide +kernel, by decide +kernel⟩

/-- The colon of an argument is removed. -/
theorem not_tellsCmdlines_colon :
    ¬TellsCmdlines [withArgument ":0".toList (by decide) (by decide) (by decide +kernel)] := by
  rintro ⟨log, cmdLines, isLog, isParsed, right⟩
  have removed : ((cmdlineLog [withArgument ":0".toList (by decide) (by decide)
      (by decide +kernel)]).bind fun log => (parseCmdlineLog log).toOption.bind fun cmdLines =>
        (cmdLines.get? 7).map (·.args)) = some ["0".toList] := by
    decide +kernel
  rw [isLog, Option.bind_some, isParsed] at removed
  obtain ⟨cmdline, found, -, args⟩ := right _ (List.mem_singleton.mpr rfl)
  have isFound : cmdLines.get? 7 = some cmdline := found
  rw [Except.toOption, Option.bind_some, isFound, Option.map_some, args] at removed
  exact absurd (Option.some.inj removed) (by decide)

end Parsing
end Bootchart
