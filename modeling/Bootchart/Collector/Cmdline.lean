import Bootchart.Collector.Taskstat
import Bootchart.Library.Scan

/-!
# Command lines

When a process replaces its program, `dump_cmdline` logs its pid, its executable and its
arguments. Line ends in arguments are overwritten with zeros in the buffer that is scanned.
-/

namespace Bootchart
namespace Collector

/-! ## The collector -/

/-- `PATH_MAX`. -/
def pathMax : Nat := 4096

/-- A string up to its terminating zero. -/
def cString (bytes : Bytes) : Bytes :=
  bytes.takeWhile (· ≠ 0)

/-- The loop that skips to the next argument: from an index to the next zero. -/
def skipToZero (buffer : Bytes) (i : Nat) : Nat :=
  Library.scan (· = 0) buffer i

/-- The buffer when a line end at an index is overwritten. -/
def overwrite (buffer : Bytes) (i : Nat) : Bytes :=
  if buffer.getD i 0 = 10 then buffer.set i 0 else buffer

/-- The index at the end of an argument: behind a line end the loop skips to the next zero. -/
def skipArgument (buffer : Bytes) (i : Nat) : Nat :=
  if buffer.getD i 0 = 10 then skipToZero (overwrite buffer i) i else i

/-- Overwriting keeps the length. -/
@[simp] theorem length_overwrite (buffer : Bytes) (i : Nat) :
    (overwrite buffer i).length = buffer.length := by
  unfold overwrite
  split
  · exact List.length_set
  · rfl

/-- Skipping an argument does not go back. -/
theorem le_skipArgument (buffer : Bytes) (i : Nat) : i ≤ skipArgument buffer i := by
  unfold skipArgument
  split
  · exact Library.le_scan _ _ i
  · exact le_refl i

/-- The loop over the arguments, from index `i` on with an argument from `start` on: what is
appended to the log. -/
def argumentsFrom (buffer : Bytes) (i start : Nat) : Bytes :=
  if i < buffer.length then
    if (overwrite buffer i).getD i 0 = 0 then
      ((overwrite buffer i).drop start).take (i - start + 1) ++
        argumentsFrom (overwrite buffer i) (skipArgument buffer i + 1) (skipArgument buffer i + 1)
    else argumentsFrom (overwrite buffer i) (i + 1) start
  else []
termination_by buffer.length - i
decreasing_by
  · have later := le_skipArgument buffer i
    rw [length_overwrite]
    omega
  · rw [length_overwrite]
    omega

/-- What is appended for the contents of `/proc/<pid>/cmdline`. -/
def writtenArguments (content : Bytes) : Bytes :=
  argumentsFrom ((content.take 4096).set 4095 0) 0 0

/-- `dump_cmdline`: what is appended, given the target of `/proc/<pid>/exe` and the contents of
`/proc/<pid>/cmdline`, if they are there. Nothing is said if `sprintf` writes behind the end of
`str`. -/
def dumpCmdline (pid : Pid) (exe cmdline : Option Bytes) : Option Bytes :=
  match exe with
  | none => some []
  | some target =>
      let path := target.take (pathMax - 1)
      let str := decimal pid ++ ([10, 58] ++ (cString path ++ [10, 58]))
      if str.length < pathMax then
        some (str ++ ((cmdline.elim [] writtenArguments) ++ [10, 10]))
      else none

/-! ## Arguments -/

/-- What is appended for the rest of a buffer behind the beginning of an argument. -/
def cutArguments (pending : Bytes) : Bytes → Bytes
  | [] => []
  | byte :: rest =>
      if byte = 0 ∨ byte = 10 then pending ++ 0 :: cutArguments [] rest
      else cutArguments (pending ++ [byte]) rest

/-- The byte at an index when a line end there is overwritten. -/
theorem overwrite_getD {buffer : Bytes} {i : Nat} (here : i < buffer.length) :
    (overwrite buffer i).getD i 0 = if buffer.getD i 0 = 10 then 0 else buffer.getD i 0 := by
  unfold overwrite
  split
  · simp [List.getD, here]
  · rfl

/-- A line end that is overwritten ends the argument: nothing is skipped. -/
theorem skipArgument_eq {buffer : Bytes} {i : Nat} (here : i < buffer.length) :
    skipArgument buffer i = i := by
  unfold skipArgument
  split
  next newline =>
    have inside : i < (overwrite buffer i).length := by rwa [length_overwrite]
    have isZero : (overwrite buffer i)[i] = 0 := by
      rw [← List.getD_eq_getElem _ 0 inside, overwrite_getD here, if_pos newline]
    exact Library.scan_of_stop (List.drop_eq_getElem_cons inside) (decide_eq_true isZero)
  next => rfl

/-- The bytes behind an index are not overwritten. -/
theorem drop_overwrite (buffer : Bytes) (i : Nat) :
    (overwrite buffer i).drop (i + 1) = buffer.drop (i + 1) := by
  unfold overwrite
  split
  · exact List.drop_set_of_lt (Nat.lt_succ_self i)
  · rfl

/-- Neither are the bytes in front of it. -/
theorem take_overwrite (buffer : Bytes) (i : Nat) :
    (overwrite buffer i).take i = buffer.take i := by
  unfold overwrite
  split
  · exact List.take_set_of_le (le_refl i)
  · rfl

/-- What is appended for an argument. -/
theorem take_drop_overwrite
    {buffer : Bytes}
    {i start : Nat}
    (ordered : start ≤ i)
    (here : i < buffer.length) :
    ((overwrite buffer i).drop start).take (i - start + 1) =
      (buffer.take i).drop start ++ [(overwrite buffer i).getD i 0] := by
  have inside : i < (overwrite buffer i).length := by rwa [length_overwrite]
  have count : i - start + 1 = i + 1 - start := by omega
  have long : start ≤ (buffer.take i).length := by
    rw [List.length_take]
    omega
  have isByte : (overwrite buffer i).getD i 0 = (overwrite buffer i)[i] :=
    List.getD_eq_getElem _ 0 inside
  rw [count, ← List.drop_take, List.take_succ_eq_append_getElem inside, take_overwrite,
    List.drop_append_of_le_length long, isByte]

/-- The loop appends each argument when it comes to its end. -/
theorem argumentsFrom_eq
    (buffer : Bytes)
    {i start : Nat}
    (ordered : start ≤ i) :
    argumentsFrom buffer i start =
      cutArguments ((buffer.take i).drop start) (buffer.drop i) := by
  fun_induction argumentsFrom with
  | case1 buffer i start here isEnd inductionHypothesis =>
      have rest := inductionHypothesis (le_refl _)
      rw [skipArgument_eq here, drop_overwrite, List.drop_take_self] at rest
      rw [take_drop_overwrite ordered here, isEnd, skipArgument_eq here, rest,
        List.drop_eq_getElem_cons here, cutArguments, if_pos, List.append_assoc]
      · rfl
      · rw [overwrite_getD here, List.getD_eq_getElem _ 0 here] at isEnd
        split at isEnd
        next newline => exact .inr newline
        next => exact .inl isEnd
  | case2 buffer i start here noEnd inductionHypothesis =>
      have rest := inductionHypothesis (Nat.le_succ_of_le ordered)
      rw [overwrite_getD here, List.getD_eq_getElem _ 0 here] at noEnd
      have other : buffer[i] ≠ 10 := fun newline => noEnd (if_pos newline)
      rw [if_neg other] at noEnd
      have same : overwrite buffer i = buffer := by
        rw [overwrite, List.getD_eq_getElem _ 0 here, if_neg other]
      have long : start ≤ (buffer.take i).length := by
        rw [List.length_take]
        omega
      rw [same] at rest ⊢
      rw [rest, List.drop_eq_getElem_cons here, cutArguments, if_neg (by simp [noEnd, other]),
        List.take_succ_eq_append_getElem here, List.drop_append_of_le_length long]
  | case3 buffer i start behind =>
      rw [List.drop_eq_nil_of_le (Nat.not_lt.mp behind)]
      rfl

/-- Arguments, each with a terminating zero. -/
def commandLine (arguments : List Bytes) : Bytes :=
  arguments.flatMap (· ++ [0])

@[simp] theorem commandLine_cons (argument : Bytes) (arguments : List Bytes) :
    commandLine (argument :: arguments) = argument ++ 0 :: commandLine arguments := by
  simp [commandLine]

/-- A byte, or a zero in the place of a line end. -/
def zeroLine (byte : UInt8) : UInt8 :=
  if byte = 10 then 0 else byte

/-- Up to a zero all bytes are appended, with zeros in the place of line ends. -/
theorem cutArguments_append (pending bytes rest : Bytes) :
    cutArguments pending (bytes ++ 0 :: rest) =
      pending ++ (bytes.map zeroLine ++ 0 :: cutArguments [] rest) := by
  induction bytes generalizing pending with
  | nil => simp [cutArguments]
  | cons byte bytes inductionHypothesis =>
      rw [List.cons_append, cutArguments]
      split
      next ends =>
        have isZero : zeroLine byte = 0 := by
          rcases ends with rfl | rfl <;> rfl
        rw [inductionHypothesis, List.map_cons, isZero]
        rfl
      next other =>
        have same : zeroLine byte = byte := if_neg fun newline => other (.inr newline)
        rw [inductionHypothesis, List.map_cons, same, List.append_assoc]
        rfl

/-- All bytes of terminated arguments are appended. -/
theorem cutArguments_commandLine (arguments : List Bytes) :
    cutArguments [] (commandLine arguments) = (commandLine arguments).map zeroLine := by
  induction arguments with
  | nil => rfl
  | cons argument arguments inductionHypothesis =>
      rw [commandLine_cons, cutArguments_append, inductionHypothesis, List.map_append, List.map_cons]
      rfl

/-- What is written of arguments that fit into the buffer: the line ends are overwritten. -/
theorem writtenArguments_commandLine
    {arguments : List Bytes}
    (fits : (commandLine arguments).length ≤ 4095) :
    writtenArguments (commandLine arguments) = (commandLine arguments).map zeroLine := by
  rw [writtenArguments, List.take_of_length_le (by omega), List.set_eq_of_length_le fits,
    argumentsFrom_eq _ (le_refl 0), ← cutArguments_commandLine]
  rfl

/-! ## Line ends in arguments -/

/-- An argument up to its first line end. -/
def firstLine (argument : Bytes) : Bytes :=
  argument.takeWhile (· ≠ 10)

/-- What is written has no line end, and one argument for each, up to its first line end. -/
structure WritesFirstLines (arguments : List Bytes) : Prop where
  /-- There is no line end. -/
  oneLine : 10 ∉ writtenArguments (commandLine arguments)
  /-- The arguments. -/
  each : writtenArguments (commandLine arguments) = commandLine (arguments.map firstLine)

/-- There is no line end in what is written. -/
theorem newline_not_mem_map (bytes : Bytes) : 10 ∉ bytes.map zeroLine := by
  intro member
  obtain ⟨byte, -, isLine⟩ := List.mem_map.mp member
  unfold zeroLine at isLine
  split at isLine
  · contradiction
  · contradiction

/-- The first line of an argument without line end is the argument. -/
theorem firstLine_eq_self {argument : Bytes} (oneLine : 10 ∉ argument) :
    firstLine argument = argument := by
  rw [firstLine, List.takeWhile_eq_self_iff]
  intro byte member
  exact decide_eq_true fun newline => oneLine (newline ▸ member)

/-- The first line is shorter if there is a line end. -/
theorem length_firstLine_lt {argument : Bytes} (newline : 10 ∈ argument) :
    (firstLine argument).length < argument.length := by
  have isPrefix := List.takeWhile_prefix (l := argument) (· ≠ 10)
  have whole : firstLine argument ≠ argument := by
    intro same
    rw [firstLine, List.takeWhile_eq_self_iff] at same
    exact absurd rfl (of_decide_eq_true (same 10 newline))
  exact lt_of_le_of_ne isPrefix.length_le fun long => whole (isPrefix.eq_of_length long)

/-- First lines of arguments are not longer than the arguments. -/
theorem length_firstLines_le (arguments : List Bytes) :
    (commandLine (arguments.map firstLine)).length ≤ (commandLine arguments).length := by
  induction arguments with
  | nil => exact le_refl _
  | cons argument arguments inductionHypothesis =>
      have short := (List.takeWhile_prefix (l := argument) (· ≠ 10)).length_le
      simp only [List.map_cons, commandLine_cons, List.length_append, List.length_cons]
      exact Nat.add_le_add short (Nat.succ_le_succ inductionHypothesis)

/-- They are as long if and only if no argument has a line end. -/
theorem length_firstLines_eq_iff (arguments : List Bytes) :
    (commandLine arguments).length = (commandLine (arguments.map firstLine)).length ↔
      ∀ argument ∈ arguments, 10 ∉ argument := by
  induction arguments with
  | nil => simp
  | cons argument arguments inductionHypothesis =>
      have less := length_firstLines_le arguments
      rw [List.forall_mem_cons, ← inductionHypothesis]
      simp only [List.map_cons, commandLine_cons, List.length_append, List.length_cons]
      by_cases newline : 10 ∈ argument
      · have shorter := length_firstLine_lt newline
        simp only [newline, not_true_eq_false, false_and, iff_false]
        omega
      · rw [firstLine_eq_self newline]
        simp only [newline, not_false_eq_true, true_and]
        omega

/-- Without line ends all arguments are written. -/
theorem writtenArguments_of_oneLine
    {arguments : List Bytes}
    (fits : (commandLine arguments).length ≤ 4095)
    (oneLine : ∀ argument ∈ arguments, 10 ∉ argument) :
    writtenArguments (commandLine arguments) = commandLine arguments := by
  have noNewline : 10 ∉ commandLine arguments := by
    intro member
    obtain ⟨argument, isArgument, here⟩ := List.mem_flatMap.mp member
    rcases List.mem_append.mp here with inArgument | isEnd
    · exact oneLine argument isArgument inArgument
    · exact absurd (List.mem_singleton.mp isEnd) (by decide)
  have same : ∀ byte ∈ commandLine arguments, zeroLine byte = byte := fun byte member =>
    if_neg fun newline : byte = 10 => noNewline (newline ▸ member)
  rw [writtenArguments_commandLine fits, List.map_congr_left same, List.map_id']

/-- What is written is right if and only if no argument has a line end. -/
theorem writesFirstLines_iff
    {arguments : List Bytes}
    (fits : (commandLine arguments).length ≤ 4095) :
    WritesFirstLines arguments ↔ ∀ argument ∈ arguments, 10 ∉ argument := by
  constructor
  · intro right
    have same := congrArg List.length right.each
    rw [writtenArguments_commandLine fits, List.length_map] at same
    exact (length_firstLines_eq_iff arguments).mp same
  · intro oneLine
    constructor
    case oneLine =>
      rw [writtenArguments_commandLine fits]
      exact newline_not_mem_map _
    case each =>
      have same : ∀ argument ∈ arguments, firstLine argument = argument :=
        fun argument member => firstLine_eq_self (oneLine argument member)
      rw [writtenArguments_of_oneLine fits oneLine, List.map_congr_left same, List.map_id']

/-- Two arguments without line ends. -/
theorem writesFirstLines_plain : WritesFirstLines [[108, 115], [45, 108]] :=
  (writesFirstLines_iff (by decide)).mpr (by decide)

/-- The second line of an argument is written as an argument of its own. -/
theorem not_writesFirstLines_twoLines :
    writtenArguments (commandLine [[97, 10, 98], [99]]) = [97, 0, 98, 0, 99, 0] ∧
      ¬WritesFirstLines [[97, 10, 98], [99]] := by
  have isWritten : writtenArguments (commandLine [[97, 10, 98], [99]]) = [97, 0, 98, 0, 99, 0] := by
    decide +kernel
  refine ⟨isWritten, fun right => ?_⟩
  have each := right.each
  rw [isWritten] at each
  exact absurd each (by decide)

end Collector
end Bootchart
