import Bootchart.Collector.Output
import Bootchart.Library.Scan

/-!
# The kernel log

`dump_dmsg` reads the log of the kernel into a buffer that is large enough and writes its lines
without the header that tells their level. All loops go forward with the same index.
-/

namespace Bootchart
namespace Collector

/-! ## The collector -/

/-- The loop that enlarges the buffer, for sizes that an `int` holds: what `klogctl` has put into
the buffer. -/
def readKernelLog (klogctl : Nat → Bytes) : Nat → Nat → Option Bytes
  | 0, _ => none
  | rounds + 1, size =>
      let logbuf := klogctl size
      if logbuf.length < size - 1 then some logbuf else readKernelLog klogctl rounds (size * 2)

/-- The loop that skips the header of a line: from an index to the next `>`. -/
def skipHeader (logbuf : Bytes) (i : Nat) : Nat :=
  Library.scan (· = 62) logbuf i

/-- The loop that drops a line to the disk: the bytes it writes, and the index behind them. -/
def dropLine (logbuf : Bytes) (i : Nat) : Bytes × Nat :=
  if i < logbuf.length ∧ logbuf.getD (i - 1) 0 ≠ 10 then
    (logbuf.getD i 0 :: (dropLine logbuf (i + 1)).1, (dropLine logbuf (i + 1)).2)
  else ([], i)
termination_by logbuf.length - i

/-- Dropping a line does not go back. -/
theorem le_dropLine (logbuf : Bytes) (i : Nat) : i ≤ (dropLine logbuf i).2 := by
  fun_induction dropLine with
  | case1 i _ inductionHypothesis => exact Nat.le_of_succ_le inductionHypothesis
  | case2 i _ => exact Nat.le_refl i

/-- The loop over the lines, from an index on: what is written. -/
def dropLines (logbuf : Bytes) (i : Nat) : Bytes :=
  if i < logbuf.length then
    (dropLine logbuf (skipHeader logbuf i + 1)).1 ++
      dropLines logbuf ((dropLine logbuf (skipHeader logbuf i + 1)).2 + 1)
  else []
termination_by logbuf.length - i
decreasing_by
  have header := Library.le_scan (· = 62) logbuf i
  have line := le_dropLine logbuf (skipHeader logbuf i + 1)
  unfold skipHeader at *
  omega

/-- `dump_dmsg`: what is written to the file, if there is anything in the log and the file can
be opened. -/
def dumpDmsg (klogctl : Nat → Bytes) : Option Bytes :=
  (readKernelLog klogctl 13 (256 * 1024)).bind fun logbuf =>
    if logbuf = [] then none
    else some (dropLines logbuf 0 ++
      if logbuf.getD (logbuf.length - 1) 0 ≠ 10 then [10] else [])

/-! ## The buffer -/

/-- `klogctl (3, logbuf, size)` of a kernel with a log: the last bytes of the log. -/
def lastBytes (log : Bytes) (size : Nat) : Bytes :=
  log.drop (log.length - size)

/-- The buffer is enlarged until the whole log is read. -/
theorem readKernelLog_lastBytes
    {log : Bytes}
    {rounds size : Nat}
    (positive : 0 < size)
    (large : log.length + 1 < size * 2 ^ rounds) :
    readKernelLog (lastBytes log) (rounds + 1) size = some log := by
  induction rounds generalizing size with
  | zero =>
      rw [pow_zero, Nat.mul_one] at large
      have whole : lastBytes log size = log := by
        rw [lastBytes, Nat.sub_eq_zero_of_le (by omega), List.drop_zero]
      have fits : (lastBytes log size).length < size - 1 := by
        rw [whole]
        omega
      rw [readKernelLog, if_pos fits, whole]
  | succ rounds inductionHypothesis =>
      have length : (lastBytes log size).length = log.length - (log.length - size) :=
        List.length_drop
      rw [readKernelLog]
      split
      next fits =>
        rw [lastBytes, Nat.sub_eq_zero_of_le (by omega), List.drop_zero]
      next =>
        apply inductionHypothesis (by omega)
        rwa [pow_succ, Nat.mul_comm (2 ^ rounds), ← Nat.mul_assoc] at large

/-! ## Lines -/

/-- A line of the kernel log. -/
structure DmsgLine where
  /-- The level. -/
  level : Bytes
  /-- The text. -/
  text : Bytes
  /-- A level consists of digits. -/
  isLevel : ∀ byte ∈ level, 48 ≤ byte ∧ byte ≤ 57
  /-- The text has no line end. -/
  oneLine : 10 ∉ text

namespace DmsgLine

/-- The line with its header. -/
def bytes (line : DmsgLine) : Bytes :=
  60 :: (line.level ++ 62 :: line.text)

/-- The line with its header and its end. -/
def ended (line : DmsgLine) : Bytes :=
  line.bytes ++ [10]

/-- The text with its end. -/
def dropped (line : DmsgLine) : Bytes :=
  line.text ++ [10]

end DmsgLine

/-- A log consists of some lines, each with a line end, but the last line may lack it. -/
def IsDmsg (lines : List DmsgLine) (logbuf : Bytes) : Prop :=
  logbuf = lines.flatMap DmsgLine.ended ∨
    logbuf ++ [10] = lines.flatMap DmsgLine.ended

/-! ## Loops -/

section

variable {logbuf : Bytes} {i : Nat}

/-- A byte is dropped if the one in front of it is no line end. -/
theorem dropLine_cons
    {byte : UInt8}
    {rest : Bytes}
    (isBehind : logbuf.drop i = byte :: rest)
    (inLine : logbuf.getD (i - 1) 0 ≠ 10) :
    dropLine logbuf i = (byte :: (dropLine logbuf (i + 1)).1, (dropLine logbuf (i + 1)).2) := by
  have isByte := Library.getElem?_of_drop isBehind
  obtain ⟨here, -⟩ := List.getElem?_eq_some_iff.mp isByte
  rw [dropLine, if_pos ⟨here, inLine⟩, List.getD, isByte, Option.getD_some]

/-- The byte in front of the next index. -/
theorem getD_pred_succ
    {byte : UInt8}
    {rest : Bytes}
    (isBehind : logbuf.drop i = byte :: rest) : logbuf.getD (i + 1 - 1) 0 = byte := by
  rw [Nat.add_sub_cancel, List.getD, Library.getElem?_of_drop isBehind, Option.getD_some]

/-- A text without line end is dropped, and what is behind it still belongs to the line. -/
theorem dropLine_text
    {text rest : Bytes}
    (isBehind : logbuf.drop i = text ++ rest)
    (oneLine : 10 ∉ text)
    (inLine : logbuf.getD (i - 1) 0 ≠ 10) :
    logbuf.getD (i + text.length - 1) 0 ≠ 10 ∧
      dropLine logbuf i = (text ++ (dropLine logbuf (i + text.length)).1,
        (dropLine logbuf (i + text.length)).2) := by
  induction text generalizing i with
  | nil => exact ⟨inLine, rfl⟩
  | cons byte text inductionHypothesis =>
      rw [List.mem_cons, not_or] at oneLine
      have stillInLine : logbuf.getD (i + 1 - 1) 0 ≠ 10 := by
        rw [getD_pred_succ isBehind]
        exact fun newline => oneLine.1 newline.symm
      obtain ⟨atEnd, behind⟩ := inductionHypothesis (Library.drop_succ_of_drop isBehind)
        oneLine.2 stillInLine
      have sameIndex : i + (byte :: text).length = i + 1 + text.length := by
        rw [List.length_cons]
        omega
      rw [sameIndex]
      refine ⟨atEnd, ?_⟩
      rw [dropLine_cons isBehind inLine, behind, List.cons_append]

/-- A text is dropped up to its line end. -/
theorem dropLine_line
    {text rest : Bytes}
    (isBehind : logbuf.drop i = text ++ 10 :: rest)
    (oneLine : 10 ∉ text)
    (inLine : logbuf.getD (i - 1) 0 ≠ 10) :
    dropLine logbuf i = (text ++ [10], i + text.length + 1) := by
  obtain ⟨stillInLine, isDropped⟩ := dropLine_text isBehind oneLine inLine
  have atNewline := Library.drop_add_of_drop isBehind
  have ended : dropLine logbuf (i + text.length + 1) = ([], i + text.length + 1) := by
    rw [dropLine, if_neg fun both => both.2 (getD_pred_succ atNewline)]
  rw [isDropped, dropLine_cons atNewline stillInLine, ended]

/-- A text is dropped up to the end of the log. -/
theorem dropLine_end
    {text : Bytes}
    (isBehind : logbuf.drop i = text)
    (oneLine : 10 ∉ text)
    (inLine : logbuf.getD (i - 1) 0 ≠ 10) :
    dropLine logbuf i = (text, i + text.length) := by
  rw [← List.append_nil text] at isBehind
  obtain ⟨-, isDropped⟩ := dropLine_text isBehind oneLine inLine
  have atEnd := List.drop_eq_nil_iff.mp (Library.drop_add_of_drop isBehind)
  have ended : dropLine logbuf (i + text.length) = ([], i + text.length) := by
    rw [dropLine, if_neg fun both => both.1.not_ge atEnd]
  rw [isDropped, ended, List.append_nil]

/-- No byte of a level ends the header. -/
theorem level_ne (line : DmsgLine) : ∀ byte ∈ line.level, decide (byte = 62) = false := by
  intro byte member
  apply decide_eq_false
  rintro rfl
  exact absurd (line.isLevel 62 member).2 (by decide)

/-- The header of a line is skipped, also if its first byte is in front of the index. -/
theorem skipHeader_bytes
    {line : DmsgLine}
    {rest : Bytes}
    {skipped : Nat}
    (isBehind : logbuf.drop i = (line.bytes ++ rest).drop skipped)
    (atMostOne : skipped ≤ 1) :
    i < logbuf.length ∧ logbuf.drop (skipHeader logbuf i + 1) = line.text ++ rest ∧
      logbuf.getD (skipHeader logbuf i + 1 - 1) 0 ≠ 10 := by
  obtain ⟨before, isHeader, passes⟩ : ∃ before, logbuf.drop i =
      before ++ 62 :: (line.text ++ rest) ∧ ∀ byte ∈ before, decide (byte = 62) = false := by
    rcases Nat.le_one_iff_eq_zero_or_eq_one.mp atMostOne with rfl | rfl
    · refine ⟨60 :: line.level, by rw [isBehind]; simp [DmsgLine.bytes], ?_⟩
      exact List.forall_mem_cons.mpr ⟨by decide, level_ne line⟩
    · exact ⟨line.level, by rw [isBehind]; simp [DmsgLine.bytes], level_ne line⟩
  have atHeaderEnd : logbuf.drop (skipHeader logbuf i) = 62 :: (line.text ++ rest) := by
    rw [skipHeader, Library.scan_eq isHeader passes (by decide)]
    exact Library.drop_add_of_drop isHeader
  refine ⟨?_, Library.drop_succ_of_drop atHeaderEnd, ?_⟩
  · by_contra atEnd
    rw [List.drop_eq_nil_of_le (Nat.not_lt.mp atEnd)] at isHeader
    simp at isHeader
  · rw [getD_pred_succ atHeaderEnd]
    decide

/-- The end of a log: nothing, or a line without line end. -/
def lastLine (last : Option DmsgLine) : Bytes :=
  last.elim [] DmsgLine.bytes

/-- Behind the lines nothing is dropped. -/
theorem dropLines_nil (atEnd : logbuf.length ≤ i) : dropLines logbuf i = [] := by
  rw [dropLines, if_neg (Nat.not_lt.mpr atEnd)]

/-- The texts of all lines are dropped, also if the first byte is in front of the index. -/
theorem dropLines_eq
    {lines : List DmsgLine}
    {last : Option DmsgLine}
    {skipped : Nat}
    (isBehind : logbuf.drop i =
      (lines.flatMap DmsgLine.ended ++ lastLine last).drop skipped)
    (atMostOne : skipped ≤ 1) :
    dropLines logbuf i =
      lines.flatMap DmsgLine.dropped ++ last.elim [] DmsgLine.text := by
  induction lines generalizing i skipped with
  | nil =>
      cases last with
      | none =>
          apply dropLines_nil
          rw [← List.drop_eq_nil_iff, isBehind]
          exact List.drop_nil
      | some line =>
          have isLine : logbuf.drop i = (line.bytes ++ []).drop skipped := by
            rw [isBehind, List.append_nil]
            rfl
          obtain ⟨here, isText, inLine⟩ := skipHeader_bytes isLine atMostOne
          rw [List.append_nil] at isText
          have isDropped := dropLine_end isText line.oneLine inLine
          have atEnd : logbuf.length ≤ skipHeader logbuf i + 1 + line.text.length + 1 := by
            have long := congrArg List.length isText
            rw [List.length_drop] at long
            omega
          rw [dropLines, if_pos here, isDropped, dropLines_nil atEnd, List.append_nil]
          rfl
  | cons line lines inductionHypothesis =>
      have isLine : logbuf.drop i = (line.bytes ++
          10 :: (lines.flatMap DmsgLine.ended ++ lastLine last)).drop
            skipped := by
        rw [isBehind, List.flatMap_cons]
        simp only [DmsgLine.ended, List.append_assoc, List.cons_append, List.nil_append]
      obtain ⟨here, isText, inLine⟩ := skipHeader_bytes isLine atMostOne
      have isDropped := dropLine_line isText line.oneLine inLine
      have isRest : logbuf.drop (skipHeader logbuf i + 1 + line.text.length + 1 + 1) =
          (lines.flatMap DmsgLine.ended ++ lastLine last).drop 1 := by
        have behindText := Library.drop_add_of_drop isText
        rw [← List.drop_drop, Library.drop_succ_of_drop behindText]
      rw [dropLines, if_pos here, isDropped, inductionHypothesis isRest (Nat.le_refl 1)]
      simp only [DmsgLine.dropped, List.flatMap_cons, List.append_assoc]

end

/-! ## The file -/

/-- The last byte of a buffer. -/
theorem getD_length_sub_one (bytes : Bytes) (byte : UInt8) :
    (bytes ++ [byte]).getD ((bytes ++ [byte]).length - 1) 0 = byte := by
  simp

/-- A line ends where its text ends, or its header. -/
theorem bytes_eq_concat (line : DmsgLine) :
    ∃ before byte, line.bytes = before ++ [byte] ∧ byte ≠ 10 := by
  rcases List.eq_nil_or_concat line.text with isEmpty | ⟨before, byte, isText⟩
  · exact ⟨60 :: line.level, 62, by rw [DmsgLine.bytes, isEmpty]; rfl, by decide⟩
  · refine ⟨60 :: (line.level ++ 62 :: before), byte, ?_, ?_⟩
    · rw [DmsgLine.bytes, isText]
      simp
    · rintro rfl
      exact line.oneLine (by simp [isText])

/-- A log is cut into its lines: the last one may lack its end. -/
theorem exists_of_isDmsg
    {lines : List DmsgLine}
    {logbuf : Bytes}
    (isDmsg : IsDmsg lines logbuf) :
    logbuf = lines.flatMap DmsgLine.ended ∨
      ∃ first last, lines = first ++ [last] ∧
        logbuf = first.flatMap DmsgLine.ended ++ last.bytes := by
  rcases isDmsg with isEnded | lacksEnd
  · exact .inl isEnded
  · rcases List.eq_nil_or_concat lines with rfl | ⟨first, last, rfl⟩
    · exact absurd lacksEnd (by simp)
    · refine .inr ⟨first, last, List.concat_eq_append, ?_⟩
      rw [List.concat_eq_append, List.flatMap_append, List.flatMap_singleton, DmsgLine.ended,
        ← List.append_assoc] at lacksEnd
      exact (List.append_singleton_inj.mp lacksEnd).1

/-- What is written of a log that ends in a byte. -/
theorem dumpDmsg_concat
    {klogctl : Nat → Bytes}
    {before : Bytes}
    {byte : UInt8}
    (isRead : readKernelLog klogctl 13 (256 * 1024) = some (before ++ [byte])) :
    dumpDmsg klogctl =
      some (dropLines (before ++ [byte]) 0 ++ if byte ≠ 10 then [10] else []) := by
  rw [dumpDmsg, isRead, Option.bind_some, if_neg (by simp), getD_length_sub_one]

/-- What is written of the lines of a log: each text once and in order, with a line end. -/
theorem dumpDmsg_eq
    {klogctl : Nat → Bytes}
    {logbuf : Bytes}
    {lines : List DmsgLine}
    (isRead : readKernelLog klogctl 13 (256 * 1024) = some logbuf)
    (isDmsg : IsDmsg lines logbuf) :
    dumpDmsg klogctl =
      if lines = [] then none else some (lines.flatMap DmsgLine.dropped) := by
  rcases exists_of_isDmsg isDmsg with rfl | ⟨first, last, rfl, rfl⟩
  · rcases List.eq_nil_or_concat lines with rfl | ⟨first, last, rfl⟩
    · rw [dumpDmsg, isRead]
      rfl
    · have ended : (first.concat last).flatMap DmsgLine.ended =
          first.flatMap DmsgLine.ended ++ last.bytes ++ [10] := by
        simp [DmsgLine.ended]
      have written := @dropLines_eq ((first.concat last).flatMap DmsgLine.ended) 0
        (first.concat last) none 0 (by simp [lastLine]) (by decide)
      rw [ended] at isRead
      rw [dumpDmsg_concat isRead, ← ended, written, if_neg (by simp), if_neg (by simp)]
      simp
  · obtain ⟨before, byte, isLast, noEnd⟩ := bytes_eq_concat last
    have written := @dropLines_eq (first.flatMap DmsgLine.ended ++ last.bytes) 0 first (some last)
      0 rfl (by decide)
    rw [isLast, ← List.append_assoc] at isRead written
    rw [dumpDmsg_concat isRead, written, if_pos noEnd, if_neg (by simp), List.flatMap_append]
    simp [DmsgLine.dropped]

/-- Two lines, one with brackets in its text and one without text and line end. -/
theorem dumpDmsg_twoLines :
    dumpDmsg (lastBytes [60, 54, 62, 60, 97, 62, 10, 60, 52, 62]) =
      some [60, 97, 62, 10, 10] :=
  dumpDmsg_eq (readKernelLog_lastBytes (by decide) (by decide))
    (.inr rfl : IsDmsg
      [{ level := [54]
         text := [60, 97, 62]
         isLevel := List.forall_mem_singleton.mpr (by decide)
         oneLine := by decide },
       { level := [52]
         text := []
         isLevel := List.forall_mem_singleton.mpr (by decide)
         oneLine := by decide }] _)

end Collector
end Bootchart
