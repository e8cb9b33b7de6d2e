import Bootchart.Collector.Taskstat
import Bootchart.Parsing.BlockText
import Bootchart.Parsing.Taskstats

/-!
# Reading back what the collector writes about a process

The collector prints a command name between spaces as it is; the parser splits
the line at spaces and strips parentheses. Both agree exactly on the names
without spaces and without parentheses at their ends.
-/

namespace Bootchart
namespace Parsing

open Library (Text)
open Library.Text (decimal stripChars)
open Collector (Taskstats Pid taskstatText taskstatLine)

/-- A record the collector can write. -/
structure Writable (ts : Taskstats) : Prop where
  /-- There is a name. -/
  nonempty : ts.acComm ≠ []
  /-- It has at most 15 bytes. -/
  length_le : ts.acComm.length ≤ 15
  /-- It has no line end. -/
  noEnd : 10 ∉ ts.acComm
  /-- The time on the processor is not negative. -/
  cpu_nonneg : 0 ≤ ts.cpuRunRealTotal.toInt
  /-- The time waiting for devices is not negative. -/
  blkio_nonneg : 0 ≤ ts.blkioDelayTotal.toInt
  /-- The time waiting for pages is not negative. -/
  swapin_nonneg : 0 ≤ ts.swapinDelayTotal.toInt

/-- A log with the lines of `dump_taskstat` for given statistics and parents. -/
def taskstatLog (frames : List (Int × List (Taskstats × Pid))) : Bytes :=
  frames.flatMap fun frame =>
    Collector.decimal frame.1 ++ [10] ++
      frame.2.flatMap (fun sample => taskstatLine sample.1 sample.2) ++ [10]

/-- A record says what was written. -/
structure SameRecord (sample : Taskstats × Pid) (record : TaskstatRecord) :
    Prop where
  /-- The same process. -/
  opid : record.opid = sample.1.acPid
  /-- The same parent. -/
  ppid : record.ppid = sample.2
  /-- The same name. -/
  cmd : Library.Utf8.encode record.cmd = sample.1.acComm
  /-- The same time on the processor. -/
  cpuNs : record.cpuNs = sample.1.cpuRunRealTotal.toNat
  /-- The same time waiting for devices. -/
  blkioDelayNs : record.blkioDelayNs = sample.1.blkioDelayTotal.toNat
  /-- The same time waiting for pages. -/
  swapinDelayNs : record.swapinDelayNs = sample.1.swapinDelayTotal.toNat

/-- The parser applies exactly one update for each line, with what was written. -/
def Recovered (frames : List (Int × List (Taskstats × Pid))) : Prop :=
  ∃ read, taskstatRecords (taskstatLog frames) = .ok read ∧
    List.Forall₂ (fun frame block => block.1 = frame.1 ∧
      List.Forall₂ SameRecord frame.2 block.2) frames read

/-- A name that survives: UTF-8, without spaces, and without a parenthesis at
either end. -/
def PlainName (comm : Bytes) : Prop :=
  ∃ name, Library.Utf8.encode name = comm ∧ ' ' ∉ name ∧
    (∀ c ∈ name.head?, ¬IsParen c) ∧ ∀ c ∈ name.getLast?, ¬IsParen c

/-! ## One line -/

/-- The text of a line with a given name. -/
def lineText (sample : Taskstats × Pid) (name : Text) : Text :=
  decimal sample.1.acPid ++ ' ' :: (decimal sample.2 ++ ' ' :: (name ++
    ' ' :: (decimal sample.1.cpuRunRealTotal.toInt ++
      ' ' :: (decimal sample.1.blkioDelayTotal.toInt ++
        ' ' :: decimal sample.1.swapinDelayTotal.toInt))))

/-- The record of a line with a given name. -/
def lineRecord (sample : Taskstats × Pid) (name : Text) : TaskstatRecord where
  opid := sample.1.acPid
  ppid := sample.2
  cmd := stripChars [')'] (stripChars ['('] name)
  cpuNs := sample.1.cpuRunRealTotal.toInt
  blkioDelayNs := sample.1.blkioDelayTotal.toInt
  swapinDelayNs := sample.1.swapinDelayTotal.toInt

/-- A line is UTF-8 if its name is. -/
theorem decode_taskstatText (sample : Taskstats × Pid) :
    Library.Utf8.decode (taskstatText sample.1 sample.2) =
      (Library.Utf8.decode sample.1.acComm).map (lineText sample) := by
  have space : ∀ left right : Bytes, Library.Utf8.decode (left ++ 32 :: right) =
      (Library.Utf8.decode left).bind fun before =>
        (Library.Utf8.decode right).map fun behind => before ++ ' ' :: behind :=
    Library.Utf8.decode_append_cons (c := ' ') (by decide)
  simp only [taskstatText, Collector.decimal, space, Library.Utf8.decode_encode]
  cases Library.Utf8.decode sample.1.acComm <;> simp [lineText]

/-- The tokens of a line: the name may be several. -/
theorem splitOn_lineText (sample : Taskstats × Pid) (name : Text) :
    (lineText sample name).splitOn ' ' =
      decimal sample.1.acPid :: decimal sample.2 :: (name.splitOn ' ' ++
        [decimal sample.1.cpuRunRealTotal.toInt,
          decimal sample.1.blkioDelayTotal.toInt,
          decimal sample.1.swapinDelayTotal.toInt]) := by
  have noSpace : ∀ number, ' ' ∉ decimal number :=
    Library.Text.not_mem_decimal rfl (by decide)
  unfold lineText
  rw [List.splitOn_append_cons_self_of_not_mem (noSpace _),
    List.splitOn_append_cons_self_of_not_mem (noSpace _),
    List.splitOn_append_cons_self,
    List.splitOn_append_cons_self_of_not_mem (noSpace _),
    List.splitOn_append_cons_self_of_not_mem (noSpace _),
    List.splitOn_eq_singleton (noSpace _)]

/-- A name with a space is more than one token. -/
theorem two_le_length_splitOn {name : Text} (space : ' ' ∈ name) :
    2 ≤ (name.splitOn ' ').length := by
  have some := List.count_pos_iff.mpr space
  rw [Library.Text.length_splitOn]
  omega

/-- A line is read unless its name has a space. -/
theorem parseTaskstatLine_lineText (sample : Taskstats × Pid) (name : Text) :
    parseTaskstatLine (lineText sample name) =
      .ok (if ' ' ∈ name then none else some (lineRecord sample name)) := by
  rw [parseTaskstatLine, splitOn_lineText]
  by_cases space : ' ' ∈ name
  · have tooMany := two_le_length_splitOn space
    rw [if_pos space]
    split
    · rename_i tokens
      have count := congrArg List.length tokens
      simp at count
      omega
    · rfl
  · rw [if_neg space, List.splitOn_eq_singleton space]
    simp only [List.singleton_append, int, Library.Text.readInt_decimal]
    rfl

/-- Stripping parentheses changes nothing if there is none at either end. -/
theorem stripParens_eq_self {name : Text} :
    stripChars [')'] (stripChars ['('] name) = name ↔
      (∀ c ∈ name.head?, ¬IsParen c) ∧ ∀ c ∈ name.getLast?, ¬IsParen c := by
  have opening := Library.Text.stripBy_eq_self (['('].contains ·) name
  have closing := Library.Text.stripBy_eq_self ([')'].contains ·) name
  have both : stripChars [')'] (stripChars ['('] name) = name ↔
      stripChars ['('] name = name ∧ stripChars [')'] name = name := by
    constructor
    · intro unchanged
      have openingUnchanged : stripChars ['('] name = name := by
        apply Library.Text.stripBy_eq_self_of_length_le
        calc name.length
            = (stripChars [')'] (stripChars ['('] name)).length := by
              rw [unchanged]
          _ ≤ _ := Library.Text.length_stripBy_le _ _
      exact ⟨openingUnchanged, by rwa [openingUnchanged] at unchanged⟩
    · rintro ⟨first, second⟩
      rw [first, second]
  rw [both]
  unfold stripChars
  rw [opening, closing]
  simp only [IsParen, List.contains_cons, List.contains_nil, Bool.or_false,
    beq_iff_eq, not_or]
  constructor
  · rintro ⟨⟨firstOpen, lastOpen⟩, firstClose, lastClose⟩
    exact ⟨fun c isHead => ⟨firstOpen c isHead, firstClose c isHead⟩,
      fun c isLast => ⟨lastOpen c isLast, lastClose c isLast⟩⟩
  · rintro ⟨first, last⟩
    exact ⟨⟨fun c isHead => (first c isHead).1, fun c isLast => (last c isLast).1⟩,
      fun c isHead => (first c isHead).2, fun c isLast => (last c isLast).2⟩

/-- A total that is not negative is printed as it is. -/
theorem toInt_eq_toNat {total : BitVec 64} (nonneg : 0 ≤ total.toInt) :
    total.toInt = total.toNat := by
  rw [BitVec.toInt_eq_toNat_cond] at nonneg ⊢
  split at nonneg <;> rename_i small
  · rw [if_pos small]
  · have bound := total.isLt
    omega

/-- The record of a line is what was written if and only if the name has no
parenthesis at either end. -/
theorem sameRecord_lineRecord
    {sample : Taskstats × Pid}
    (writable : Writable sample.1)
    {name : Text}
    (encoded : Library.Utf8.encode name = sample.1.acComm) :
    SameRecord sample (lineRecord sample name) ↔
      (∀ c ∈ name.head?, ¬IsParen c) ∧ ∀ c ∈ name.getLast?, ¬IsParen c := by
  rw [← stripParens_eq_self]
  constructor
  · intro same
    exact Library.Utf8.encode_injective (same.cmd.trans encoded.symm)
  · intro unchanged
    exact
      { opid := rfl
        ppid := rfl
        cmd := (congrArg Library.Utf8.encode unchanged).trans encoded
        cpuNs := toInt_eq_toNat writable.cpu_nonneg
        blkioDelayNs := toInt_eq_toNat writable.blkio_nonneg
        swapinDelayNs := toInt_eq_toNat writable.swapin_nonneg }

/-! ## Whole logs -/

/-- The name of a sample, if it is UTF-8. -/
def nameOf (sample : Taskstats × Pid) : Text :=
  (Library.Utf8.decode sample.1.acComm).getD []

/-- What is read of a frame whose names are UTF-8. -/
def readFrame (frame : Int × List (Taskstats × Pid)) :
    Int × List TaskstatRecord :=
  (frame.1, (frame.2.filter fun sample => ' ' ∉ nameOf sample).map fun sample =>
    lineRecord sample (nameOf sample))

/-- The lines of a frame whose names are UTF-8. -/
def frameLines (frame : Int × List (Taskstats × Pid)) : Block :=
  (frame.1, frame.2.map fun sample => lineText sample (nameOf sample))

/-- The records of a frame whose names are UTF-8. -/
theorem parseTaskstatBlock_frameLines (frame : Int × List (Taskstats × Pid)) :
    parseTaskstatBlock (frameLines frame) = .ok (readFrame frame) := by
  have lines : (frameLines frame).2.mapM parseTaskstatLine =
      .ok (frame.2.map fun sample => if ' ' ∈ nameOf sample then none
        else some (lineRecord sample (nameOf sample))) := by
    rw [frameLines, List.mapM_map]
    exact Library.mapM_eq_pure fun sample _ => parseTaskstatLine_lineText _ _
  rw [parseTaskstatBlock, lines]
  simp only [Except.map, frameLines, readFrame]
  congr 2
  induction frame.2 with
  | nil => rfl
  | cons sample samples inductionHypothesis =>
      by_cases space : ' ' ∈ nameOf sample
      · simpa [space] using inductionHypothesis
      · simpa [space] using inductionHypothesis

/-- The lines of a frame as they are written. -/
def frameBytes (frame : Int × List (Taskstats × Pid)) : Int × List Bytes :=
  (frame.1, frame.2.map fun sample => taskstatText sample.1 sample.2)

/-- The log is one of loggable lines. -/
theorem taskstatLog_eq (frames : List (Int × List (Taskstats × Pid))) :
    taskstatLog frames = logBytes (frames.map frameBytes) := by
  simp only [taskstatLog, logBytes, frameBytes, taskstatLine, Collector.decimal,
    List.flatMap_map]

/-- A printed line can be logged. -/
theorem loggable_taskstatText
    {sample : Taskstats × Pid}
    (writable : Writable sample.1) :
    Loggable (taskstatText sample.1 sample.2) := by
  have noEnd : ∀ number, 10 ∉ Collector.decimal number := fun number =>
    (loggable_decimal number).2
  constructor
  · simp [taskstatText]
  · simp [taskstatText, noEnd, writable.noEnd]

section Log

variable {frames : List (Int × List (Taskstats × Pid))}

/-- Every line of the log can be logged. -/
theorem loggable_taskstatLog
    (writable : ∀ frame ∈ frames, ∀ sample ∈ frame.2, Writable sample.1) :
    ∀ frame ∈ frames.map frameBytes, ∀ line ∈ frame.2, Loggable line := by
  intro frame member line inFrame
  obtain ⟨written, inLog, rfl⟩ := List.mem_map.mp member
  obtain ⟨sample, inWritten, rfl⟩ := List.mem_map.mp inFrame
  exact loggable_taskstatText (writable written inLog sample inWritten)

/-- If all names are UTF-8, the log is read line by line. -/
theorem taskstatRecords_eq
    (writable : ∀ frame ∈ frames, ∀ sample ∈ frame.2, Writable sample.1)
    (decoded : ∀ frame ∈ frames, ∀ sample ∈ frame.2,
      Library.Utf8.decode sample.1.acComm = some (nameOf sample)) :
    taskstatRecords (taskstatLog frames) = .ok (frames.map readFrame) := by
  have blocks : (frames.map frameBytes).mapM decodeFrame =
      some (frames.map frameLines) := by
    rw [List.mapM_map]
    apply Library.mapM_eq_pure
    intro frame member
    have lines : (frame.2.map fun sample =>
        taskstatText sample.1 sample.2).mapM Library.Utf8.decode =
          some (frame.2.map fun sample => lineText sample (nameOf sample)) := by
      rw [List.mapM_map]
      apply Library.mapM_eq_pure
      intro sample inFrame
      rw [Function.comp_apply, decode_taskstatText, decoded frame member sample inFrame]
      rfl
    simp only [Function.comp_apply, decodeFrame, frameBytes, lines]
    rfl
  rw [taskstatRecords, taskstatLog_eq,
    parseTimedBlocks_logBytes (loggable_taskstatLog writable), blocks]
  have read : (frames.map frameLines).mapM parseTaskstatBlock =
      .ok (frames.map readFrame) := by
    rw [List.mapM_map]
    exact Library.mapM_eq_pure fun frame _ => parseTaskstatBlock_frameLines frame
  exact read

/-- A name that is not UTF-8 makes the whole log unreadable. -/
theorem taskstatRecords_error
    (writable : ∀ frame ∈ frames, ∀ sample ∈ frame.2, Writable sample.1)
    {frame : Int × List (Taskstats × Pid)}
    (inLog : frame ∈ frames)
    {sample : Taskstats × Pid}
    (inFrame : sample ∈ frame.2)
    (undecoded : Library.Utf8.decode sample.1.acComm = none) :
    taskstatRecords (taskstatLog frames) = .error .unicodeDecodeError := by
  have lineFails : Library.Utf8.decode (taskstatText sample.1 sample.2) = none := by
    rw [decode_taskstatText, undecoded]
    rfl
  have inLines : taskstatText sample.1 sample.2 ∈ (frameBytes frame).2 :=
    List.mem_map_of_mem inFrame
  have frameFails : decodeFrame (frameBytes frame) = none := by
    rw [decodeFrame, Library.mapM_eq_none inLines lineFails]
    rfl
  have logFails : (frames.map frameBytes).mapM decodeFrame = none :=
    Library.mapM_eq_none (List.mem_map_of_mem inLog) frameFails
  rw [taskstatRecords, taskstatLog_eq,
    parseTimedBlocks_logBytes (loggable_taskstatLog writable), logFails]
  rfl

/-- Every record is recovered if and only if every name is plain. -/
theorem recovered_iff_plainName
    (writable : ∀ frame ∈ frames, ∀ sample ∈ frame.2, Writable sample.1) :
    Recovered frames ↔
      ∀ frame ∈ frames, ∀ sample ∈ frame.2, PlainName sample.1.acComm := by
  constructor
  · rintro ⟨read, isRead, related⟩
    have decoded : ∀ frame ∈ frames, ∀ sample ∈ frame.2,
        Library.Utf8.decode sample.1.acComm = some (nameOf sample) := by
      intro frame inLog sample inFrame
      cases name : Library.Utf8.decode sample.1.acComm with
      | some text => simp [nameOf, name]
      | none =>
          rw [taskstatRecords_error writable inLog inFrame name] at isRead
          exact absurd isRead (by simp)
    rw [taskstatRecords_eq writable decoded] at isRead
    obtain rfl : frames.map readFrame = read := Except.ok.inj isRead
    intro frame inLog sample inFrame
    have relatedFrame :=
      (List.forall₂_same.mp (List.forall₂_map_right_iff.mp related) frame inLog).2
    obtain ⟨noSpace, same⟩ :=
      Library.forall_of_forall₂_filter_map relatedFrame sample inFrame
    have encoded := Library.Utf8.decode_eq_some.mp
      (decoded frame inLog sample inFrame)
    exact ⟨nameOf sample, encoded, of_decide_eq_true noSpace,
      (sameRecord_lineRecord (writable frame inLog sample inFrame) encoded).mp same⟩
  · intro plain
    have names : ∀ frame ∈ frames, ∀ sample ∈ frame.2,
        Library.Utf8.encode (nameOf sample) = sample.1.acComm ∧
          ' ' ∉ nameOf sample ∧ SameRecord sample (lineRecord sample (nameOf sample)) := by
      intro frame inLog sample inFrame
      obtain ⟨name, encoded, noSpace, ends⟩ := plain frame inLog sample inFrame
      obtain rfl : nameOf sample = name := by
        rw [nameOf, Library.Utf8.decode_eq_some.mpr encoded]
        rfl
      exact ⟨encoded, noSpace,
        (sameRecord_lineRecord (writable frame inLog sample inFrame) encoded).mpr ends⟩
    refine ⟨_, taskstatRecords_eq writable fun frame inLog sample inFrame =>
      Library.Utf8.decode_eq_some.mpr (names frame inLog sample inFrame).1, ?_⟩
    rw [List.forall₂_map_right_iff, List.forall₂_same]
    intro frame inLog
    have keepsAll : frame.2.filter (fun sample => ' ' ∉ nameOf sample) = frame.2 := by
      rw [List.filter_eq_self]
      exact fun sample inFrame =>
        decide_eq_true (names frame inLog sample inFrame).2.1
    refine ⟨rfl, ?_⟩
    rw [readFrame, keepsAll, List.forall₂_map_right_iff, List.forall₂_same]
    exact fun sample inFrame => (names frame inLog sample inFrame).2.2

end Log

/-- Statistics of the process 7 under a given name. -/
def namedTaskstats (name : Text) : Taskstats where
  acPid := 7
  acPpid := 1
  acComm := Library.Utf8.encode name
  cpuRunRealTotal := 20
  blkioDelayTotal := 10
  swapinDelayTotal := 0

/-- A process called `init` is recovered. -/
theorem recovered_init :
    Recovered [(3, [(namedTaskstats ['i', 'n', 'i', 't'], 1)])] := by
  refine (recovered_iff_plainName ?_).mpr ?_
  · simp only [List.mem_singleton, forall_eq]
    exact ⟨by decide, by decide, by decide, by decide, by decide, by decide⟩
  · simp only [List.mem_singleton, forall_eq]
    exact ⟨['i', 'n', 'i', 't'], rfl, by decide, by simp [IsParen], by simp [IsParen]⟩

/-- A process called `a b` is skipped. -/
theorem not_recovered_space :
    Writable (namedTaskstats ['a', ' ', 'b']) ∧
      ¬Recovered [(3, [(namedTaskstats ['a', ' ', 'b'], 1)])] := by
  have writable : Writable (namedTaskstats ['a', ' ', 'b']) :=
    ⟨by decide, by decide, by decide, by decide, by decide, by decide⟩
  have decoded : Library.Utf8.decode (namedTaskstats ['a', ' ', 'b']).acComm =
      some ['a', ' ', 'b'] := Library.Utf8.decode_encode _
  have name : nameOf (namedTaskstats ['a', ' ', 'b'], 1) = ['a', ' ', 'b'] := by
    rw [nameOf, decoded]
    rfl
  refine ⟨writable, ?_⟩
  rintro ⟨read, isRead, related⟩
  rw [taskstatRecords_eq (by simpa using writable)
    (by simpa [name] using decoded)] at isRead
  obtain rfl := Except.ok.inj isRead
  obtain ⟨⟨-, samples⟩, -⟩ := List.forall₂_cons.mp related
  simp [readFrame, name] at samples

end Parsing
end Bootchart
