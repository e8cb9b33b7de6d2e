import Bootchart.Parsing.DiskStats
import Mathlib.Algebra.BigOperators.Ring.List
import Mathlib.Tactic.Ring

/-!
# Throughput of disks

Between two frames both the time and the counters are subtracted the wrong way round, which
makes no difference to their ratio. But the time between frames with the same time is
replaced by one, not by minus one.
-/

namespace Bootchart
namespace Parsing

open Library (Text)
open Library.Text (words)

/-! ## Logs -/

/-- What the disks have counted at some time. -/
structure DiskFrame where
  /-- The time. -/
  time : Int
  /-- The counters, by the name of the disk. -/
  counters : Text → DiskData

/-- A block lists the disks of a frame, in any order. -/
structure Lists (disks : List Text) (block : Block) (frame : DiskFrame) : Prop where
  /-- The time. -/
  time : block.1 = frame.time
  /-- The counters. -/
  counters :
    (((block.2.map words).filter isRelevantLine).map fun tokens =>
        (tokens.getD 2 [], diskRow tokens)).Perm
      (disks.map fun disk => (disk, .ok (frame.counters disk)))

/-- A log of some disks: neither time nor a counter goes back. -/
structure IsDiskLog (disks : List Text) (frames : List DiskFrame) (file : Bytes) : Prop where
  /-- The frames. -/
  blocks : ∃ blocks, parseTimedBlocks file = .ok blocks ∧
    List.Forall₂ (Lists disks) blocks frames
  /-- The times. -/
  times : frames.IsChain fun first second => first.time ≤ second.time
  /-- The counters. -/
  counters : frames.IsChain fun first second => ∀ disk ∈ disks,
    (first.counters disk).rsect ≤ (second.counters disk).rsect ∧
      (first.counters disk).wsect ≤ (second.counters disk).wsect ∧
      (first.counters disk).use ≤ (second.counters disk).use

/-- What is counted between two frames. -/
def counted
    (disks : List Text)
    (counter : DiskData → Int)
    (first second : DiskFrame) : Int :=
  (disks.map fun disk =>
    counter (second.counters disk) - counter (first.counters disk)).sum

/-- Each frame and the next. -/
def framePairs (frames : List DiskFrame) : List (DiskFrame × DiskFrame) :=
  frames.dropLast.zip frames.tail

/-- The pairs of frames between which time goes on, with their samples. -/
def timedPairs (frames : List DiskFrame) (samples : List DiskSample) :
    List ((DiskFrame × DiskFrame) × DiskSample) :=
  ((framePairs frames).zip samples).filter fun pair => pair.1.1.time ≠ pair.1.2.time

/-- A throughput accounts for the sectors that are counted: multiplied with the time between
two frames, it adds up to fifty times the sectors. -/
def AccountsFor
    (disks : List Text)
    (throughput : DiskSample → ℚ)
    (counter : DiskData → Int)
    (pairs : List ((DiskFrame × DiskFrame) × DiskSample)) : Prop :=
  (pairs.map fun ((first, second), sample) =>
      throughput sample * (second.time - first.time : Int)).sum =
    50 * (pairs.map fun ((first, second), _) => (counted disks counter first second : ℚ)).sum

/-- The samples of a log are right. -/
structure TellsThroughput
    (disks : List Text)
    (frames : List DiskFrame)
    (samples : List DiskSample) : Prop where
  /-- Each frame but the first has a sample. -/
  times : samples.map (·.time) = frames.tail.map (·.time)
  /-- No throughput is negative. -/
  nonnegative : ∀ sample ∈ samples, 0 ≤ sample.read ∧ 0 ≤ sample.write
  /-- Utilisation is a share. -/
  utilisation : ∀ sample ∈ samples, 0 ≤ sample.util ∧ sample.util ≤ 1
  /-- The sectors read. -/
  reads : AccountsFor disks (·.read) (·.rsect) (timedPairs frames samples)
  /-- The sectors written. -/
  writes : AccountsFor disks (·.write) (·.wsect) (timedPairs frames samples)

/-- No sectors are counted between neighbouring frames with the same time. -/
def TakesTime (disks : List Text) (frames : List DiskFrame) : Prop :=
  frames.IsChain fun first second => first.time = second.time → ∀ disk ∈ disks,
    (first.counters disk).rsect = (second.counters disk).rsect ∧
      (first.counters disk).wsect = (second.counters disk).wsect

/-! ## Samples -/

/-- The sums of a frame. -/
def DiskFrame.total (disks : List Text) (frame : DiskFrame) : DiskStatSample where
  time := frame.time
  diskdata := totalOf (disks.map frame.counters)

/-- The order of the counters makes no difference to their sums. -/
theorem totalOf_perm {rows rows' : List DiskData} (same : rows.Perm rows') :
    totalOf rows = totalOf rows' := by
  simp only [totalOf, (same.map _).sum_eq]

/-- Lines that are read as some counters in any order are read as these. -/
theorem exists_mapM_diskRow
    {lines : List (List Text)}
    {rows : List DiskData}
    (read : (lines.map diskRow).Perm (rows.map Except.ok)) :
    ∃ rows', lines.mapM diskRow = .ok rows' ∧ rows'.Perm rows := by
  have each : ∀ line ∈ lines, ∃ row, diskRow line = .ok row ∧ diskRow line = .ok row := by
    intro line member
    have isRow := read.mem_iff.mp (List.mem_map_of_mem (f := diskRow) member)
    obtain ⟨row, -, same⟩ := List.mem_map.mp isRow
    exact ⟨row, same.symm, same.symm⟩
  obtain ⟨rows', readAll, areRows⟩ := Library.exists_mapM_eq_ok each
  have same : lines.map diskRow = rows'.map Except.ok :=
    List.forall₂_eq_eq_eq.le _ _ (List.forall₂_map_left_iff.mpr
      (List.forall₂_map_right_iff.mpr areRows))
  rw [same] at read
  exact ⟨rows', readAll, (List.map_perm_map_iff fun _ _ => Except.ok.inj).mp read⟩

/-- A frame that lists the disks is read as their sums. -/
theorem diskFrame_of_lists
    {disks : List Text}
    {block : Block}
    {frame : DiskFrame}
    (lists : Lists disks block frame) :
    diskFrame block = .ok (frame.total disks) := by
  have rows : ((((block.2.map words).filter isRelevantLine).map diskRow)).Perm
      ((disks.map frame.counters).map Except.ok) := by
    have read := lists.counters.map Prod.snd
    rw [List.map_map, List.map_map] at read
    rw [List.map_map]
    exact read
  obtain ⟨rows', readAll, same⟩ := exists_mapM_diskRow rows
  rw [diskFrame, readAll, DiskFrame.total, ← totalOf_perm same, ← lists.time]
  simp [bind, Except.bind, pure, Except.pure, foldl_addDiskdata, DiskStatSample.new]

/-- The second frames of the pairs. -/
theorem map_snd_framePairs (frames : List DiskFrame) :
    (framePairs frames).map Prod.snd = frames.tail := by
  apply List.map_snd_zip
  rw [List.length_tail, List.length_dropLast]

/-- Two neighbouring frames are related in a chain if and only if all pairs are. -/
theorem isChain_iff_framePairs
    (relation : DiskFrame → DiskFrame → Prop)
    (frames : List DiskFrame) :
    frames.IsChain relation ↔ ∀ pair ∈ framePairs frames, relation pair.1 pair.2 := by
  induction frames with
  | nil => simp [framePairs]
  | cons first frames inductionHypothesis =>
      cases frames with
      | nil => simp [framePairs]
      | cons second frames =>
          rw [List.isChain_cons_cons, inductionHypothesis]
          simp [framePairs]

/-- The sample of two frames. -/
def DiskFrame.sample
    (numCpu : Int)
    (disks : List Text)
    (pair : DiskFrame × DiskFrame) : DiskSample :=
  diskSample numCpu (pair.1.total disks) (pair.2.total disks)

/-- A log is read as the samples of its pairs. -/
theorem parseProcDiskStatLog_of_isDiskLog
    {disks : List Text}
    {frames : List DiskFrame}
    {file : Bytes}
    (log : IsDiskLog disks frames file)
    (numCpu : Int) :
    parseProcDiskStatLog file numCpu =
      .ok ((framePairs frames).map (DiskFrame.sample numCpu disks)) := by
  obtain ⟨blocks, isFile, lists⟩ := log.blocks
  have samples : diskStatSamples file = .ok (frames.map (DiskFrame.total disks)) := by
    rw [diskStatSamples, isFile]
    exact Library.mapM_eq_ok_of_forall₂ lists fun block frame => diskFrame_of_lists
  rw [parseProcDiskStatLog, samples, Except.map, diskStats, ← List.map_dropLast,
    ← List.map_tail, List.zipWith_map, framePairs, List.zip, List.map_zipWith]
  rfl

/-! ## Pairs -/

/-- What is counted is the difference of the sums. -/
theorem counted_eq_sub
    (disks : List Text)
    (counter : DiskData → Int)
    (first second : DiskFrame) :
    counted disks counter first second =
      (disks.map fun disk => counter (second.counters disk)).sum -
        (disks.map fun disk => counter (first.counters disk)).sum := by
  rw [eq_sub_iff_add_eq, counted, ← List.sum_map_add]
  simp

/-- The throughput between two frames. -/
def throughput
    (disks : List Text)
    (counter : DiskData → Int)
    (first second : DiskFrame) : ℚ :=
  (-counted disks counter first second : Int) / 2 * 100 /
    (if first.time - second.time = 0 then 1 else first.time - second.time : Int)

/-- Sectors read. -/
theorem read_sample (numCpu : Int) (disks : List Text) (pair : DiskFrame × DiskFrame) :
    (DiskFrame.sample numCpu disks pair).read =
      throughput disks (·.rsect) pair.1 pair.2 := by
  rw [throughput, counted_eq_sub, neg_sub]
  simp [DiskFrame.sample, diskSample, diskInterval, DiskFrame.total, totalOf,
    Function.comp_def]

/-- Sectors written. -/
theorem write_sample (numCpu : Int) (disks : List Text) (pair : DiskFrame × DiskFrame) :
    (DiskFrame.sample numCpu disks pair).write =
      throughput disks (·.wsect) pair.1 pair.2 := by
  rw [throughput, counted_eq_sub, neg_sub]
  simp [DiskFrame.sample, diskSample, diskInterval, DiskFrame.total, totalOf,
    Function.comp_def]

/-- The throughput is not negative if and only if sectors take time. -/
theorem throughput_nonneg_iff
    {disks : List Text}
    {counter : DiskData → Int}
    {first second : DiskFrame}
    (ordered : first.time ≤ second.time)
    (positive : 0 ≤ counted disks counter first second) :
    0 ≤ throughput disks counter first second ↔
      (first.time = second.time → counted disks counter first second = 0) := by
  rw [throughput]
  split
  next atOnce =>
    have same : first.time = second.time := by omega
    have sectors : (0 : ℚ) ≤ counted disks counter first second := by exact_mod_cast positive
    simp only [same, forall_const, Int.cast_neg, Int.cast_one, div_one]
    constructor
    · intro nonnegative
      have none : (counted disks counter first second : ℚ) = 0 := by linarith
      exact_mod_cast none
    · intro none
      rw [none]
      norm_num
  next later =>
    have elapsed : ((first.time - second.time : Int) : ℚ) < 0 := by
      have : first.time - second.time < 0 := by omega
      exact_mod_cast this
    have sectors : (0 : ℚ) ≤ counted disks counter first second := by exact_mod_cast positive
    refine iff_of_true ?_ fun same => absurd (sub_eq_zero.mpr same) later
    apply div_nonneg_of_nonpos _ elapsed.le
    rw [Int.cast_neg]
    linarith

/-- The throughput, multiplied with the time, gives fifty times the sectors. -/
theorem throughput_mul
    {disks : List Text}
    {counter : DiskData → Int}
    {first second : DiskFrame}
    (later : first.time ≠ second.time) :
    throughput disks counter first second * (second.time - first.time : Int) =
      50 * (counted disks counter first second : ℚ) := by
  have elapsed : ((first.time - second.time : Int) : ℚ) ≠ 0 := by
    exact_mod_cast sub_ne_zero.mpr later
  have reversed : ((second.time - first.time : Int) : ℚ) =
      -((first.time - second.time : Int) : ℚ) := by
    rw [← Int.cast_neg, neg_sub]
  rw [throughput, if_neg (sub_ne_zero.mpr later), reversed, mul_neg, div_mul_cancel₀ _ elapsed,
    Int.cast_neg]
  ring

/-- The pairs of a log are timed if their times are different. -/
theorem timedPairs_map
    (frames : List DiskFrame)
    (sample : DiskFrame × DiskFrame → DiskSample) :
    timedPairs frames ((framePairs frames).map sample) =
      ((framePairs frames).filter fun pair => pair.1.time ≠ pair.2.time).map fun pair =>
        (pair, sample pair) := by
  rw [timedPairs, ← List.map_prod_left_eq_zip, List.filter_map]
  rfl

/-- A throughput that is computed from a counter accounts for its sectors. -/
theorem accountsFor_throughput
    (disks : List Text)
    {rate : DiskSample → ℚ}
    {counter : DiskData → Int}
    {frames : List DiskFrame}
    {sample : DiskFrame × DiskFrame → DiskSample}
    (isRate : ∀ pair, rate (sample pair) = throughput disks counter pair.1 pair.2) :
    AccountsFor disks rate counter (timedPairs frames ((framePairs frames).map sample)) := by
  rw [AccountsFor, timedPairs_map, List.map_map, List.map_map, ← List.sum_map_mul_left]
  refine congrArg List.sum (List.map_congr_left fun pair member => ?_)
  have later : pair.1.time ≠ pair.2.time := by
    simpa using (List.mem_filter.mp member).2
  simp only [Function.comp_apply, isRate]
  exact throughput_mul later

/-- What counters that do not go back count is not negative. -/
theorem counted_nonneg
    {disks : List Text}
    {counter : DiskData → Int}
    {first second : DiskFrame}
    (forward : ∀ disk ∈ disks, counter (first.counters disk) ≤ counter (second.counters disk)) :
    0 ≤ counted disks counter first second := by
  apply List.sum_nonneg
  intro sectors member
  obtain ⟨disk, isDisk, rfl⟩ := List.mem_map.mp member
  exact sub_nonneg.mpr (forward disk isDisk)

/-- They count nothing if and only if none goes on. -/
theorem counted_eq_zero_iff
    {disks : List Text}
    {counter : DiskData → Int}
    {first second : DiskFrame}
    (forward : ∀ disk ∈ disks, counter (first.counters disk) ≤ counter (second.counters disk)) :
    counted disks counter first second = 0 ↔
      ∀ disk ∈ disks, counter (first.counters disk) = counter (second.counters disk) := by
  have nonnegative : ∀ sectors ∈ disks.map (fun disk =>
      counter (second.counters disk) - counter (first.counters disk)), 0 ≤ sectors := by
    intro sectors member
    obtain ⟨disk, isDisk, rfl⟩ := List.mem_map.mp member
    exact sub_nonneg.mpr (forward disk isDisk)
  constructor
  · intro none disk isDisk
    have zero := List.all_zero_of_le_zero_le_of_sum_eq_zero nonnegative none
      (List.mem_map_of_mem isDisk)
    exact (sub_eq_zero.mp zero).symm
  · intro same
    apply List.sum_eq_zero
    intro sectors member
    obtain ⟨disk, isDisk, rfl⟩ := List.mem_map.mp member
    exact sub_eq_zero.mpr (same disk isDisk).symm

/-- Utilisation is cut off to a share. -/
theorem util_sample (numCpu : Int) (disks : List Text) (pair : DiskFrame × DiskFrame) :
    0 ≤ (DiskFrame.sample numCpu disks pair).util ∧
      (DiskFrame.sample numCpu disks pair).util ≤ 1 :=
  ⟨le_max_left _ _, max_le zero_le_one (min_le_left _ _)⟩

/-- The throughput of a counter between two frames is not negative if and only if the counter
stands still between frames with the same time. -/
theorem throughput_nonneg_iff_counters
    {disks : List Text}
    {counter : DiskData → Int}
    {first second : DiskFrame}
    (ordered : first.time ≤ second.time)
    (forward : ∀ disk ∈ disks, counter (first.counters disk) ≤ counter (second.counters disk)) :
    0 ≤ throughput disks counter first second ↔
      (first.time = second.time → ∀ disk ∈ disks,
        counter (first.counters disk) = counter (second.counters disk)) := by
  rw [throughput_nonneg_iff ordered (counted_nonneg forward), counted_eq_zero_iff forward]

/-- The samples of a log are right if and only if no sectors are counted between neighbouring
frames with the same time. -/
theorem tellsThroughput_iff
    {disks : List Text}
    {frames : List DiskFrame}
    {file : Bytes}
    (log : IsDiskLog disks frames file)
    (numCpu : Int) :
    (∃ samples, parseProcDiskStatLog file numCpu = .ok samples ∧
      TellsThroughput disks frames samples) ↔ TakesTime disks frames := by
  have times := (isChain_iff_framePairs _ _).mp log.times
  have counters := (isChain_iff_framePairs _ _).mp log.counters
  have reads := fun pair member => throughput_nonneg_iff_counters (times pair member)
    fun disk isDisk => (counters pair member disk isDisk).1
  have writes := fun pair member => throughput_nonneg_iff_counters (times pair member)
    fun disk isDisk => (counters pair member disk isDisk).2.1
  rw [TakesTime, isChain_iff_framePairs]
  constructor
  · rintro ⟨samples, parsed, right⟩ pair member same disk isDisk
    rw [parseProcDiskStatLog_of_isDiskLog log] at parsed
    obtain rfl := Except.ok.inj parsed
    have positive := right.nonnegative _ (List.mem_map_of_mem member)
    rw [read_sample, write_sample] at positive
    exact ⟨(reads pair member).mp positive.1 same disk isDisk,
      (writes pair member).mp positive.2 same disk isDisk⟩
  · intro takesTime
    refine ⟨_, parseProcDiskStatLog_of_isDiskLog log numCpu, ?_⟩
    constructor
    case times =>
      rw [List.map_map, ← map_snd_framePairs, List.map_map]
      rfl
    case nonnegative =>
      intro sample member
      obtain ⟨pair, isPair, rfl⟩ := List.mem_map.mp member
      rw [read_sample, write_sample, reads pair isPair, writes pair isPair]
      exact ⟨fun same disk isDisk => (takesTime pair isPair same disk isDisk).1,
        fun same disk isDisk => (takesTime pair isPair same disk isDisk).2⟩
    case utilisation =>
      intro sample member
      obtain ⟨pair, -, rfl⟩ := List.mem_map.mp member
      exact util_sample numCpu disks pair
    case reads => exact accountsFor_throughput disks (read_sample numCpu disks)
    case writes => exact accountsFor_throughput disks (write_sample numCpu disks)

/-- A log of `sda` in two frames. -/
def sdaLog (first second : Int) : Bytes :=
  logBytes [(first, [Library.Utf8.encode "8 0 sda 1 0 10 5 1 0 4 5 0 8 10".toList]),
    (second, [Library.Utf8.encode "8 0 sda 2 0 30 5 2 0 4 5 0 9 10".toList])]

/-- What is logged. -/
def sdaFrames (first second : Int) : List DiskFrame :=
  [{ time := first, counters := fun _ => { rsect := 10, wsect := 4, use := 8 } },
    { time := second, counters := fun _ => { rsect := 30, wsect := 4, use := 9 } }]

/-- Twenty sectors are read in a hundredth of a second. -/
theorem tellsThroughput_sdaLog :
    ∃ samples, parseProcDiskStatLog (sdaLog 100 101) 2 = .ok samples ∧
      TellsThroughput ["sda".toList] (sdaFrames 100 101) samples :=
  (tellsThroughput_iff
    { blocks := ⟨[(100, ["8 0 sda 1 0 10 5 1 0 4 5 0 8 10".toList]),
        (101, ["8 0 sda 2 0 30 5 2 0 4 5 0 9 10".toList])], by rfl,
        .cons ⟨rfl, by decide +kernel⟩ (.cons ⟨rfl, by decide +kernel⟩ .nil)⟩
      times := by decide
      counters := by decide } 2).mpr
    (List.isChain_pair.mpr fun atOnce => absurd atOnce (by decide))

/-- Twenty sectors that are read at once are a negative throughput. -/
theorem not_tellsThroughput_sdaLog :
    IsDiskLog ["sda".toList] (sdaFrames 100 100) (sdaLog 100 100) ∧
      ¬∃ samples, parseProcDiskStatLog (sdaLog 100 100) 2 = .ok samples ∧
        TellsThroughput ["sda".toList] (sdaFrames 100 100) samples := by
  refine ⟨{
    blocks := ⟨[(100, ["8 0 sda 1 0 10 5 1 0 4 5 0 8 10".toList]),
      (100, ["8 0 sda 2 0 30 5 2 0 4 5 0 9 10".toList])], by rfl,
      .cons ⟨rfl, by decide +kernel⟩ (.cons ⟨rfl, by decide +kernel⟩ .nil)⟩
    times := by decide
    counters := by decide }, ?_⟩
  rintro ⟨samples, parsed, right⟩
  have negative : (parseProcDiskStatLog (sdaLog 100 100) 2).toOption.any
      (fun samples => samples.any fun sample => decide (sample.read < 0)) := by
    decide +kernel
  rw [parsed] at negative
  obtain ⟨sample, member, isNegative⟩ := List.any_eq_true.mp negative
  exact absurd (right.nonnegative sample member).1 (of_decide_eq_true isNegative).not_ge

end Parsing
end Bootchart
