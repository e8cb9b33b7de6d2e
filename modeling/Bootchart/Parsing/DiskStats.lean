import Bootchart.Parsing.TimedBlocks
import Bootchart.Samples
import Mathlib.Data.List.Chain
import Mathlib.Tactic.FieldSimp
import Mathlib.Tactic.Linarith
import Mathlib.Tactic.Positivity

/-!
# The log of disk statistics

`_parse_proc_disk_stat_log` adds up the counters of the relevant devices of every
frame and takes the differences of neighbouring frames. It divides the utilisation by
the number of processors.
-/

namespace Bootchart
namespace Parsing

open Library (Text)
open Library.Text (words behind isDecimal leadingDigits)

/-- A name and one digit. -/
def oneDigit (name disk : Text) : Bool :=
  match behind name disk with
  | some [c] => isDecimal c
  | _ => false

/-- The match of `cciss/c\d+d\d+.*`. -/
def ccissMatch (disk : Text) : Bool :=
  match (behind "cciss/c".toList disk).bind leadingDigits with
  | some (_, 'd' :: rest) => (leadingDigits rest).isSome
  | _ => false

/-- The match of `disk_regex_re` with a text that has no spaces. -/
def diskMatch (disk : Text) : Bool :=
  (match disk with
    | [letter, 'd', _] => letter = 'h' || letter = 's' || letter = 'v'
    | _ => false) ||
  oneDigit "mtdblock".toList disk || oneDigit "mmcblk".toList disk || ccissMatch disk

/-- `is_relevant_line`. -/
def isRelevantLine (linetokens : List Text) : Bool :=
  linetokens.length ≥ 14 && (linetokens[2]?.any diskMatch)

/-- The counters of a relevant line. -/
def diskRow (tokens : List Text) : Except Exception DiskData := do
  let rsect ← int (tokens.getD 5 [])
  let wsect ← int (tokens.getD 9 [])
  let use ← int (tokens.getD 12 [])
  return { rsect := rsect, wsect := wsect, use := use }

/-- The sums of a frame. -/
def diskFrame (block : Block) : Except Exception DiskStatSample := do
  let rows ← ((block.2.map words).filter isRelevantLine).mapM diskRow
  return rows.foldl DiskStatSample.addDiskdata (.new block.1)

/-- `disk_stat_samples`. -/
def diskStatSamples (file : Bytes) : Except Exception (List DiskStatSample) :=
  parseTimedBlocks file >>= List.mapM diskFrame

/-- `interval`, which is negative if time goes forward. -/
def diskInterval (sample1 sample2 : DiskStatSample) : Int :=
  if sample1.time - sample2.time = 0 then 1 else sample1.time - sample2.time

/-- The share of the time between two frames that disks were in use, before it is
divided by the number of processors and cut off. -/
def diskUse (sample1 sample2 : DiskStatSample) : ℚ :=
  (sample1.diskdata.use - sample2.diskdata.use : Int) / 10 /
    diskInterval sample1 sample2

/-- The sample of two neighbouring frames. -/
def diskSample (numCpu : Int) (sample1 sample2 : DiskStatSample) : DiskSample :=
  let interval := diskInterval sample1 sample2
  let readSum := sample1.diskdata.rsect - sample2.diskdata.rsect
  let writeSum := sample1.diskdata.wsect - sample2.diskdata.wsect
  { time := sample2.time
    read := readSum / 2 * 100 / interval
    write := writeSum / 2 * 100 / interval
    util := max 0 (min 1 (diskUse sample1 sample2 / numCpu)) }

/-- `disk_stats`. -/
def diskStats (numCpu : Int) (samples : List DiskStatSample) : List DiskSample :=
  List.zipWith (diskSample numCpu) samples.dropLast samples.tail

/-- `_parse_proc_disk_stat_log`. -/
def parseProcDiskStatLog (file : Bytes) (numCpu : Int) :
    Except Exception (List DiskSample) :=
  (diskStatSamples file).map (diskStats numCpu)

/-! ## Frames -/

/-- The sums of some counters. -/
def totalOf (rows : List DiskData) : DiskData where
  rsect := (rows.map (·.rsect)).sum
  wsect := (rows.map (·.wsect)).sum
  use := (rows.map (·.use)).sum

/-- Counters are added to those of a sample. -/
theorem foldl_addDiskdata (rows : List DiskData) (sample : DiskStatSample) :
    rows.foldl DiskStatSample.addDiskdata sample =
      { time := sample.time
        diskdata :=
          { rsect := sample.diskdata.rsect + (totalOf rows).rsect
            wsect := sample.diskdata.wsect + (totalOf rows).wsect
            use := sample.diskdata.use + (totalOf rows).use } } := by
  induction rows generalizing sample with
  | nil => simp [totalOf]
  | cons row rows inductionHypothesis =>
      rw [List.foldl_cons, inductionHypothesis]
      simp [DiskStatSample.addDiskdata, totalOf, add_assoc]

/-! ## The number of processors -/

/-- Cutting off a share of several processors gives the share of one if and only if
there is one, or nothing was used, or all of them. -/
theorem clamp_div_eq_iff (used : ℚ) {numCpu : ℚ} (atLeastOne : 1 ≤ numCpu) :
    max 0 (min 1 (used / numCpu)) = max 0 (min 1 used) ↔
      numCpu = 1 ∨ used ≤ 0 ∨ numCpu ≤ used := by
  have positive : 0 < numCpu := by linarith
  rcases le_or_gt used 0 with unused | isUsed
  · have share : used / numCpu ≤ 0 := div_nonpos_of_nonpos_of_nonneg unused positive.le
    have both : max 0 (min 1 (used / numCpu)) = max 0 (min 1 used) := by
      rw [max_eq_left ((min_le_right _ _).trans share),
        max_eq_left ((min_le_right _ _).trans unused)]
    exact ⟨fun _ => .inr (.inl unused), fun _ => both⟩
  · have share : 0 < used / numCpu := div_pos isUsed positive
    rw [max_eq_right (le_min zero_le_one share.le),
      max_eq_right (le_min zero_le_one isUsed.le)]
    rcases le_or_gt numCpu used with allUsed | someUsed
    · have full : 1 ≤ used / numCpu := (one_le_div positive).mpr allUsed
      rw [min_eq_left full, min_eq_left (atLeastOne.trans allUsed)]
      exact ⟨fun _ => .inr (.inr allUsed), fun _ => rfl⟩
    · have part : used / numCpu < 1 := (div_lt_one positive).mpr someUsed
      rw [min_eq_right part.le]
      constructor
      · intro same
        left
        rcases min_choice 1 used with isOne | isUse
        · rw [isOne] at same
          exact absurd same part.ne
        · rw [isUse, div_eq_iff positive.ne'] at same
          exact (mul_eq_left₀ isUsed.ne').mp same.symm
      · rintro (rfl | unused | allUsed)
        · rw [div_one, min_eq_right (by linarith)]
        · exact absurd unused isUsed.not_ge
        · exact absurd allUsed someUsed.not_ge

/-- The samples of neighbours are the same if and only if those of all pairs of
neighbours are. -/
theorem zipWith_neighbours_eq_iff
    {α β : Type*}
    (first second : α → α → β)
    (values : List α) :
    List.zipWith first values.dropLast values.tail =
        List.zipWith second values.dropLast values.tail ↔
      values.IsChain fun a b => first a b = second a b := by
  induction values with
  | nil => simp
  | cons a values inductionHypothesis =>
      cases values with
      | nil => simp
      | cons b values =>
          rw [List.isChain_cons_cons, ← inductionHypothesis]
          simp

/-- Whether the number of processors makes no difference: there is one, or between
any two neighbouring frames the disks were not in use, or for the time of all
processors. -/
def CpusIrrelevant (numCpu : Int) (samples : List DiskStatSample) : Prop :=
  samples.IsChain fun sample1 sample2 =>
    numCpu = 1 ∨ diskUse sample1 sample2 ≤ 0 ∨ numCpu ≤ diskUse sample1 sample2

/-- The samples are those for one processor if and only if the number of processors
makes no difference. -/
theorem diskStats_eq_iff
    {numCpu : Int}
    (atLeastOne : 1 ≤ numCpu)
    (samples : List DiskStatSample) :
    diskStats numCpu samples = diskStats 1 samples ↔ CpusIrrelevant numCpu samples := by
  have rational : (1 : ℚ) ≤ numCpu := by exact_mod_cast atLeastOne
  rw [diskStats, diskStats, zipWith_neighbours_eq_iff, CpusIrrelevant]
  refine iff_of_eq (congrArg (fun relation => List.IsChain relation samples) ?_)
  funext sample1 sample2
  have shares := clamp_div_eq_iff (diskUse sample1 sample2) rational
  rw [Int.cast_eq_one] at shares
  simp only [diskSample, DiskSample.mk.injEq, true_and, Int.cast_one, div_one, shares]

end Parsing
end Bootchart
