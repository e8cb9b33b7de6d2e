import Bootchart.Collector.SystemLogs
import Bootchart.Library.Pairs
import Bootchart.Library.Traverse
import Bootchart.Library.Words
import Bootchart.Parsing.SystemStats
import Mathlib.Algebra.Order.Field.Basic
import Mathlib.Tactic.Linarith
import Mathlib.Tactic.Ring

/-!
# The shares of the processors

`/proc/stat` begins with a line of counters for all processors. From what the collector copies of
it at each turn, `_parse_proc_stat_log` takes the shares of the time that were spent in user mode,
in kernel mode and waiting.
-/

namespace Bootchart
namespace Parsing

open Library (Text pairs)
open Library.Text (decimal isSpace words IsWord)
open Library.Utf8 (encode)
open Collector (Moment systemLogs)

/-! ## The log of encoded lines -/

/-- A log of encoded lines is read as these lines. -/
theorem parseTimedBlocks_encoded
    (blocks : List Block)
    (areLines : ∀ block ∈ blocks, ∀ line ∈ block.2, IsLine line) :
    parseTimedBlocks (logBytes (blocks.map fun block => (block.1, block.2.map encode))) =
      .ok blocks := by
  have loggable : ∀ frame ∈ blocks.map (fun block => (block.1, block.2.map encode)),
      ∀ line ∈ frame.2, Loggable line := by
    intro frame isFrame line member
    obtain ⟨block, inBlocks, rfl⟩ := List.mem_map.mp isFrame
    obtain ⟨text, inBlock, rfl⟩ := List.mem_map.mp member
    exact (areLines block inBlocks text inBlock).loggable
  have decodes : ∀ block ∈ blocks,
      decodeFrame (block.1, block.2.map encode) = pure (id block) := by
    intro block _
    have lines : ∀ text ∈ block.2, Library.Utf8.decode (encode text) = pure (id text) :=
      fun text _ => Library.Utf8.decode_encode text
    have texts : (block.2.map encode).mapM Library.Utf8.decode = some block.2 := by
      rw [List.mapM_map]
      exact (Library.mapM_eq_pure lines).trans (congrArg some (List.map_id _))
    rw [decodeFrame, texts]
    rfl
  have decoded : (blocks.map fun block => (block.1, block.2.map encode)).mapM decodeFrame =
      some blocks := by
    rw [List.mapM_map]
    exact (Library.mapM_eq_pure decodes).trans (congrArg some (List.map_id _))
  rw [parseTimedBlocks_logBytes loggable, decoded]

/-! ## Counters -/

/-- The numbers of the first line of `/proc/stat`. -/
structure CpuCounters where
  /-- Time in user mode. -/
  user : Nat
  /-- Time in user mode with low priority. -/
  nice : Nat
  /-- Time in kernel mode. -/
  system : Nat
  /-- Idle time. -/
  idle : Nat
  /-- Time waiting for devices. -/
  ioWait : Nat
  /-- Time in interrupts. -/
  irq : Nat
  /-- Time in soft interrupts. -/
  softirq : Nat
  /-- Further times, which newer kernels tell. -/
  more : List Nat

namespace CpuCounters

/-- All numbers, in the order of the line. -/
def numbers (counters : CpuCounters) : List Nat :=
  counters.user :: counters.nice :: counters.system :: counters.idle :: counters.ioWait ::
    counters.irq :: counters.softirq :: counters.more

/-- The line; a second space stands for the number of a processor. -/
def line (counters : CpuCounters) : Text :=
  "cpu".toList ++ ' ' :: ' ' ::
    [' '].intercalate (counters.numbers.map fun number : Nat => decimal (number : Int))

/-- The times that are read. -/
def times (counters : CpuCounters) : CpuTimes where
  user := counters.user
  nice := counters.nice
  system := counters.system
  idle := counters.idle
  ioWait := counters.ioWait
  irq := counters.irq
  softirq := counters.softirq

/-- Time in user mode. -/
def userTime (counters : CpuCounters) : ℚ :=
  counters.user + counters.nice

/-- Time in kernel mode. -/
def systemTime (counters : CpuCounters) : ℚ :=
  counters.system + counters.irq + counters.softirq

/-- The time that the shares are shares of. -/
def wholeTime (counters : CpuCounters) : ℚ :=
  counters.userTime + counters.systemTime + counters.idle + counters.ioWait

/-- No counter decreases. -/
structure Before (first second : CpuCounters) : Prop where
  user : first.user ≤ second.user
  nice : first.nice ≤ second.nice
  system : first.system ≤ second.system
  idle : first.idle ≤ second.idle
  ioWait : first.ioWait ≤ second.ioWait
  irq : first.irq ≤ second.irq
  softirq : first.softirq ≤ second.softirq

/-- The words of the line. -/
theorem words_line (counters : CpuCounters) :
    words counters.line =
      "cpu".toList :: counters.numbers.map fun number : Nat => decimal (number : Int) := by
  have isCpu : IsWord "cpu".toList := by
    refine ⟨by decide, ?_⟩
    intro c member
    rw [← Bool.not_eq_true']
    exact List.all_eq_true.mp (show "cpu".toList.all (fun c => !isSpace c) = true by decide) c member
  rw [line, Library.Text.words_append_cons isCpu rfl, Library.Text.words_cons rfl,
    Library.Text.words_intercalate]
  intro word member
  obtain ⟨number, -, rfl⟩ := List.mem_map.mp member
  exact Library.Text.isWord_decimal number

/-- Numbers are read. -/
theorem mapM_int (numbers : List Nat) :
    (numbers.map fun number : Nat => decimal (number : Int)).mapM int =
      .ok (numbers.map fun number : Nat => (number : Int)) := by
  have reads : ∀ number ∈ numbers, int (decimal ((number : Nat) : Int)) = pure (number : Int) := by
    intro number _
    rw [int, Library.Text.readInt_decimal]
    rfl
  rw [List.mapM_map]
  exact Library.mapM_eq_pure reads

/-- The times of a frame are read. -/
theorem statTimes_line (time : Int) (counters : CpuCounters) (others : List Text) :
    statTimes (time, counters.line :: others) = .ok (some (time, counters.times)) := by
  have long : ¬(words counters.line).length < 8 := by
    rw [words_line, List.length_cons, List.length_map, numbers]
    simp
  rw [statTimes]
  dsimp only
  rw [if_neg long, words_line, List.tail_cons, mapM_int]
  rfl

end CpuCounters

/-! ## Turns -/

/-- A moment at which `/proc/stat` begins with a line of counters. -/
structure StatTurn extends Moment where
  /-- The counters. -/
  counters : CpuCounters
  /-- The lines behind the first one. -/
  others : List Text
  /-- The lines of the file. -/
  isStat : stat = counters.line :: others

/-- What is read of a turn. -/
def StatTurn.frame (reltime : Nat) (turn : StatTurn) : Int × CpuTimes :=
  (turn.timeSince reltime, turn.counters.times)

/-- The log is read as the samples of neighbouring turns. -/
theorem parseProcStatLog_systemLogs
    {reltime : Nat}
    {turns : List StatTurn}
    (shown : ∀ turn ∈ turns, turn.Shown ∧ reltime ≤ turn.time) :
    parseProcStatLog (systemLogs (BitVec.ofNat 64 reltime)
        (turns.map fun turn => turn.snapshot)).stat =
      .ok ((pairs turns).map fun pair =>
        cpuSample (pair.1.frame reltime) (pair.2.frame reltime)) := by
  have shownMoments : ∀ moment ∈ turns.map StatTurn.toMoment,
      moment.Shown ∧ reltime ≤ moment.time := by
    intro moment member
    obtain ⟨turn, inTurns, rfl⟩ := List.mem_map.mp member
    exact shown turn inTurns
  have logs := congrArg Collector.SystemLogs.stat (Collector.Moment.systemLogs_eq shownMoments)
  rw [List.map_map, List.map_map] at logs
  have areLines : ∀ block ∈ turns.map (fun turn => (turn.timeSince reltime, turn.stat)),
      ∀ line ∈ block.2, IsLine line := by
    intro block isBlock
    obtain ⟨turn, inTurns, rfl⟩ := List.mem_map.mp isBlock
    exact (shown turn inTurns).1.stat
  have blocks := parseTimedBlocks_encoded _ areLines
  rw [List.map_map] at blocks
  have reads : ∀ turn ∈ turns, statTimes (turn.timeSince reltime, turn.stat) =
      pure (some (turn.frame reltime)) := by
    intro turn _
    rw [turn.isStat]
    exact CpuCounters.statTimes_line _ _ _
  have frames : (turns.map fun turn => (turn.timeSince reltime, turn.stat)).mapM statTimes =
      .ok (turns.map fun turn => some (turn.frame reltime)) := by
    rw [List.mapM_map]
    exact Library.mapM_eq_pure reads
  have kept : (turns.map fun turn => some (turn.frame reltime)).filterMap id =
      turns.map (StatTurn.frame reltime) := by
    rw [List.filterMap_map]
    exact congrFun List.filterMap_eq_map turns
  rw [parseProcStatLog]
  change (parseTimedBlocks (systemLogs (BitVec.ofNat 64 reltime)
    (turns.map (Moment.snapshot ∘ StatTurn.toMoment))).stat >>= _) = _
  rw [logs]
  change (parseTimedBlocks (logBytes (turns.map ((fun block : Block =>
    (block.1, block.2.map encode)) ∘ fun turn => (turn.timeSince reltime, turn.stat)))) >>= _) = _
  rw [blocks]
  change ((turns.map fun turn => (turn.timeSince reltime, turn.stat)).mapM statTimes >>= _) = _
  rw [frames]
  change Except.ok (List.zipWith cpuSample ((turns.map fun turn =>
    some (turn.frame reltime)).filterMap id) ((turns.map fun turn =>
      some (turn.frame reltime)).filterMap id).tail) = _
  rw [kept, Library.zipWith_tail, Library.pairs_map, List.map_map]
  rfl

/-! ## Shares -/

/-- The time that a pair of turns accounts for; it is no less than one. -/
def elapsed (pair : StatTurn × StatTurn) : ℚ :=
  max (pair.2.counters.wholeTime - pair.1.counters.wholeTime) 1

/-- A sample has the shares of what the counters have grown by. -/
theorem cpuSample_frame (reltime : Nat) (pair : StatTurn × StatTurn) :
    cpuSample (pair.1.frame reltime) (pair.2.frame reltime) =
      { time := some (pair.2.timeSince reltime : ℚ)
        user := (pair.2.counters.userTime - pair.1.counters.userTime) / elapsed pair
        sys := (pair.2.counters.systemTime - pair.1.counters.systemTime) / elapsed pair
        io := ((pair.2.counters.ioWait : ℚ) - pair.1.counters.ioWait) / elapsed pair
        swap := 0 } := by
  have whole : ((max ((pair.2.counters.user + pair.2.counters.nice -
      (pair.1.counters.user + pair.1.counters.nice) : Int) +
      (pair.2.counters.system + pair.2.counters.irq + pair.2.counters.softirq -
        (pair.1.counters.system + pair.1.counters.irq + pair.1.counters.softirq)) +
      (pair.2.counters.idle - pair.1.counters.idle) +
      (pair.2.counters.ioWait - pair.1.counters.ioWait)) 1 : Int) : ℚ) = elapsed pair := by
    rw [elapsed, CpuCounters.wholeTime, CpuCounters.wholeTime, CpuCounters.userTime,
      CpuCounters.userTime, CpuCounters.systemTime, CpuCounters.systemTime]
    push_cast
    congr 1
    ring
  simp only [cpuSample, StatTurn.frame, CpuCounters.times, whole, CpuCounters.userTime,
    CpuCounters.systemTime]
  push_cast
  rfl

/-- The shares of a pair between which no counter decreases. -/
theorem shares_nonneg {pair : StatTurn × StatTurn}
    (forward : pair.1.counters.Before pair.2.counters) :
    0 ≤ pair.2.counters.userTime - pair.1.counters.userTime ∧
      0 ≤ pair.2.counters.systemTime - pair.1.counters.systemTime ∧
      0 ≤ (pair.2.counters.ioWait : ℚ) - pair.1.counters.ioWait ∧
      (pair.2.counters.userTime - pair.1.counters.userTime) +
        (pair.2.counters.systemTime - pair.1.counters.systemTime) +
        ((pair.2.counters.ioWait : ℚ) - pair.1.counters.ioWait) ≤ elapsed pair := by
  have cast : ∀ {first second : Nat}, first ≤ second → (first : ℚ) ≤ second :=
    fun le => Nat.cast_le.mpr le
  have user := cast forward.user
  have nice := cast forward.nice
  have system := cast forward.system
  have idle := cast forward.idle
  have ioWait := cast forward.ioWait
  have irq := cast forward.irq
  have softirq := cast forward.softirq
  have whole : pair.2.counters.wholeTime - pair.1.counters.wholeTime ≤ elapsed pair :=
    le_max_left _ _
  simp only [CpuCounters.wholeTime, CpuCounters.userTime, CpuCounters.systemTime] at whole ⊢
  refine ⟨?_, ?_, ?_, ?_⟩ <;> linarith

/-- What shares account for, over all pairs: the growth of a counter from the first turn to the
last. -/
def TellsGrowth (turns : List StatTurn) (share : CPUSample → ℚ) (counter : CpuCounters → ℚ)
    (cpuStats : List CPUSample) : Prop :=
  ∀ first last, turns.head? = some first → turns.getLast? = some last →
    (List.zipWith (fun sample pair => share sample * elapsed pair) cpuStats (pairs turns)).sum =
      counter last.counters - counter first.counters

/-- Shares of the growth of a counter account for its growth. -/
theorem tellsGrowth_map
    {share : CPUSample → ℚ}
    {counter : CpuCounters → ℚ}
    {sample : StatTurn × StatTurn → CPUSample}
    (isShare : ∀ pair, share (sample pair) =
      (counter pair.2.counters - counter pair.1.counters) / elapsed pair)
    (turns : List StatTurn) :
    TellsGrowth turns share counter ((pairs turns).map sample) := by
  intro first last isFirst isLast
  have positive : ∀ pair, elapsed pair ≠ 0 := fun pair =>
    ne_of_gt (lt_of_lt_of_le one_pos (le_max_right _ _))
  have grown : List.zipWith (fun sample pair => share sample * elapsed pair)
      ((pairs turns).map sample) (pairs turns) =
        (pairs turns).map fun pair =>
          counter pair.2.counters - counter pair.1.counters := by
    rw [List.zipWith_map_left, List.zipWith_self]
    apply List.map_congr_left
    intro pair _
    rw [isShare, div_mul_cancel₀ _ (positive pair)]
  cases turns with
  | nil => cases isFirst
  | cons turn turns =>
      rw [List.head?_cons, Option.some_inj] at isFirst
      rw [List.getLast?_eq_some_getLast (List.cons_ne_nil _ _), Option.some_inj] at isLast
      have sums : ((pairs (turn :: turns)).map fun pair =>
          counter pair.2.counters - counter pair.1.counters).sum =
            counter ((turn :: turns).getLast (List.cons_ne_nil _ _)).counters -
              counter turn.counters :=
        Library.sum_pairs (fun turn : StatTurn => counter turn.counters) turn turns
      rw [grown, sums, isLast, isFirst]

/-- The samples of a log are right. -/
structure TellsShares (reltime : Nat) (turns : List StatTurn) (cpuStats : List CPUSample) :
    Prop where
  /-- Each turn but the first has a sample, at its time. -/
  times : cpuStats.map CPUSample.time =
    turns.tail.map fun turn => some (turn.timeSince reltime : ℚ)
  /-- The samples are shares of one. -/
  shares : ∀ sample ∈ cpuStats,
    0 ≤ sample.user ∧ 0 ≤ sample.sys ∧ 0 ≤ sample.io ∧ sample.user + sample.sys + sample.io ≤ 1
  /-- The time in user mode. -/
  user : TellsGrowth turns (·.user) (·.userTime) cpuStats
  /-- The time in kernel mode. -/
  sys : TellsGrowth turns (·.sys) (·.systemTime) cpuStats
  /-- The time waiting for devices. -/
  io : TellsGrowth turns (·.io) (·.ioWait) cpuStats

/-- Whatever the kernel shows at the turns of the loop, if no counter ever decreases, the samples
that are read from the log have the times of the turns, are shares of one, and account for all
the time that was spent between the first turn and the last. -/
theorem tellsShares_systemLogs
    {reltime : Nat}
    {turns : List StatTurn}
    (shown : ∀ turn ∈ turns, turn.Shown ∧ reltime ≤ turn.time)
    (forward : turns.IsChain fun first second => first.counters.Before second.counters) :
    ∃ cpuStats, parseProcStatLog (systemLogs (BitVec.ofNat 64 reltime)
        (turns.map fun turn => turn.snapshot)).stat = .ok cpuStats ∧
      TellsShares reltime turns cpuStats := by
  refine ⟨_, parseProcStatLog_systemLogs shown, ?_⟩
  constructor
  case times =>
    rw [← Library.map_snd_pairs, List.map_map, List.map_map]
    apply List.map_congr_left
    intro pair _
    rw [Function.comp_apply, cpuSample_frame]
    rfl
  case shares =>
    intro sample member
    obtain ⟨pair, isPair, rfl⟩ := List.mem_map.mp member
    obtain ⟨user, sys, io, total⟩ :=
      shares_nonneg ((Library.isChain_iff_pairs _ _).mp forward pair isPair)
    have positive : 0 < elapsed pair := lt_of_lt_of_le one_pos (le_max_right _ _)
    rw [cpuSample_frame]
    refine ⟨div_nonneg user positive.le, div_nonneg sys positive.le, div_nonneg io positive.le, ?_⟩
    rw [← add_div, ← add_div]
    exact (div_le_one positive).mpr total
  case user => exact tellsGrowth_map (fun pair => by rw [cpuSample_frame]) turns
  case sys => exact tellsGrowth_map (fun pair => by rw [cpuSample_frame]) turns
  case io => exact tellsGrowth_map (fun pair => by rw [cpuSample_frame]) turns

/-- A turn with some counters. -/
def turnAt (time : Nat) (counters : CpuCounters) : StatTurn where
  time := time
  idle := "9.50".toList
  stat := [counters.line]
  diskstats := []
  meminfo := []
  counters := counters
  others := []
  isStat := rfl

/-- Two turns, at the second of which the processor has been busy. -/
def busyTurns : List StatTurn :=
  [turnAt 1207 ⟨10, 0, 5, 90, 1, 0, 0, []⟩, turnAt 1305 ⟨60, 2, 15, 120, 7, 1, 1, [0]⟩]

/-- Their samples are right. -/
theorem tellsShares_busyTurns :
    ∃ cpuStats, parseProcStatLog (systemLogs (BitVec.ofNat 64 1200)
        (busyTurns.map fun turn => turn.snapshot)).stat = .ok cpuStats ∧
      TellsShares 1200 busyTurns cpuStats := by
  have isLine : ∀ turn ∈ busyTurns, ∀ line ∈ turn.stat, line ≠ [] ∧ '\n' ∉ line := by
    decide +kernel
  have others : ∀ turn ∈ busyTurns, turn.diskstats = [] ∧ turn.meminfo = [] := by
    decide +kernel
  have times : ∀ turn ∈ busyTurns, 0 < turn.time ∧ turn.time < 2 ^ 64 ∧
      turn.uptimeText.length < 80 ∧ 1200 ≤ turn.time := by
    decide +kernel
  apply tellsShares_systemLogs
  · intro turn member
    obtain ⟨started, representable, short, later⟩ := times turn member
    refine ⟨⟨started, representable, short, isLine turn member, ?_, ?_⟩, later⟩
    · simp [(others turn member).1]
    · simp [(others turn member).2]
  · exact List.isChain_cons_cons.mpr ⟨⟨by decide, by decide, by decide, by decide, by decide,
      by decide, by decide⟩, .singleton _⟩

end Parsing
end Bootchart
