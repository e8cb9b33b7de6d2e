import Bootchart.Parsing.CpuShares
import Bootchart.Parsing.DiskNames
import Mathlib.Data.List.Forall2

/-!
# The values of the memory

`/proc/meminfo` has a line for each of its values. `_parse_proc_meminfo_log` keeps six of them,
and only of those turns of the collector that told all six.
-/

namespace Bootchart
namespace Parsing

open Library (Text Dict)
open Library.Text (decimal behind isSpace isDecimal leadingDigits)
open Library.Utf8 (encode)
open Collector (Moment systemLogs)

/-- A line of `/proc/meminfo`. -/
structure MemEntry where
  /-- The name of the value. -/
  name : Text
  /-- The spaces in front of the value. -/
  gap : Text
  /-- The value. -/
  value : Nat
  /-- What is behind it, if it has a unit. -/
  unit : Text
  /-- A name has no colon. -/
  noColon : ':' ∉ name
  /-- Spaces are spaces. -/
  isGap : ∀ c ∈ gap, isSpace c = true
  /-- A unit does not go on with the number. -/
  isUnit : ∀ c ∈ unit.head?, isDecimal c = false

namespace MemEntry

/-- The line. -/
def line (entry : MemEntry) : Text :=
  entry.name ++ ':' :: (entry.gap ++ (decimal (entry.value : Int) ++ entry.unit))

/-- What is behind a name and a colon in a line. -/
theorem behind_line {name : Text} (noColon : ':' ∉ name) (entry : MemEntry) :
    behind (name ++ [':']) entry.line =
      if name = entry.name then some (entry.gap ++ (decimal (entry.value : Int) ++ entry.unit))
      else none := by
  split
  next same =>
    have opened : entry.line = name ++ [':'] ++
        (entry.gap ++ (decimal (entry.value : Int) ++ entry.unit)) := by
      rw [line, same, List.append_assoc]
      rfl
    rw [opened, Library.Text.behind_append]
  next other =>
    rw [behind, if_neg]
    intro isPrefix
    rw [List.isPrefixOf_iff_prefix] at isPrefix
    obtain ⟨rest, isRest⟩ := isPrefix
    -- The first colon ends both names.
    rw [List.append_assoc, List.singleton_append, line] at isRest
    have names := congrArg (List.takeWhile (· ≠ ':')) isRest
    have takes : ∀ {name : Text} (rest : Text), ':' ∉ name →
        (name ++ ':' :: rest).takeWhile (· ≠ ':') = name := by
      intro name rest noColon
      apply Library.Text.takeWhile_append_eq
      · intro c member
        rw [decide_eq_true_eq]
        rintro rfl
        exact noColon member
      · rintro c ⟨⟩
        decide
    rw [takes _ noColon, takes _ entry.noColon] at names
    exact other names

/-- What is matched in a line: one of the six names, and the digits of its value. -/
theorem meminfoMatch_line (entry : MemEntry) :
    meminfoMatch entry.line =
      if entry.name ∈ MemSample.usedValues then
        some (entry.name, decimal (entry.value : Int))
      else none := by
  have noColons : ∀ name ∈ MemSample.usedValues, ':' ∉ name := by
    decide
  have digits : leadingDigits
      ((entry.gap ++ (decimal (entry.value : Int) ++ entry.unit)).dropWhile isSpace) =
        some (decimal (entry.value : Int), entry.unit) := by
    obtain ⟨c, others, isDigits⟩ :=
      List.exists_cons_of_ne_nil (Library.Text.decimal_ne_nil (entry.value : Int))
    have trimmed : (entry.gap ++ (decimal (entry.value : Int) ++ entry.unit)).dropWhile isSpace =
        decimal (entry.value : Int) ++ entry.unit := by
      apply Library.Text.dropWhile_append_eq entry.isGap
      intro first isFirst
      rw [isDigits, List.cons_append, List.head?_cons, Option.mem_some] at isFirst
      apply Library.Text.isSpace_of_mem_decimal
      rw [isDigits, isFirst]
      exact List.mem_cons_self
    rw [trimmed, leadingDigits_decimal _ entry.isUnit]
  have tries : ∀ names : List Text, (∀ name ∈ names, ':' ∉ name) →
      names.findSome? (fun name => (behind (name ++ [':']) entry.line).bind fun rest =>
        (leadingDigits (rest.dropWhile isSpace)).map fun number => (name, number.1)) =
      if entry.name ∈ names then some (entry.name, decimal (entry.value : Int)) else none := by
    intro names
    induction names with
    | nil => intro _; rfl
    | cons name names inductionHypothesis =>
        intro noColons
        rw [List.forall_mem_cons] at noColons
        rw [List.findSome?_cons, behind_line noColons.1, inductionHypothesis noColons.2]
        by_cases same : name = entry.name
        · rw [if_pos same, Option.bind_some, digits, same, if_pos List.mem_cons_self]
          rfl
        · rw [if_neg same, Option.bind_none]
          have isRest : entry.name ∈ name :: names ↔ entry.name ∈ names := by
            rw [List.mem_cons, or_iff_right (Ne.symm same)]
          simp only [isRest]
  exact tries _ noColons

/-- The effect of a line. -/
theorem meminfoLine_line (sample : MemSample) (entry : MemEntry) :
    meminfoLine sample entry.line = .ok
      (if entry.name ∈ MemSample.usedValues then sample.addValue entry.name entry.value
      else sample) := by
  rw [meminfoLine, meminfoMatch_line]
  split
  next isMatch =>
    split at isMatch
    · cases isMatch
      rw [int, Library.Text.readInt_decimal]
      next used => rw [if_pos used]; rfl
    · cases isMatch
  next noMatch =>
    split at noMatch
    · cases noMatch
    next unused => rw [if_neg unused]

end MemEntry

/-- The value that some lines tell last under a name. -/
def lastValue (entries : List MemEntry) (name : Text) : Option Int :=
  ((entries.filter fun entry => entry.name = name).map fun entry =>
    (entry.value : Int)).getLast?

/-- A sample has the values that some lines told last, as far as they are used. -/
structure Told (entries : List MemEntry) (sample : MemSample) : Prop where
  /-- The used values. -/
  used : ∀ name ∈ MemSample.usedValues, sample.records.get? name = lastValue entries name
  /-- There are no others. -/
  unused : ∀ name ∉ MemSample.usedValues, sample.records.get? name = none

/-- The last value under a name, with a further line. -/
theorem lastValue_append_singleton (entries : List MemEntry) (entry : MemEntry) (name : Text) :
    lastValue (entries ++ [entry]) name =
      if entry.name = name then some (entry.value : Int) else lastValue entries name := by
  rw [lastValue, List.filter_append]
  by_cases same : entry.name = name
  · simp [same]
  · simp [same, lastValue]

/-- A line whose value is used. -/
theorem Told.addValue
    {entries : List MemEntry}
    {sample : MemSample}
    (told : Told entries sample)
    {entry : MemEntry}
    (used : entry.name ∈ MemSample.usedValues) :
    Told (entries ++ [entry]) (sample.addValue entry.name entry.value) := by
  constructor
  case used =>
    intro name isUsed
    rw [lastValue_append_singleton, MemSample.addValue, Dict.get?_set, told.used name isUsed]
    simp only [eq_comm]
  case unused =>
    intro name isUnused
    have other : name ≠ entry.name := by
      rintro rfl
      exact isUnused used
    rw [MemSample.addValue, Dict.get?_set, if_neg other, told.unused name isUnused]

/-- A line whose value is not used. -/
theorem Told.ignore
    {entries : List MemEntry}
    {sample : MemSample}
    (told : Told entries sample)
    {entry : MemEntry}
    (unused : entry.name ∉ MemSample.usedValues) :
    Told (entries ++ [entry]) sample := by
  constructor
  case used =>
    intro name isUsed
    have other : entry.name ≠ name := by
      rintro rfl
      exact unused isUsed
    rw [lastValue_append_singleton, if_neg other, told.used name isUsed]
  case unused => exact told.unused

/-- Lines tell their values. -/
theorem foldlM_meminfoLine (time : Int) (entries : List MemEntry) :
    ∃ sample, (entries.map MemEntry.line).foldlM meminfoLine
        { time := time, records := Dict.empty } = .ok sample ∧
      sample.time = time ∧ Told entries sample := by
  induction entries using List.reverseRecOn with
  | nil =>
      refine ⟨_, rfl, rfl, ?_, ?_⟩
      · intro name _
        exact Dict.get?_empty name
      · intro name _
        exact Dict.get?_empty name
  | append_singleton entries entry inductionHypothesis =>
      obtain ⟨sample, isSample, isTime, told⟩ := inductionHypothesis
      rw [List.map_append, List.foldlM_append, isSample]
      change ∃ next, (meminfoLine sample entry.line >>= pure) = .ok next ∧ _
      rw [entry.meminfoLine_line sample]
      refine ⟨_, rfl, ?_⟩
      split
      next used => exact ⟨isTime, told.addValue used⟩
      next unused => exact ⟨isTime, told.ignore unused⟩

/-! ## Turns -/

/-- A moment at which `/proc/meminfo` has lines of values. -/
structure MemTurn extends Moment where
  /-- The lines. -/
  entries : List MemEntry
  /-- The lines of the file. -/
  isMeminfo : meminfo = entries.map MemEntry.line

/-- All six values are told. -/
def MemTurn.complete (turn : MemTurn) : Bool :=
  MemSample.usedValues.all fun name => (lastValue turn.entries name).isSome

/-- A sample is that of a turn. -/
structure TellsTurn (reltime : Nat) (turn : MemTurn) (sample : MemSample) : Prop where
  /-- It has the time that had passed. -/
  time : sample.time = turn.timeSince reltime
  /-- It has the values. -/
  told : Told turn.entries sample

/-- A sample is kept if its turn told all values. -/
theorem TellsTurn.valid_eq {reltime : Nat} {turn : MemTurn} {sample : MemSample}
    (tells : TellsTurn reltime turn sample) : sample.valid = turn.complete := by
  rw [MemSample.valid, MemTurn.complete, Bool.eq_iff_iff, List.all_eq_true, List.all_eq_true]
  apply forall₂_congr
  intro name used
  rw [tells.told.used name used]

/-- Samples and turns are kept alike. -/
theorem forall₂_filter {reltime : Nat} {turns : List MemTurn} {samples : List MemSample}
    (tell : List.Forall₂ (TellsTurn reltime) turns samples) :
    List.Forall₂ (TellsTurn reltime) (turns.filter MemTurn.complete)
      (samples.filter MemSample.valid) := by
  induction tell with
  | nil => exact List.Forall₂.nil
  | cons tells _ inductionHypothesis =>
      rw [List.filter_cons, List.filter_cons, tells.valid_eq]
      split
      · exact List.Forall₂.cons tells inductionHypothesis
      · exact inductionHypothesis

/-- Whatever values the kernel shows at the turns of the loop, the samples that are read from the
log are those of the turns that told all six values: in their order, at their times, with just
these values. -/
theorem tellsTurns_systemLogs
    {reltime : Nat}
    {turns : List MemTurn}
    (shown : ∀ turn ∈ turns, turn.Shown ∧ reltime ≤ turn.time) :
    ∃ samples, parseProcMeminfoLog (systemLogs (BitVec.ofNat 64 reltime)
        (turns.map fun turn => turn.snapshot)).meminfo = .ok samples ∧
      List.Forall₂ (TellsTurn reltime) (turns.filter MemTurn.complete) samples := by
  have shownMoments : ∀ moment ∈ turns.map MemTurn.toMoment,
      moment.Shown ∧ reltime ≤ moment.time := by
    intro moment member
    obtain ⟨turn, inTurns, rfl⟩ := List.mem_map.mp member
    exact shown turn inTurns
  have logs := congrArg Collector.SystemLogs.meminfo
    (Collector.Moment.systemLogs_eq shownMoments)
  dsimp only at logs
  rw [List.map_map, List.map_map] at logs
  have areLines : ∀ block ∈ turns.map (fun turn => (turn.timeSince reltime, turn.meminfo)),
      ∀ line ∈ block.2, IsLine line := by
    intro block isBlock
    obtain ⟨turn, inTurns, rfl⟩ := List.mem_map.mp isBlock
    exact (shown turn inTurns).1.meminfo
  have blocks := parseTimedBlocks_encoded _ areLines
  rw [List.map_map] at blocks
  have reads : ∃ samples, (turns.map fun turn => (turn.timeSince reltime, turn.meminfo)).mapM
      (fun (time, lines) => lines.foldlM meminfoLine { time := time, records := Dict.empty }) =
        .ok samples ∧ List.Forall₂ (TellsTurn reltime) turns samples := by
    clear shown shownMoments logs areLines blocks
    induction turns with
    | nil => exact ⟨[], rfl, List.Forall₂.nil⟩
    | cons turn turns inductionHypothesis =>
        obtain ⟨samples, readAll, tell⟩ := inductionHypothesis
        obtain ⟨sample, isSample, isTime, told⟩ :=
          foldlM_meminfoLine (turn.timeSince reltime) turn.entries
        refine ⟨sample :: samples, ?_, List.Forall₂.cons ⟨isTime, told⟩ tell⟩
        rw [List.map_cons, List.mapM_cons, readAll]
        dsimp only
        rw [turn.isMeminfo, isSample]
        rfl
  obtain ⟨samples, readAll, tell⟩ := reads
  refine ⟨samples.filter MemSample.valid, ?_, forall₂_filter tell⟩
  rw [parseProcMeminfoLog]
  change (parseTimedBlocks (systemLogs (BitVec.ofNat 64 reltime)
    (turns.map (Moment.snapshot ∘ MemTurn.toMoment))).meminfo >>= _) = _
  rw [logs]
  change (parseTimedBlocks (logBytes (turns.map ((fun block : Block =>
    (block.1, block.2.map encode)) ∘ fun turn =>
      (turn.timeSince reltime, turn.meminfo)))) >>= _) = _
  rw [blocks]
  change ((turns.map fun turn => (turn.timeSince reltime, turn.meminfo)).mapM
    (fun (time, lines) => lines.foldlM meminfoLine { time := time, records := Dict.empty }) >>=
      _) = _
  rw [readAll]
  rfl

/-- A line of a value in kilobytes. -/
def kilobytes (name : Text) (noColon : ':' ∉ name) (value : Nat) : MemEntry where
  name := name
  gap := "  ".toList
  value := value
  unit := " kB".toList
  noColon := noColon
  isGap := List.all_eq_true.mp (show "  ".toList.all isSpace = true by decide)
  isUnit := by rintro c ⟨⟩; rfl

/-- A moment of some values. -/
def memoryAt (time : Nat) (entries : List MemEntry) : MemTurn where
  time := time
  idle := "9.50".toList
  stat := []
  diskstats := []
  meminfo := entries.map MemEntry.line
  entries := entries
  isMeminfo := rfl

/-- Two turns; at the second one a value is missing. -/
def memoryTurns : List MemTurn :=
  [memoryAt 1207 [
      kilobytes "MemTotal".toList (by decide) 2048, kilobytes "MemFree".toList (by decide) 900,
      kilobytes "Slab".toList (by decide) 12, kilobytes "Buffers".toList (by decide) 30,
      kilobytes "Cached".toList (by decide) 400, kilobytes "SwapTotal".toList (by decide) 0,
      kilobytes "SwapFree".toList (by decide) 0],
    memoryAt 1305 [
      kilobytes "MemTotal".toList (by decide) 2048, kilobytes "MemFree".toList (by decide) 700]]

/-- The samples of the turns. -/
theorem tellsTurns_memoryTurns :
    ∃ samples, parseProcMeminfoLog (systemLogs (BitVec.ofNat 64 1200)
        (memoryTurns.map fun turn => turn.snapshot)).meminfo = .ok samples ∧
      List.Forall₂ (TellsTurn 1200) (memoryTurns.filter MemTurn.complete) samples := by
  have isLine : ∀ turn ∈ memoryTurns, ∀ line ∈ turn.meminfo, line ≠ [] ∧ '\n' ∉ line := by
    decide +kernel
  have others : ∀ turn ∈ memoryTurns, turn.stat = [] ∧ turn.diskstats = [] := by
    decide +kernel
  have times : ∀ turn ∈ memoryTurns, 0 < turn.time ∧ turn.time < 2 ^ 64 ∧
      turn.uptimeText.length < 80 ∧ 1200 ≤ turn.time := by
    decide +kernel
  apply tellsTurns_systemLogs
  intro turn member
  obtain ⟨started, representable, short, later⟩ := times turn member
  refine ⟨⟨started, representable, short, ?_, ?_, isLine turn member⟩, later⟩
  · simp [(others turn member).1]
  · simp [(others turn member).2]

end Parsing
end Bootchart
