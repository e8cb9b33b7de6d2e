import Bootchart.Parsing.TimedBlocks
import Bootchart.Samples

/-!
# The kernel log

`_parse_dmesg` makes a process of every initcall. If the time of the first line is
late, the clock was set before: the times count from there, and the line is skipped.
-/

namespace Bootchart
namespace Parsing

open Library (Text Dict)
open Library.Text (behind digitValue leadingDigits isSpace)

/-- The value of digits. -/
def digitsValue (digits : Text) : Nat :=
  digits.foldl (fun value c => 10 * value + (digitValue c).getD 0) 0

/-- `float(text)` for digits before and behind a point. -/
def decimalValue (whole fraction : Text) : ℚ :=
  digitsValue whole + digitsValue fraction / 10 ^ fraction.length

/-- The match of `timestamp_re`: the time, and what follows. -/
def timestampMatch (line : Text) : Option (ℚ × Text) := do
  let rest ← behind ['['] line
  let (whole, rest) ← leadingDigits (rest.dropWhile isSpace)
  let rest ← behind ['.'] rest
  let (fraction, rest) ← leadingDigits rest
  let rest ← behind [']'] (rest.dropWhile isSpace)
  if rest.head?.any isSpace then
    some (decimalValue whole fraction, rest.dropWhile isSpace)
  else none

/-- The match of `split_re`: two words, and what follows behind one space. -/
def splitMatch (message : Text) : Option (Text × Text × Text) :=
  let type := message.takeWhile (!isSpace ·)
  let message := (message.dropWhile (!isSpace ·)).dropWhile isSpace
  let func := message.takeWhile (!isSpace ·)
  match message.dropWhile (!isSpace ·) with
  | ' ' :: rest => if type = [] ∨ func = [] then none else some (type, func, rest)
  | _ => none

/-- What `_parse_dmesg` keeps track of. -/
structure DmesgState where
  /-- `processMap`. -/
  processMap : Dict Text Process
  /-- Whether the process that stands for the kernel is still in the map. -/
  kernelListed : Bool
  /-- `idx`. -/
  idx : ℚ
  /-- `base_ts`. -/
  baseTs : Option ℚ
  /-- `max_ts`. -/
  maxTs : ℚ

/-- The key of the kernel. -/
def kBoot : Text :=
  ['k', '-', 'b', 'o', 'o', 't']

namespace DmesgState

/-- Before the first line. -/
def init : DmesgState where
  processMap := Dict.empty.set kBoot (Process.new 0 kBoot 0 (1 / 10))
  kernelListed := true
  idx := 0
  baseTs := none
  maxTs := 0

/-- `process.duration = duration`, for the process under a key. -/
def setDuration (state : DmesgState) (key : Text) (duration : Process → ℚ) :
    DmesgState :=
  match state.processMap.get? key with
  | some process =>
      { state with
        processMap :=
          state.processMap.set key { process with duration := duration process } }
  | none => state

/-- `kernel.duration = duration`, which nobody sees if the map has another process in
its place. -/
def setKernelDuration (state : DmesgState) (duration : ℚ) : DmesgState :=
  if state.kernelListed then state.setDuration kBoot fun _ => duration else state

/-- The parent a call names: `@ ` and a number. -/
def callParent (rest : Text) : ℚ :=
  match (behind ['@', ' '] rest).bind leadingDigits with
  | some (digits, _) => (digitsValue digits / 1000 : Nat)
  | none => 0

/-- A call of a function. -/
def call (state : DmesgState) (func rest : Text) (timeMs : ℚ) : DmesgState :=
  let ppid := callParent rest
  let idx := state.idx + 1 / 1000000
  { state with
    idx := idx
    kernelListed := state.kernelListed && func != kBoot
    processMap := state.processMap.set func
      (Process.new (ppid + idx) (func.takeWhile (· ≠ '+')) ppid (timeMs / 10)) }

/-- A message with its time. -/
def message (state : DmesgState) (timeMs : ℚ) (text : Text) : DmesgState :=
  match splitMatch text with
  | none => state
  | some (type, func, rest) =>
      if "Write protecting the".toList.isPrefixOf text ∨
          "Freeing unused kernel memory".toList.isPrefixOf text then
        state.setKernelDuration (timeMs / 10)
      else if type = "calling".toList then state.call func rest timeMs
      else if type = "initcall".toList then
        state.setDuration func fun process => timeMs / 10 - process.startTime
      else state

/-- One line. -/
def line (state : DmesgState) (text : Text) : DmesgState :=
  match timestampMatch text with
  | none => state
  | some (seconds, text) =>
      let timeMs := seconds * 1000
      if state.maxTs = 0 ∧ state.baseTs = none ∧ timeMs > 1000 then
        { state with baseTs := some timeMs }
      else
        { state with maxTs := max timeMs state.maxTs }.message
          (timeMs - state.baseTs.getD 0) text

end DmesgState

/-- `_parse_dmesg`. -/
def parseDmesg (file : Bytes) : List Process :=
  (((Library.Utf8.decodeReplace file).splitOn '\n').foldl DmesgState.line
    .init).processMap.values

/-! ## The processes of the kernel log -/

/-- A process without samples and parent. -/
def Bare (process : Process) : Prop :=
  process.samples = [] ∧ process.parent = none

namespace DmesgState

/-- All processes of the map are bare, and their pids are not negative. -/
structure Sound (state : DmesgState) : Prop where
  /-- What is added to the pid of the parent. -/
  idx : 0 ≤ state.idx
  /-- The processes. -/
  processes : ∀ key process, state.processMap.get? key = some process →
    Bare process ∧ 0 ≤ process.pid

variable {state : DmesgState}

/-- Setting a bare process. -/
theorem Sound.set
    (sound : state.Sound)
    {process : Process}
    (isBare : Bare process)
    (notNegative : 0 ≤ process.pid)
    (key : Text) :
    ∀ other found, (state.processMap.set key process).get? other = some found →
      Bare found ∧ 0 ≤ found.pid := by
  intro other found isFound
  rw [Dict.get?_set] at isFound
  split at isFound
  · obtain rfl := Option.some.inj isFound
    exact ⟨isBare, notNegative⟩
  · exact sound.processes other found isFound

/-- Setting a duration. -/
theorem Sound.setDuration
    (sound : state.Sound)
    (key : Text)
    (duration : Process → ℚ) : (state.setDuration key duration).Sound := by
  unfold DmesgState.setDuration
  split
  next process isProcess =>
    obtain ⟨isBare, notNegative⟩ := sound.processes key process isProcess
    have stillBare : Bare { process with duration := duration process } := isBare
    exact ⟨sound.idx, sound.set stillBare notNegative key⟩
  next => exact sound

/-- The parent that a call names is not negative. -/
theorem callParent_nonneg (rest : Text) : 0 ≤ callParent rest := by
  unfold callParent
  split
  · exact Nat.cast_nonneg _
  · exact le_refl _

/-- A call. -/
theorem Sound.call
    (sound : state.Sound)
    (func rest : Text)
    (timeMs : ℚ) : (state.call func rest timeMs).Sound := by
  have later : 0 ≤ state.idx + 1 / 1000000 := add_nonneg sound.idx (by norm_num)
  have notNegative : 0 ≤ callParent rest + (state.idx + 1 / 1000000) :=
    add_nonneg (callParent_nonneg rest) later
  exact ⟨later, sound.set ⟨rfl, rfl⟩ notNegative func⟩

/-- A message. -/
theorem Sound.message
    (sound : state.Sound)
    (timeMs : ℚ)
    (text : Text) : (state.message timeMs text).Sound := by
  unfold DmesgState.message
  split
  next => exact sound
  next type func rest _ =>
    split
    · unfold setKernelDuration
      split
      · exact sound.setDuration _ _
      · exact sound
    · split
      · exact sound.call func rest timeMs
      · split
        · exact sound.setDuration _ _
        · exact sound

/-- A line. -/
theorem Sound.line (sound : state.Sound) (text : Text) : (state.line text).Sound := by
  unfold DmesgState.line
  split
  next => exact sound
  next seconds message _ =>
    simp only
    split
    · exact ⟨sound.idx, sound.processes⟩
    · have later : Sound { state with maxTs := max (seconds * 1000) state.maxTs } :=
        ⟨sound.idx, sound.processes⟩
      exact later.message _ _

/-- Any number of lines. -/
theorem Sound.foldl_line
    (sound : state.Sound)
    (lines : List Text) : (lines.foldl DmesgState.line state).Sound := by
  induction lines generalizing state with
  | nil => exact sound
  | cons line lines inductionHypothesis => exact inductionHypothesis (sound.line line)

end DmesgState

/-- The processes of the kernel log have neither samples nor parents, and no negative
pids. -/
theorem bare_parseDmesg
    {file : Bytes}
    {process : Process}
    (member : process ∈ parseDmesg file) : Bare process ∧ 0 ≤ process.pid := by
  have first : DmesgState.init.Sound := by
    refine ⟨le_refl _, fun key process isProcess => ?_⟩
    rw [DmesgState.init, Dict.get?_set] at isProcess
    split at isProcess
    · obtain rfl := Option.some.inj isProcess
      exact ⟨⟨rfl, rfl⟩, le_refl _⟩
    · exact absurd isProcess (by simp)
  obtain ⟨⟨key, value⟩, isEntry, rfl⟩ := List.mem_map.mp member
  exact (first.foldl_line _).processes key value (Dict.mem_entries.mp isEntry)

end Parsing
end Bootchart
