import Bootchart.Parsing.Dmesg
import Mathlib.Tactic.Positivity
import Mathlib.Tactic.Ring

/-!
# Calls of the kernel log

With `initcall_debug` the kernel logs every call of an initialisation function and every
return. `_parse_dmesg` keeps the calls under the names that are printed, so that a call takes
the place of an earlier call with the same name.
-/

namespace Bootchart
namespace Parsing

open Library (Text Dict)
open Library.Text (behind behind_cons isDecimal isDecimal_of_isDigit leadingDigits_append isSpace
  isSpace_of_all takeWhile_append_eq dropWhile_append_eq)

/-! ## Lines -/

/-- The time in front of a message: `[    0.039993] `. -/
structure Stamp where
  /-- How many spaces stand in front of the time. -/
  padding : Nat
  /-- The seconds. -/
  whole : Text
  /-- What is behind the point. -/
  fraction : Text
  /-- There are seconds. -/
  whole_ne_nil : whole ≠ []
  /-- There is a fraction. -/
  fraction_ne_nil : fraction ≠ []
  /-- Seconds are digits. -/
  whole_digits : ∀ c ∈ whole, c.isDigit
  /-- The fraction consists of digits. -/
  fraction_digits : ∀ c ∈ fraction, c.isDigit

namespace Stamp

/-- What is printed, with the message behind it. -/
def text (stamp : Stamp) (message : Text) : Text :=
  '[' :: (List.replicate stamp.padding ' ' ++
    (stamp.whole ++ '.' :: (stamp.fraction ++ ']' :: ' ' :: message)))

/-- The time. -/
def seconds (stamp : Stamp) : ℚ :=
  decimalValue stamp.whole stamp.fraction

end Stamp

/-- What is printed for a function: `symbol+offset/size`, without spaces. -/
def Symbol : Type :=
  { symbol : Text // '+' ∈ symbol ∧ ∀ c ∈ symbol, isSpace c = false }

/-- The message of a line, if it has a time and consists of two words and a rest. -/
def parsedMessage (text : Text) : Option (Text × Text × Text) :=
  (timestampMatch text).bind fun (_, message) => splitMatch message

/-- A line of the kernel log. -/
inductive KernelLine
  /-- A call: `calling  migration_init+0x0/0x6b @ 1`. -/
  | calling (stamp : Stamp) (symbol : Symbol) (rest : Text)
  /-- A return: `initcall migration_init+0x0/0x6b returned 1 after 0 usecs`. A module may be
  named in between. -/
  | returned (stamp : Stamp) (symbol : Symbol) (place rest : Text)
  /-- Any other line. -/
  | other (text : Text)
      (noCall : ∀ func rest, parsedMessage text ≠ some ("calling".toList, func, rest))
      (noReturn : ∀ func rest, parsedMessage text ≠ some ("initcall".toList, func, rest))

namespace KernelLine

/-- The message of a call or a return. -/
def message : KernelLine → Text
  | calling _ symbol rest => "calling  ".toList ++ (symbol.val ++ ' ' :: rest)
  | returned _ symbol place rest =>
      "initcall ".toList ++ (symbol.val ++ ' ' :: (place ++ ("returned ".toList ++ rest)))
  | other text _ _ => (timestampMatch text).elim [] Prod.snd

/-- The line. -/
def text : KernelLine → Text
  | line@(calling stamp _ _) | line@(returned stamp _ _ _) => stamp.text line.message
  | other text _ _ => text

/-- The time in seconds, unless the line has none. -/
def seconds : KernelLine → Option ℚ
  | calling stamp _ _ | returned stamp _ _ _ => some stamp.seconds
  | other text _ _ => (timestampMatch text).map Prod.fst

end KernelLine

namespace KernelLine

/-- The function that is called, and what is behind it. -/
def called : KernelLine → Option (Text × Text)
  | calling _ symbol rest => some (symbol.val, rest)
  | _ => none

/-- The function that returns. -/
def returns : KernelLine → Option Text
  | returned _ symbol _ _ => some symbol.val
  | _ => none

end KernelLine

/-! ## Matches -/

/-- A time is matched, and what is behind it. -/
theorem timestampMatch_text
    (stamp : Stamp)
    {message : Text}
    (ends : ∀ c ∈ message.head?, isSpace c = false) :
    timestampMatch (stamp.text message) = some (stamp.seconds, message) := by
  have padding : ∀ c ∈ List.replicate stamp.padding ' ', isSpace c = true := by
    intro c member
    rw [List.eq_of_mem_replicate member]
    rfl
  have noPadding : ∀ c ∈ (stamp.whole ++ '.' :: (stamp.fraction ++ ']' :: ' ' :: message)).head?,
      isSpace c = false := by
    obtain ⟨c, whole, isWhole⟩ := List.exists_cons_of_ne_nil stamp.whole_ne_nil
    have isDigit := stamp.whole_digits c (by simp [isWhole])
    rw [isWhole]
    rintro c ⟨⟩
    exact Library.Text.isSpace_of_isDigit isDigit
  have point : ∀ c ∈ ('.' :: (stamp.fraction ++ ']' :: ' ' :: message)).head?,
      isDecimal c = false := by
    rintro c ⟨⟩
    decide
  have bracket : ∀ c ∈ (']' :: ' ' :: message).head?, isDecimal c = false := by
    rintro c ⟨⟩
    decide
  have seconds := leadingDigits_append stamp.whole_ne_nil
    (fun c member => isDecimal_of_isDigit (stamp.whole_digits c member)) point
  have fraction := leadingDigits_append stamp.fraction_ne_nil
    (fun c member => isDecimal_of_isDigit (stamp.fraction_digits c member)) bracket
  have closed : (']' :: ' ' :: message).dropWhile isSpace = ']' :: ' ' :: message := rfl
  have spaced : (' ' :: message).head?.any isSpace = true := rfl
  have trimmed : ([' '] ++ message).dropWhile isSpace = message :=
    dropWhile_append_eq (List.all_eq_true.mp rfl) ends
  rw [timestampMatch, Stamp.text]
  simp only [Option.bind_eq_bind, behind_cons, Option.bind_some,
    dropWhile_append_eq padding noPadding,
    seconds, fraction, closed, spaced, if_true]
  exact congrArg (fun message => some (stamp.seconds, message)) trimmed

/-- Two words are matched, and what is behind one space. -/
theorem splitMatch_words
    {type gap func : Text}
    (type_ne_nil : type ≠ [])
    (func_ne_nil : func ≠ [])
    (gap_ne_nil : gap ≠ [])
    (typeWord : ∀ c ∈ type, isSpace c = false)
    (gapSpace : ∀ c ∈ gap, isSpace c = true)
    (funcWord : ∀ c ∈ func, isSpace c = false)
    (rest : Text) :
    splitMatch (type ++ (gap ++ (func ++ ' ' :: rest))) = some (type, func, rest) := by
  have inType : ∀ c ∈ type, (!isSpace c) = true := fun c member => by simp [typeWord c member]
  have inFunc : ∀ c ∈ func, (!isSpace c) = true := fun c member => by simp [funcWord c member]
  have afterType : ∀ c ∈ (gap ++ (func ++ ' ' :: rest)).head?, (!isSpace c) = false := by
    obtain ⟨c, gap, rfl⟩ := List.exists_cons_of_ne_nil gap_ne_nil
    rintro c ⟨⟩
    simp [gapSpace c (by simp)]
  have afterGap : ∀ c ∈ (func ++ ' ' :: rest).head?, isSpace c = false := by
    obtain ⟨c, func, rfl⟩ := List.exists_cons_of_ne_nil func_ne_nil
    rintro c ⟨⟩
    exact funcWord c (by simp)
  have afterFunc : ∀ c ∈ (' ' :: rest).head?, (!isSpace c) = false := by
    rintro c ⟨⟩
    rfl
  rw [splitMatch]
  simp only [takeWhile_append_eq inType afterType, dropWhile_append_eq inType afterType,
    dropWhile_append_eq gapSpace afterGap, takeWhile_append_eq inFunc afterFunc,
    dropWhile_append_eq inFunc afterFunc, type_ne_nil, func_ne_nil, or_self, if_false]

/-! ## Times -/

/-- A line and its time in milliseconds. -/
abbrev KernelEvent := ℚ × KernelLine

/-- The lines that have a time. -/
def stamped (lines : List KernelLine) : List KernelEvent :=
  lines.filterMap fun line => line.seconds.map fun seconds => (seconds * 1000, line)

/-- If the first time that is not zero is late, times are counted from there, and the line is
skipped. -/
def rebase : List KernelEvent → List KernelEvent
  | [] => []
  | (time, line) :: events =>
      if time = 0 then (time, line) :: rebase events
      else if time > 1000 then events.map fun (later, line) => (later - time, line)
      else (time, line) :: events

/-- A number is not negative. -/
theorem decimalValue_nonneg (whole fraction : Text) : 0 ≤ decimalValue whole fraction := by
  unfold decimalValue
  positivity

/-- No time that is matched is negative. -/
theorem timestampMatch_nonneg
    {text message : Text}
    {seconds : ℚ}
    (isMatch : timestampMatch text = some (seconds, message)) : 0 ≤ seconds := by
  unfold timestampMatch at isMatch
  simp only [Option.bind_eq_bind, Option.bind_eq_some_iff] at isMatch
  obtain ⟨_, -, _, -, _, -, _, -, _, -, made⟩ := isMatch
  split at made
  · obtain ⟨rfl, -⟩ := Prod.mk.inj (Option.some.inj made)
    exact decimalValue_nonneg _ _
  · contradiction

/-- No time is negative. -/
theorem KernelLine.seconds_nonneg
    {line : KernelLine}
    {seconds : ℚ}
    (isTime : line.seconds = some seconds) : 0 ≤ seconds := by
  cases line with
  | calling stamp symbol rest =>
      obtain rfl := Option.some.inj isTime
      exact decimalValue_nonneg _ _
  | returned stamp symbol place rest =>
      obtain rfl := Option.some.inj isTime
      exact decimalValue_nonneg _ _
  | other text noCall noReturn =>
      obtain ⟨⟨found, message⟩, isMatch, rfl⟩ := Option.map_eq_some_iff.mp isTime
      exact timestampMatch_nonneg isMatch

/-- The time of a line is matched, and its message. -/
theorem timestampMatch_line (line : KernelLine) :
    timestampMatch line.text = line.seconds.map fun seconds => (seconds, line.message) := by
  cases line with
  | calling stamp symbol rest =>
      apply timestampMatch_text
      rintro c ⟨⟩
      decide
  | returned stamp symbol place rest =>
      apply timestampMatch_text
      rintro c ⟨⟩
      decide
  | other text noCall noReturn =>
      change timestampMatch text = ((timestampMatch text).map Prod.fst).map fun seconds =>
        (seconds, (timestampMatch text).elim [] Prod.snd)
      cases timestampMatch text <;> rfl

namespace DmesgState

variable {state : DmesgState}

/-- The state without what is kept to tell the times. -/
def timeless (state : DmesgState) : DmesgState :=
  { state with
    baseTs := none
    maxTs := 0 }

/-- A message of a line. -/
def tell (state : DmesgState) (event : KernelEvent) : DmesgState :=
  state.message event.1 event.2.message

/-- Setting a duration does not depend on the times that are kept. -/
theorem timeless_setDuration (key : Text) (duration : Process → ℚ) :
    (state.setDuration key duration).timeless = state.timeless.setDuration key duration := by
  unfold setDuration timeless
  simp only
  cases state.processMap.get? key <;> rfl

/-- Neither does setting that of the kernel. -/
theorem timeless_setKernelDuration (duration : ℚ) :
    (state.setKernelDuration duration).timeless =
      state.timeless.setKernelDuration duration := by
  unfold setKernelDuration
  rw [apply_ite timeless, timeless_setDuration]
  rfl

/-- A message does not depend on the times that are kept. -/
theorem timeless_message (timeMs : ℚ) (text : Text) :
    (state.message timeMs text).timeless = state.timeless.message timeMs text := by
  unfold message
  cases splitMatch text with
  | none => rfl
  | some parts =>
      simp only [apply_ite timeless, timeless_setDuration, timeless_setKernelDuration]
      rfl

/-- Setting a duration does not change the times that are kept. -/
theorem times_setDuration (key : Text) (duration : Process → ℚ) :
    (state.setDuration key duration).baseTs = state.baseTs ∧
      (state.setDuration key duration).maxTs = state.maxTs := by
  unfold setDuration
  cases state.processMap.get? key <;> exact ⟨rfl, rfl⟩

/-- A message does not change the times that are kept. -/
theorem times_message (timeMs : ℚ) (text : Text) :
    (state.message timeMs text).baseTs = state.baseTs ∧
      (state.message timeMs text).maxTs = state.maxTs := by
  unfold message
  cases splitMatch text with
  | none => exact ⟨rfl, rfl⟩
  | some parts =>
      simp only
      split
      · unfold setKernelDuration
        split
        · exact times_setDuration _ _
        · exact ⟨rfl, rfl⟩
      · split
        · exact ⟨rfl, rfl⟩
        · split
          · exact times_setDuration _ _
          · exact ⟨rfl, rfl⟩

/-- A line with its time. -/
def read (state : DmesgState) (event : KernelEvent) : DmesgState :=
  if state.maxTs = 0 ∧ state.baseTs = none ∧ event.1 > 1000 then
    { state with baseTs := some event.1 }
  else
    { state with maxTs := max event.1 state.maxTs }.message
      (event.1 - state.baseTs.getD 0) event.2.message

/-- Lines without a time are skipped. -/
theorem foldl_line (state : DmesgState) (lines : List KernelLine) :
    (lines.map KernelLine.text).foldl line state = (stamped lines).foldl read state := by
  induction lines generalizing state with
  | nil => rfl
  | cons first lines inductionHypothesis =>
      rw [List.map_cons, List.foldl_cons, inductionHypothesis, line, timestampMatch_line, stamped,
        stamped, List.filterMap_cons]
      cases first.seconds <;> rfl

/-- Behind the first time that is not zero, all lines are told in the same way. -/
theorem foldl_read_of_settled
    (settled : state.baseTs ≠ none ∨ 0 < state.maxTs)
    (events : List KernelEvent) :
    (events.foldl read state).timeless =
      (events.map fun (time, line) => (time - state.baseTs.getD 0, line)).foldl tell
        state.timeless := by
  induction events generalizing state with
  | nil => rfl
  | cons event events inductionHypothesis =>
      have isRead : state.read event = { state with maxTs := max event.1 state.maxTs }.message
          (event.1 - state.baseTs.getD 0) event.2.message := by
        apply if_neg
        rintro ⟨isZero, noBase, -⟩
        rcases settled with based | positive
        · exact based noBase
        · exact positive.ne' isZero
      have times := @times_message { state with maxTs := max event.1 state.maxTs }
        (event.1 - state.baseTs.getD 0) event.2.message
      have stillSettled : (state.read event).baseTs ≠ none ∨ 0 < (state.read event).maxTs := by
        rw [isRead, times.1, times.2]
        exact settled.imp id fun positive => lt_max_of_lt_right positive
      rw [List.foldl_cons, inductionHypothesis stillSettled, isRead, times.1, timeless_message,
        List.map_cons, List.foldl_cons]
      rfl

/-- From the first line on, the lines are told with their rebased times. -/
theorem foldl_read
    (noTime : state.maxTs = 0)
    (noBase : state.baseTs = none)
    {events : List KernelEvent}
    (notNegative : ∀ event ∈ events, 0 ≤ event.1) :
    (events.foldl read state).timeless = (rebase events).foldl tell state.timeless := by
  induction events generalizing state with
  | nil => rfl
  | cons event events inductionHypothesis =>
      obtain ⟨time, line⟩ := event
      have positive : 0 ≤ time := notNegative _ (.head events)
      have told : ¬time > 1000 → state.read (time, line) =
          { state with maxTs := max time 0 }.message time line.message := by
        intro early
        rw [read, if_neg fun late => early late.2.2, noTime, noBase, Option.getD_none, sub_zero]
      rw [List.foldl_cons, rebase]
      split
      next isZero =>
        have isRead := told (by rw [isZero]; norm_num)
        have times := @times_message { state with maxTs := max time 0 } time line.message
        rw [inductionHypothesis (by rw [isRead, times.2, isZero, max_self])
          (by rw [isRead, times.1, noBase]) fun event member => notNegative event (.tail _ member),
          isRead, timeless_message]
        rfl
      next notZero =>
        split
        next late =>
          have isRead : state.read (time, line) = { state with baseTs := some time } :=
            if_pos ⟨noTime, noBase, late⟩
          rw [isRead, foldl_read_of_settled (.inl (by simp))]
          rfl
        next early =>
          have isRead := told early
          have times := @times_message { state with maxTs := max time 0 } time line.message
          have isPositive : 0 < (state.read (time, line)).maxTs := by
            rw [isRead, times.2]
            exact lt_max_of_lt_left (positive.lt_of_ne' notZero)
          rw [foldl_read_of_settled (.inr isPositive), isRead, times.1, timeless_message, noBase]
          simp only [Option.getD_none, sub_zero, Prod.mk.eta, List.map_id']
          rfl

end DmesgState

/-! ## Calls -/

/-- How many calls there are. -/
def numCalls (events : List KernelEvent) : Nat :=
  events.countP fun event => event.2.called.isSome

/-- The process of a call. -/
def callProcess (number : Nat) (time : ℚ) (symbol rest : Text) (duration : ℚ) : Process :=
  { Process.new (DmesgState.callParent rest + number * (1 / 1000000))
      (symbol.takeWhile (· ≠ '+')) (DmesgState.callParent rest) (time / 10) with
    duration := duration }

/-- How long a call takes: until the last return of its function. -/
def callDuration (symbol : Text) (time : ℚ) (events : List KernelEvent) : ℚ :=
  match (events.filter fun event => event.2.returns = some symbol).getLast? with
  | some (last, _) => last / 10 - time / 10
  | none => 0

/-- A process stands for the latest call of a function. -/
def IsLatestCall (events : List KernelEvent) (symbol : Text) (process : Process) : Prop :=
  ∃ before time line after rest, events = before ++ (time, line) :: after ∧
    line.called = some (symbol, rest) ∧
    (∀ event ∈ after, ∀ rest, event.2.called ≠ some (symbol, rest)) ∧
    process = callProcess (numCalls before + 1) time symbol rest
      (callDuration symbol time after)

/-- The processes of a kernel log: the kernel, and the latest call of each function. -/
structure TellsCalls (events : List KernelEvent) (table : Dict Text Process) : Prop where
  /-- The kernel. -/
  kernel : ∃ kernel, table.get? kBoot = some kernel ∧ kernel.cmd = kBoot ∧ 0 ≤ kernel.duration
  /-- The calls. -/
  calls : ∀ symbol ≠ kBoot, ∀ process,
    table.get? symbol = some process ↔ IsLatestCall events symbol process

section

variable {events : List KernelEvent} {event : KernelEvent} {symbol : Text} {process : Process}

/-- A return sets the duration, other lines leave it. -/
theorem callDuration_snoc (symbol : Text) (time : ℚ) (events : List KernelEvent)
    (event : KernelEvent) :
    callDuration symbol time (events ++ [event]) =
      if event.2.returns = some symbol then event.1 / 10 - time / 10
      else callDuration symbol time events := by
  unfold callDuration
  by_cases isReturn : event.2.returns = some symbol
  · rw [if_pos isReturn, List.filter_append, List.filter_cons_of_pos (by simpa using isReturn),
      List.filter_nil, List.getLast?_concat]
  · rw [if_neg isReturn, List.filter_append, List.filter_cons_of_neg (by simpa using isReturn),
      List.filter_nil, List.append_nil]

/-- The latest call of a function behind one more line. -/
theorem isLatestCall_snoc :
    IsLatestCall (events ++ [event]) symbol process ↔
      (∃ rest, event.2.called = some (symbol, rest) ∧
        process = callProcess (numCalls events + 1) event.1 symbol rest 0) ∨
      ((∀ rest, event.2.called ≠ some (symbol, rest)) ∧
        ∃ former, IsLatestCall events symbol former ∧
          process = if event.2.returns = some symbol then
            { former with duration := event.1 / 10 - former.startTime } else former) := by
  constructor
  · rintro ⟨before, time, line, after, rest, parts, isCall, noCall, rfl⟩
    rcases List.eq_nil_or_concat after with rfl | ⟨after, last, rfl⟩
    · obtain ⟨rfl, rfl⟩ := List.append_singleton_inj.mp parts
      exact .inl ⟨rest, isCall, rfl⟩
    · rw [List.concat_eq_append, ← List.cons_append, ← List.append_assoc] at parts
      obtain ⟨rfl, rfl⟩ := List.append_singleton_inj.mp parts
      refine .inr ⟨noCall event (by simp), _, ⟨before, time, line, after, rest, rfl, isCall,
        fun other member => noCall other (by simp [member]), rfl⟩, ?_⟩
      rw [List.concat_eq_append, callDuration_snoc]
      split <;> rfl
  · rintro (⟨rest, isCall, rfl⟩ | ⟨noCall, former, latest, rfl⟩)
    · exact ⟨events, event.1, event.2, [], rest, rfl, isCall, by simp, rfl⟩
    · obtain ⟨before, time, line, after, rest, rfl, isCall, noLater, rfl⟩ := latest
      refine ⟨before, time, line, after ++ [event], rest, by simp, isCall, ?_, ?_⟩
      · intro other member
        rcases List.mem_append.mp member with isLater | isLast
        · exact noLater other isLater
        · obtain rfl := List.mem_singleton.mp isLast
          exact noCall
      · rw [callDuration_snoc]
        split <;> rfl

/-- A call is the latest one of its function. -/
theorem isLatestCall_snoc_of_called
    {rest : Text}
    (isCall : event.2.called = some (symbol, rest)) :
    IsLatestCall (events ++ [event]) symbol process ↔
      process = callProcess (numCalls events + 1) event.1 symbol rest 0 := by
  rw [isLatestCall_snoc]
  constructor
  · rintro (⟨rest', isCall', isProcess⟩ | ⟨noCall, -⟩)
    · obtain ⟨-, rfl⟩ := Prod.mk.inj (Option.some.inj (isCall.symm.trans isCall'))
      exact isProcess
    · exact absurd isCall (noCall rest)
  · exact fun isProcess => .inl ⟨rest, isCall, isProcess⟩

/-- A return of a function sets the duration of its latest call. -/
theorem isLatestCall_snoc_of_returns
    (noCall : ∀ rest, event.2.called ≠ some (symbol, rest))
    (isReturn : event.2.returns = some symbol) :
    IsLatestCall (events ++ [event]) symbol process ↔
      ∃ former, IsLatestCall events symbol former ∧
        { former with duration := event.1 / 10 - former.startTime } = process := by
  simp only [isLatestCall_snoc, if_pos isReturn]
  constructor
  · rintro (⟨rest, isCall, -⟩ | ⟨-, former, latest, rfl⟩)
    · exact absurd isCall (noCall rest)
    · exact ⟨former, latest, rfl⟩
  · rintro ⟨former, latest, rfl⟩
    exact .inr ⟨noCall, former, latest, rfl⟩

/-- Other lines leave the latest call of a function. -/
theorem isLatestCall_snoc_of_other
    (noCall : ∀ rest, event.2.called ≠ some (symbol, rest))
    (noReturn : event.2.returns ≠ some symbol) :
    IsLatestCall (events ++ [event]) symbol process ↔ IsLatestCall events symbol process := by
  simp only [isLatestCall_snoc, if_neg noReturn]
  constructor
  · rintro (⟨rest, isCall, -⟩ | ⟨-, former, latest, rfl⟩)
    · exact absurd isCall (noCall rest)
    · exact latest
  · exact fun latest => .inr ⟨noCall, process, latest, rfl⟩

end

namespace DmesgState

variable {state : DmesgState}

/-- A call is told. -/
theorem tell_calling (time : ℚ) (stamp : Stamp) (symbol : Symbol) (rest : Text) :
    state.tell (time, .calling stamp symbol rest) = state.call symbol.val rest time := by
  have isSplit : splitMatch (KernelLine.calling stamp symbol rest).message =
      some ("calling".toList, symbol.val, rest) :=
    @splitMatch_words "calling".toList "  ".toList symbol.val (by simp)
      (List.ne_nil_of_mem symbol.property.1) (by simp) (isSpace_of_all rfl)
      (List.all_eq_true.mp rfl) symbol.property.2 rest
  have noKernel : ¬("Write protecting the".toList.isPrefixOf
        (KernelLine.calling stamp symbol rest).message ∨
      "Freeing unused kernel memory".toList.isPrefixOf
        (KernelLine.calling stamp symbol rest).message) := by
    rintro (isKernel | isKernel) <;> exact Bool.false_ne_true isKernel
  rw [tell, message]
  simp only [isSplit, if_neg noKernel, if_true]

/-- A return is told. -/
theorem tell_returned (time : ℚ) (stamp : Stamp) (symbol : Symbol) (place rest : Text) :
    state.tell (time, .returned stamp symbol place rest) =
      state.setDuration symbol.val fun process => time / 10 - process.startTime := by
  have isSplit : splitMatch (KernelLine.returned stamp symbol place rest).message =
      some ("initcall".toList, symbol.val, place ++ ("returned ".toList ++ rest)) :=
    @splitMatch_words "initcall".toList " ".toList symbol.val (by simp)
      (List.ne_nil_of_mem symbol.property.1) (by simp) (isSpace_of_all rfl)
      (List.all_eq_true.mp rfl) symbol.property.2 _
  have noKernel : ¬("Write protecting the".toList.isPrefixOf
        (KernelLine.returned stamp symbol place rest).message ∨
      "Freeing unused kernel memory".toList.isPrefixOf
        (KernelLine.returned stamp symbol place rest).message) := by
    rintro (isKernel | isKernel) <;> exact Bool.false_ne_true isKernel
  have noCall : "initcall".toList ≠ "calling".toList := by decide
  rw [tell, message]
  simp only [isSplit, if_neg noKernel, if_neg noCall, if_true]

/-- Other lines set the duration of the kernel, if any. -/
theorem tell_other
    {text : Text}
    (noCall : ∀ func rest, parsedMessage text ≠ some ("calling".toList, func, rest))
    (noReturn : ∀ func rest, parsedMessage text ≠ some ("initcall".toList, func, rest))
    (time : ℚ) :
    state.tell (time, .other text noCall noReturn) = state ∨
      state.tell (time, .other text noCall noReturn) = state.setKernelDuration (time / 10) := by
  have isMessage : (KernelLine.other text noCall noReturn).message =
      (timestampMatch text).elim [] Prod.snd := rfl
  rw [tell, isMessage, message]
  cases isFound : timestampMatch text with
  | none => exact .inl rfl
  | some found =>
      have isParsed : parsedMessage text = splitMatch found.2 := by
        rw [parsedMessage, isFound]
        rfl
      simp only [Option.elim_some]
      cases isSplit : splitMatch found.2 with
      | none => exact .inl rfl
      | some parts =>
          obtain ⟨type, func, rest⟩ := parts
          have notCall : type ≠ "calling".toList := by
            rintro rfl
            exact noCall func rest (isParsed.trans isSplit)
          have notReturn : type ≠ "initcall".toList := by
            rintro rfl
            exact noReturn func rest (isParsed.trans isSplit)
          simp only [if_neg notCall, if_neg notReturn]
          split
          · exact .inr rfl
          · exact .inl rfl

/-- What is known when some lines are told. -/
structure Tells (events : List KernelEvent) (state : DmesgState) : Prop where
  /-- The kernel keeps its place. -/
  kernelListed : state.kernelListed = true
  /-- The calls are counted. -/
  idx : state.idx = numCalls events * (1 / 1000000)
  /-- The processes. -/
  table : TellsCalls events state.processMap

/-- A symbol is not the name of the kernel. -/
theorem symbol_ne_kBoot (symbol : Symbol) : symbol.val ≠ kBoot := by
  intro same
  have member := symbol.property.1
  rw [same] at member
  exact absurd member (by decide)

/-- What is known before the first line. -/
theorem tells_init : Tells [] init.timeless := by
  refine ⟨rfl, by simp [numCalls, timeless, init], ⟨_, rfl, rfl, le_refl _⟩, ?_⟩
  intro symbol other process
  have absent : init.timeless.processMap.get? symbol = none :=
    (Library.Dict.get?_set_of_ne other Dict.empty _).trans (Library.Dict.get?_empty symbol)
  rw [absent]
  simp [IsLatestCall]

/-- The processes when a duration is set. -/
theorem get?_setDuration (key : Text) (duration : Process → ℚ) (other : Text) :
    (state.setDuration key duration).processMap.get? other =
      if other = key then (state.processMap.get? key).map fun process =>
        { process with duration := duration process }
      else state.processMap.get? other := by
  unfold setDuration
  cases isProcess : state.processMap.get? key with
  | none =>
      by_cases same : other = key
      · rw [if_pos same, same]
        exact isProcess
      · rw [if_neg same]
  | some process => exact Library.Dict.get?_set _ _ _ _

/-- Setting a duration changes nothing but processes. -/
theorem idx_setDuration (key : Text) (duration : Process → ℚ) :
    (state.setDuration key duration).idx = state.idx ∧
      (state.setDuration key duration).kernelListed = state.kernelListed := by
  unfold setDuration
  cases state.processMap.get? key <;> exact ⟨rfl, rfl⟩

variable {events : List KernelEvent} {event : KernelEvent}

/-- A line that is no call leaves the number of calls. -/
theorem numCalls_snoc (events : List KernelEvent) (event : KernelEvent) :
    numCalls (events ++ [event]) =
      numCalls events + if event.2.called.isSome then 1 else 0 := by
  rw [numCalls, List.countP_append, List.countP_singleton]
  rfl

/-- A call is known. -/
theorem Tells.call
    (tells : Tells events state)
    (time : ℚ)
    (stamp : Stamp)
    (symbol : Symbol)
    (rest : Text) :
    Tells (events ++ [(time, .calling stamp symbol rest)])
      (state.call symbol.val rest time) := by
  have notKernel := symbol_ne_kBoot symbol
  have number : state.idx + 1 / 1000000 =
      ((numCalls events + 1 : Nat) : ℚ) * (1 / 1000000) := by
    rw [tells.idx]
    push_cast
    ring
  refine ⟨?_, ?_, ?_, ?_⟩
  · simp [DmesgState.call, tells.kernelListed, notKernel]
  · rw [numCalls_snoc]
    exact number
  · obtain ⟨kernel, isKernel, named, positive⟩ := tells.table.kernel
    exact ⟨kernel, (Library.Dict.get?_set_of_ne notKernel.symm _ _).trans isKernel, named, positive⟩
  · intro other isSymbol process
    rw [DmesgState.call, Library.Dict.get?_set, number]
    by_cases same : other = symbol.val
    · have isCall : (KernelLine.calling stamp symbol rest).called = some (other, rest) := by
        rw [same]
        rfl
      rw [if_pos same, isLatestCall_snoc_of_called isCall, same, Option.some.injEq]
      exact eq_comm
    · have noCall : ∀ rest', (KernelLine.calling stamp symbol rest).called ≠
          some (other, rest') := fun rest' isCall =>
        same (Prod.mk.inj (Option.some.inj isCall)).1.symm
      rw [if_neg same, tells.table.calls other isSymbol,
        isLatestCall_snoc_of_other noCall (by simp [KernelLine.returns])]

/-- A duration that is not that of the kernel is known. -/
theorem Tells.returned
    (tells : Tells events state)
    (time : ℚ)
    (stamp : Stamp)
    (symbol : Symbol)
    (place rest : Text) :
    Tells (events ++ [(time, .returned stamp symbol place rest)])
      (state.setDuration symbol.val fun process => time / 10 - process.startTime) := by
  have unchanged := @idx_setDuration state symbol.val fun process =>
    time / 10 - process.startTime
  refine ⟨unchanged.2.trans tells.kernelListed, ?_, ?_, ?_⟩
  · rw [numCalls_snoc, unchanged.1]
    exact tells.idx
  · rw [get?_setDuration, if_neg (symbol_ne_kBoot symbol).symm]
    exact tells.table.kernel
  · intro other isSymbol process
    have noCall : ∀ rest', (KernelLine.returned stamp symbol place rest).called ≠
        some (other, rest') := by
      simp [KernelLine.called]
    rw [get?_setDuration]
    by_cases same : other = symbol.val
    · have isReturn : (KernelLine.returned stamp symbol place rest).returns = some other := by
        rw [same]
        rfl
      rw [if_pos same, isLatestCall_snoc_of_returns noCall isReturn, Option.map_eq_some_iff]
      simp only [← same, tells.table.calls other isSymbol]
    · rw [if_neg same, tells.table.calls other isSymbol, isLatestCall_snoc_of_other noCall]
      exact fun isReturn => same (Option.some.inj isReturn).symm

/-- The duration of the kernel is known. -/
theorem Tells.kernel
    (tells : Tells events state)
    {duration : ℚ}
    (notNegative : 0 ≤ duration) : Tells events (state.setKernelDuration duration) := by
  have unchanged := @idx_setDuration state kBoot fun _ => duration
  rw [setKernelDuration, if_pos tells.kernelListed]
  refine ⟨unchanged.2.trans tells.kernelListed, unchanged.1.trans tells.idx, ?_, ?_⟩
  · obtain ⟨kernel, isKernel, named, -⟩ := tells.table.kernel
    rw [get?_setDuration, if_pos rfl, isKernel]
    exact ⟨_, rfl, named, notNegative⟩
  · intro other isSymbol process
    rw [get?_setDuration, if_neg isSymbol]
    exact tells.table.calls other isSymbol process

/-- A line that is neither call nor return is skipped. -/
theorem Tells.skip
    (tells : Tells events state)
    (noCall : event.2.called = none)
    (noReturn : event.2.returns = none) : Tells (events ++ [event]) state := by
  refine ⟨tells.kernelListed, ?_, tells.table.kernel, ?_⟩
  · rw [numCalls_snoc, noCall]
    exact tells.idx
  · intro other isSymbol process
    rw [tells.table.calls other isSymbol, isLatestCall_snoc_of_other (by simp [noCall])
      (by simp [noReturn])]

/-- What is known when one more line is told. -/
theorem Tells.snoc
    (tells : Tells events state)
    (notNegative : 0 ≤ event.1) : Tells (events ++ [event]) (state.tell event) := by
  obtain ⟨time, line⟩ := event
  cases line with
  | calling stamp symbol rest =>
      rw [tell_calling]
      exact tells.call time stamp symbol rest
  | returned stamp symbol place rest =>
      rw [tell_returned]
      exact tells.returned time stamp symbol place rest
  | other text noCall noReturn =>
      have skipped : Tells (events ++ [(time, .other text noCall noReturn)]) state :=
        tells.skip rfl rfl
      rcases @tell_other state text noCall noReturn time with same | kernel
      · rw [same]
        exact skipped
      · rw [kernel]
        exact skipped.kernel (div_nonneg notNegative (by norm_num))

/-- What is known when all lines are told. -/
theorem tells_foldl
    {events : List KernelEvent}
    (notNegative : ∀ event ∈ events, 0 ≤ event.1) :
    Tells events (events.foldl tell init.timeless) := by
  induction events using List.reverseRecOn with
  | nil => exact tells_init
  | append_singleton events event inductionHypothesis =>
      rw [List.foldl_append]
      have told := inductionHypothesis fun other member =>
        notNegative other (List.mem_append_left _ member)
      exact told.snoc (notNegative event (by simp))

end DmesgState

/-! ## Durations -/

/-- No time is negative, and none comes before an earlier one. -/
structure Forward (events : List KernelEvent) : Prop where
  /-- Times are not negative. -/
  notNegative : ∀ event ∈ events, 0 ≤ event.1
  /-- Times are sorted. -/
  sorted : events.Pairwise fun first second => first.1 ≤ second.1

/-- The times of a log go forward. -/
theorem forward_stamped
    {lines : List KernelLine}
    (ordered : (lines.filterMap KernelLine.seconds).Pairwise (· ≤ ·)) :
    Forward (stamped lines) := by
  constructor
  case notNegative =>
    intro event member
    obtain ⟨line, -, isStamped⟩ := List.mem_filterMap.mp member
    obtain ⟨seconds, isTime, rfl⟩ := Option.map_eq_some_iff.mp isStamped
    exact mul_nonneg (KernelLine.seconds_nonneg isTime) (by norm_num)
  case sorted =>
    rw [stamped, List.pairwise_filterMap]
    rw [List.pairwise_filterMap] at ordered
    refine ordered.imp fun {first second} inOrder event isFirst event' isSecond => ?_
    obtain ⟨seconds, isTime, rfl⟩ := Option.map_eq_some_iff.mp isFirst
    obtain ⟨seconds', isTime', rfl⟩ := Option.map_eq_some_iff.mp isSecond
    exact mul_le_mul_of_nonneg_right (inOrder seconds isTime seconds' isTime') (by norm_num)

/-- Rebased times go forward. -/
theorem Forward.rebase
    {events : List KernelEvent}
    (forward : Forward events) : Forward (rebase events) := by
  induction events with
  | nil => exact forward
  | cons event events inductionHypothesis =>
      obtain ⟨time, line⟩ := event
      obtain ⟨first, sorted⟩ := List.pairwise_cons.mp forward.sorted
      have rest := inductionHypothesis
        ⟨fun event member => forward.notNegative event (.tail _ member), sorted⟩
      rw [Parsing.rebase]
      split
      next isZero =>
        constructor
        case notNegative =>
          exact List.forall_mem_cons.mpr ⟨isZero.ge, rest.notNegative⟩
        case sorted =>
          exact List.pairwise_cons.mpr ⟨fun event member =>
            isZero.le.trans (rest.notNegative event member), rest.sorted⟩
      next =>
        split
        next =>
          constructor
          case notNegative =>
            intro event member
            obtain ⟨other, isOther, rfl⟩ := List.mem_map.mp member
            exact sub_nonneg.mpr (first other isOther)
          case sorted =>
            exact List.pairwise_map.mpr (sorted.imp fun inOrder =>
              sub_le_sub_right inOrder time)
        next => exact forward

/-- The duration of a call is not negative. -/
theorem duration_nonneg
    {events : List KernelEvent}
    {symbol : Text}
    {process : Process}
    (sorted : events.Pairwise fun first second => first.1 ≤ second.1)
    (latest : IsLatestCall events symbol process) : 0 ≤ process.duration := by
  obtain ⟨before, time, line, after, rest, rfl, -, -, rfl⟩ := latest
  have later := (List.pairwise_cons.mp (List.pairwise_append.mp sorted).2.1).1
  change 0 ≤ callDuration symbol time after
  unfold callDuration
  split
  next last _ isLast =>
    have member := List.mem_of_getLast? isLast
    have inOrder := later _ (List.mem_of_mem_filter member)
    exact sub_nonneg.mpr (div_le_div_of_nonneg_right inOrder (by norm_num))
  next => exact le_refl _

/-- A kernel log tells, besides the kernel, the latest call of each function, with a duration
that is not negative. -/
theorem exists_tellsCalls
    {file : Bytes}
    {lines : List KernelLine}
    (isText : (Library.Utf8.decodeReplace file).splitOn '\n' = lines.map KernelLine.text)
    (ordered : (lines.filterMap KernelLine.seconds).Pairwise (· ≤ ·)) :
    ∃ table, parseDmesg file = table.values ∧ TellsCalls (rebase (stamped lines)) table ∧
      ∀ process ∈ table.values, 0 ≤ process.duration := by
  have forward := forward_stamped ordered
  have tells := DmesgState.tells_foldl forward.rebase.notNegative
  rw [← DmesgState.foldl_read rfl rfl forward.notNegative, ← DmesgState.foldl_line,
    ← isText] at tells
  refine ⟨_, rfl, tells.table, fun process member => ?_⟩
  obtain ⟨⟨key, value⟩, isEntry, rfl⟩ := List.mem_map.mp member
  have isProcess := Dict.mem_entries.mp isEntry
  by_cases isKernel : key = kBoot
  · obtain ⟨kernel, found, -, positive⟩ := tells.table.kernel
    rw [isKernel] at isProcess
    obtain rfl := Option.some.inj (found.symm.trans isProcess)
    exact positive
  · exact duration_nonneg forward.rebase.sorted
      ((tells.table.calls key isKernel value).mp isProcess)

/-- A time of tenths of a second. -/
def Stamp.tenths (whole tenth : Nat) : Stamp where
  padding := 4
  whole := Nat.toDigits 10 whole
  fraction := Nat.toDigits 10 tenth
  whole_ne_nil := List.length_pos_iff.mp Nat.length_toDigits_pos
  fraction_ne_nil := List.length_pos_iff.mp Nat.length_toDigits_pos
  whole_digits := fun _ => Nat.isDigit_of_mem_toDigits (by decide) (by decide)
  fraction_digits := fun _ => Nat.isDigit_of_mem_toDigits (by decide) (by decide)

/-- A function. -/
def migrationInit : Symbol :=
  ⟨"migration_init+0x0/0x6b".toList, by decide, isSpace_of_all rfl⟩

/-- The file of some lines. -/
def kernelLog (lines : List KernelLine) : Bytes :=
  Library.Utf8.encode (['\n'].intercalate (lines.map KernelLine.text))

/-- A call and its return. -/
def calledOnce : List KernelLine :=
  [.calling (.tenths 0 1) migrationInit "@ 1".toList,
    .returned (.tenths 0 3) migrationInit [] "1 after 0 usecs".toList]

/-- The process of a call. -/
theorem exists_tellsCalls_calledOnce :
    ∃ table, parseDmesg (kernelLog calledOnce) = table.values ∧
      TellsCalls (rebase (stamped calledOnce)) table ∧
      ∀ process ∈ table.values, 0 ≤ process.duration :=
  exists_tellsCalls (by decide +kernel) (by decide +kernel)

/-- Two calls of a function. -/
def calledTwice : List KernelLine :=
  [.calling (.tenths 0 1) migrationInit "@ 1".toList,
    .calling (.tenths 0 2) migrationInit "@ 1".toList,
    .returned (.tenths 0 3) migrationInit [] "1 after 0 usecs".toList,
    .returned (.tenths 0 4) migrationInit [] "1 after 0 usecs".toList]

/-- A call when the clock has been set. -/
def calledLate : List KernelLine :=
  [.calling (.tenths 2 1) migrationInit "@ 1".toList]

/-- Two calls of a function have one process, and the second return sets the duration that the
first return has set. A late first call has no process. -/
theorem not_processPerCall :
    ((Library.Utf8.decodeReplace (kernelLog calledTwice)).splitOn '\n' =
        calledTwice.map KernelLine.text ∧
      (calledTwice.filterMap KernelLine.seconds).Pairwise (· ≤ ·) ∧
      (parseDmesg (kernelLog calledTwice)).length ≠ numCalls (stamped calledTwice) + 1 ∧
      (parseDmesg (kernelLog calledTwice)).map (fun process =>
        (process.startTime, process.duration)) = [(1 / 10, 0), (20, 20)]) ∧
    ((Library.Utf8.decodeReplace (kernelLog calledLate)).splitOn '\n' =
        calledLate.map KernelLine.text ∧
      (calledLate.filterMap KernelLine.seconds).Pairwise (· ≤ ·) ∧
      (parseDmesg (kernelLog calledLate)).length ≠ numCalls (stamped calledLate) + 1) := by
  decide +kernel

end Parsing
end Bootchart
