import Bootchart.Library.Text
import Mathlib.Algebra.Group.Int.Defs
import Mathlib.Algebra.Group.Nat.Defs
import Mathlib.Data.List.Basic

/-!
# Command line arguments

`arguments_parse` goes over the words once. An option with a parameter is looked at twice: it takes
the word behind it, and like that word later it is an argument of its own.
-/

namespace Bootchart
namespace Collector

open Library (Text)

/-! ## Numbers -/

/-- `isspace`. -/
def isCSpace (c : Char) : Bool :=
  c = ' ' || (9 ≤ c.toNat && c.toNat ≤ 13)

/-- The value of a digit of any base up to sixteen. -/
def hexDigit (c : Char) : Option Nat :=
  if c.isDigit then some (c.toNat - '0'.toNat)
  else if 'a' ≤ c ∧ c ≤ 'f' then some (c.toNat - 'a'.toNat + 10)
  else if 'A' ≤ c ∧ c ≤ 'F' then some (c.toNat - 'A'.toNat + 10)
  else none

/-- The value of the digits that a text begins with, behind others. -/
def digitsFrom (base value : Nat) : Text → Nat
  | [] => value
  | c :: rest =>
      match hexDigit c with
      | some digit => if digit < base then digitsFrom base (base * value + digit) rest else value
      | none => value

/-- The value of the number that a text begins with. The base is in its first characters. -/
def magnitude (text : Text) : Nat :=
  match text with
  | '0' :: x :: c :: rest =>
      if (x = 'x' ∨ x = 'X') ∧ (hexDigit c).isSome then digitsFrom 16 0 (c :: rest)
      else digitsFrom 8 0 text
  | '0' :: _ => digitsFrom 8 0 text
  | _ => digitsFrom 10 0 text

/-- `strtoul (text, NULL, 0)`. -/
def strtoul (text : Text) : BitVec 64 :=
  let number := text.dropWhile isCSpace
  let negative := number.head? = some '-'
  let value := magnitude (if negative ∨ number.head? = some '+' then number.tail else number)
  if value ≥ 2 ^ 64 then BitVec.allOnes 64
  else if negative then -BitVec.ofNat 64 value
  else BitVec.ofNat 64 value

/-- A number in the type of `usleep_time`. -/
def readLong (text : Text) : Int :=
  (strtoul text).toInt

/-- A number in the type of `hz`. -/
def readHz (text : Text) : Int :=
  ((strtoul text).setWidth 32).toInt

/-- The digits of a number. -/
def numeral (number : Nat) : Text :=
  Nat.toDigits 10 number

/-- A numeral consists of digits. -/
theorem isDigit_of_mem_numeral {number : Nat} {c : Char} (member : c ∈ numeral number) :
    c.isDigit = true :=
  Nat.isDigit_of_mem_toDigits (by decide) (by decide) member

/-- A numeral begins with a digit. -/
theorem numeral_cons (number : Nat) :
    ∃ c rest, numeral number = c :: rest ∧ c.isDigit = true := by
  obtain ⟨c, rest, isNumeral⟩ := List.exists_cons_of_ne_nil (Nat.toDigits_ne_nil
    (b := 10) (n := number))
  have member : c ∈ numeral number := by
    rw [numeral, isNumeral]
    exact List.mem_cons_self
  exact ⟨c, rest, isNumeral, isDigit_of_mem_numeral member⟩

/-- The numeral of a number that is not zero begins with another digit than zero. -/
theorem head?_numeral {number : Nat} (positive : 0 < number) :
    (numeral number).head? ≠ some '0' := by
  induction number using Nat.strong_induction_on with
  | _ number inductionHypothesis =>
      rw [numeral, Nat.toDigits_eq_if (by decide)]
      split
      next small =>
        have nonzero : ∀ digit < 10, 0 < digit → [digit.digitChar].head? ≠ some '0' := by decide
        exact nonzero number small positive
      next large =>
        rw [List.head?_append_of_ne_nil _ Nat.toDigits_ne_nil]
        exact inductionHypothesis (number / 10) (by omega) (by omega)

/-- Digits of base ten are read up to their end. -/
theorem digitsFrom_ten {digits : Text} (plain : ∀ c ∈ digits, c.isDigit = true) (value : Nat) :
    digitsFrom 10 value digits = Nat.ofDigitChars 10 digits value := by
  induction digits generalizing value with
  | nil => rw [digitsFrom, Nat.ofDigitChars_nil]
  | cons c digits inductionHypothesis =>
      rw [List.forall_mem_cons] at plain
      have code := Library.Text.toNat_of_isDigit plain.1
      have isDigit : hexDigit c = some (c.toNat - '0'.toNat) := by rw [hexDigit, if_pos plain.1]
      have small : c.toNat - '0'.toNat < 10 := by
        change c.toNat - 48 < 10
        omega
      rw [digitsFrom, isDigit]
      dsimp only
      rw [if_pos small, inductionHypothesis plain.2, Nat.ofDigitChars_cons]

/-- A numeral has the value of its number. -/
theorem magnitude_numeral (number : Nat) : magnitude (numeral number) = number := by
  rcases Nat.eq_zero_or_pos number with rfl | positive
  · rfl
  · have notZero := head?_numeral positive
    have value : digitsFrom 10 0 (numeral number) = number := by
      rw [digitsFrom_ten fun c member => isDigit_of_mem_numeral member]
      exact Nat.ofDigitChars_ten_toDigits
    unfold magnitude
    split
    next isNumeral => exact absurd (congrArg List.head? isNumeral) notZero
    next isNumeral => exact absurd (congrArg List.head? isNumeral) notZero
    next => exact value

/-- `strtoul` of a numeral, which is cut off at the largest number. -/
theorem strtoul_numeral (number : Nat) :
    strtoul (numeral number) =
      if number ≥ 2 ^ 64 then BitVec.allOnes 64 else BitVec.ofNat 64 number := by
  obtain ⟨c, rest, isNumeral, isDigit⟩ := numeral_cons number
  have code := Library.Text.toNat_of_isDigit isDigit
  have notSpace : isCSpace c = false := by
    have notBlank : c ≠ ' ' := by
      rintro rfl
      exact absurd isDigit (by decide)
    simp [isCSpace, notBlank]
    omega
  have kept : (numeral number).dropWhile isCSpace = numeral number := by
    rw [isNumeral, List.dropWhile_cons_of_neg (by simp [notSpace])]
  have notSign : ∀ sign, sign.isDigit = false → (numeral number).head? ≠ some sign := by
    intro sign isSign same
    rw [isNumeral, List.head?_cons, Option.some_inj] at same
    rw [same, isSign] at isDigit
    exact absurd isDigit (by decide)
  rw [strtoul, kept, if_neg (not_or.mpr ⟨notSign '-' (by decide), notSign '+' (by decide)⟩),
    magnitude_numeral, if_neg (notSign '-' (by decide))]

/-- A numeral is a `long` if it is small enough, and no other number is read. -/
theorem readLong_numeral (number : Nat) :
    readLong (numeral number) = number ↔ number < 2 ^ 63 := by
  rw [readLong]
  constructor
  · intro same
    have bound := (strtoul (numeral number)).toInt_lt
    omega
  · intro small
    have isNumber : (BitVec.ofNat 64 number).toNat = number := by
      rw [BitVec.toNat_ofNat, Nat.mod_eq_of_lt (by omega)]
    rw [strtoul_numeral, if_neg (by omega), BitVec.toInt_eq_toNat_of_lt (by omega), isNumber]

/-- A numeral is an `int` if it is small enough, and no other number is read. -/
theorem readHz_numeral (number : Nat) :
    readHz (numeral number) = number ↔ number < 2 ^ 31 := by
  rw [readHz]
  constructor
  · intro same
    have bound := ((strtoul (numeral number)).setWidth 32).toInt_lt
    omega
  · intro small
    have isNumber : (BitVec.ofNat 32 number).toNat = number := by
      rw [BitVec.toNat_ofNat, Nat.mod_eq_of_lt (by omega)]
    rw [strtoul_numeral, if_neg (by omega), BitVec.setWidth_ofNat_of_le (by decide),
      BitVec.toInt_eq_toNat_of_lt (by omega), isNumber]

/-- A numeral that is a `long` is zero as an `int` if its lower half is. -/
theorem readHz_numeral_eq_zero {number : Nat} (small : number < 2 ^ 63) :
    readHz (numeral number) = 0 ↔ number % 2 ^ 32 = 0 := by
  rw [readHz, strtoul_numeral, if_neg (by omega), BitVec.setWidth_ofNat_of_le (by decide),
    ← BitVec.toInt_zero, BitVec.toInt_inj, ← BitVec.toNat_inj, BitVec.toNat_ofNat]
  rfl

/-- No more than a `long` is read. -/
theorem readLong_lt (text : Text) : readLong text < 2 ^ 63 := by
  have bound := (strtoul text).toInt_lt
  rw [readLong]
  omega

/-- No more than an `int` is read. -/
theorem readHz_lt (text : Text) : readHz text < 2 ^ 31 := by
  have bound := ((strtoul text).setWidth 32).toInt_lt
  rw [readHz]
  omega

/-! ## Words -/

/-- The option `--usleep`. -/
def isUsleep (word : Text) : Bool :=
  word = "--usleep".toList

/-- The option `-d` or `--dump`. -/
def isDump (word : Text) : Bool :=
  word = "-d".toList || word = "--dump".toList

/-- The option `--probe-running`. -/
def isProbe (word : Text) : Bool :=
  word = "--probe-running".toList

/-- The option `-r`. -/
def isRelative (word : Text) : Bool :=
  word = "-r".toList

/-- The option `-c` or `--console`. -/
def isConsole (word : Text) : Bool :=
  word = "-c".toList || word = "--console".toList

/-- The option `-h` or `--help`. -/
def isHelp (word : Text) : Bool :=
  word = "-h".toList || word = "--help".toList

/-- The option `-t` or `--test`. -/
def isTest (word : Text) : Bool :=
  word = "-t".toList || word = "--test".toList

/-- The word is taken for the number of samples. -/
def isOperand (word : Text) : Bool :=
  !(isProbe word || isRelative word || isConsole word || isHelp word || isTest word)

/-! ## Parsing -/

/-- `Arguments`. -/
structure Arguments where
  /-- `console_debug`. -/
  consoleDebug : Bool
  /-- `probe_running`. -/
  probeRunning : Bool
  /-- `relative_time`. -/
  relativeTime : Bool
  /-- `dump_path`. -/
  dumpPath : Option Text
  /-- `usleep_time`. -/
  usleepTime : Int
  /-- `hz`. -/
  hz : Int
  deriving DecidableEq

/-- `arguments_set_defaults`. -/
def argumentsSetDefaults : Arguments where
  consoleDebug := false
  probeRunning := false
  relativeTime := false
  dumpPath := none
  usleepTime := 0
  hz := 0

/-- The first test of a word, for commands with an argument. -/
def commandArgument (args : Arguments) (word param : Text) : Arguments :=
  if isUsleep word then { args with usleepTime := readLong param }
  else if isDump word then { args with dumpPath := some param }
  else args

/-- The second test of a word. Nothing is returned where `usage` is called, which exits; `test`
only prints. -/
def plainArgument (args : Arguments) (word : Text) : Option Arguments :=
  if isProbe word then some { args with probeRunning := true }
  else if isRelative word then some { args with relativeTime := true }
  else if isConsole word then some { args with consoleDebug := true }
  else if isHelp word then none
  else if isTest word then some args
  else if args.hz = 0 then some { args with hz := readHz word }
  else none

/-- `arguments_parse`, over the words behind the name of the program. -/
def argumentsParse (args : Arguments) : List Text → Option Arguments
  | [] => some args
  | word :: rest =>
      let args :=
        match rest.head? with
        | some param => commandArgument args word param
        | none => args
      (plainArgument args word).bind fun args => argumentsParse args rest

/-! ## What parsing does -/

/-- What an option of a kind leaves: what is read from the next word, if there is one. -/
def taken {α : Type} (isOption : Text → Bool) (read : Text → α) (value : α) (word : Text) :
    Option Text → α
  | some param => if isOption word then read param else value
  | none => value

/-- What is read from the parameter of the last option of a kind, if there is any. -/
def lastParam {α : Type} (isOption : Text → Bool) (read : Text → α) (value : α) :
    List Text → α
  | [] => value
  | word :: rest => lastParam isOption read (taken isOption read value word rest.head?) rest

/-- The number of samples behind some operands, unless one comes behind a number. -/
def hzAfter (hz : Int) : List Text → Option Int
  | [] => some hz
  | operand :: rest => if hz = 0 then hzAfter (readHz operand) rest else none

/-- A word is of one kind at most. -/
theorem plainArgument_eq (args : Arguments) (word : Text) :
    plainArgument args word =
      if isHelp word then none
      else (if isOperand word then if args.hz = 0 then some (readHz word) else none
        else some args.hz).map fun hz =>
          { args with
            consoleDebug := isConsole word || args.consoleDebug
            probeRunning := isProbe word || args.probeRunning
            relativeTime := isRelative word || args.relativeTime
            hz := hz } := by
  by_cases probe : isProbe word = true
  · obtain rfl := of_decide_eq_true probe
    rfl
  by_cases relative : isRelative word = true
  · obtain rfl := of_decide_eq_true relative
    rfl
  by_cases console : isConsole word = true
  · rw [isConsole, Bool.or_eq_true, decide_eq_true_eq, decide_eq_true_eq] at console
    rcases console with rfl | rfl
    · rfl
    · rfl
  by_cases help : isHelp word = true
  · rw [plainArgument, if_neg probe, if_neg relative, if_neg console, if_pos help, if_pos help]
  rw [Bool.not_eq_true] at probe relative console help
  by_cases test : isTest word = true
  · have notOperand : isOperand word = false := by simp [isOperand, test]
    simp [plainArgument, probe, relative, console, help, test, notOperand]
  · rw [Bool.not_eq_true] at test
    have operand : isOperand word = true := by
      simp [isOperand, probe, relative, console, help, test]
    by_cases unset : args.hz = 0
    · simp [plainArgument, probe, relative, console, help, test, operand, unset]
    · simp [plainArgument, probe, relative, console, help, test, operand, unset]

/-- What the first test of a word leaves. -/
theorem commandArgument_eq (args : Arguments) (word param : Text) :
    commandArgument args word param =
      { args with
        usleepTime := if isUsleep word then readLong param else args.usleepTime
        dumpPath := if isDump word then some param else args.dumpPath } := by
  rw [commandArgument]
  by_cases usleep : isUsleep word = true
  · obtain rfl := of_decide_eq_true usleep
    rfl
  · rw [if_neg usleep, if_neg usleep]
    split
    · rfl
    · rfl

/-- What the words do: each option in its own field. -/
theorem argumentsParse_eq (args : Arguments) (words : List Text) :
    argumentsParse args words =
      if words.any isHelp then none
      else (hzAfter args.hz (words.filter isOperand)).map fun hz =>
        { consoleDebug := words.any isConsole || args.consoleDebug
          probeRunning := words.any isProbe || args.probeRunning
          relativeTime := words.any isRelative || args.relativeTime
          dumpPath := lastParam isDump some args.dumpPath words
          usleepTime := lastParam isUsleep readLong args.usleepTime words
          hz := hz } := by
  induction words generalizing args with
  | nil => rfl
  | cons word rest inductionHypothesis =>
      have first : (match rest.head? with
          | some param => commandArgument args word param
          | none => args) =
            { args with
              usleepTime := taken isUsleep readLong args.usleepTime word rest.head?
              dumpPath := taken isDump some args.dumpPath word rest.head? } := by
        cases rest.head? with
        | none => rfl
        | some param => exact commandArgument_eq args word param
      rw [argumentsParse, first, plainArgument_eq, List.any_cons]
      by_cases help : isHelp word = true
      · rw [if_pos help, help, Bool.true_or, if_pos rfl, Option.bind_none]
      rw [if_neg help, Bool.eq_false_iff.mpr help, Bool.false_or]
      by_cases operand : isOperand word = true
      · rw [if_pos operand, List.filter_cons_of_pos operand, hzAfter]
        by_cases unset : args.hz = 0
        · rw [if_pos unset, if_pos unset, Option.map_some, Option.bind_some, inductionHypothesis]
          simp only [lastParam, List.any_cons, Bool.or_assoc, Bool.or_left_comm]
        · rw [if_neg unset, if_neg unset]
          simp
      · rw [if_neg operand, List.filter_cons_of_neg operand, Option.map_some, Option.bind_some,
          inductionHypothesis]
        simp only [lastParam, List.any_cons, Bool.or_assoc, Bool.or_left_comm]

/-- A word that is no option leaves the value. -/
theorem taken_of_not {α : Type} {isOption : Text → Bool} (read : Text → α) (value : α)
    {word : Text} (notOption : isOption word = false) (next : Option Text) :
    taken isOption read value word next = value := by
  cases next with
  | none => rfl
  | some param => rw [taken, notOption, if_neg Bool.false_ne_true]

/-- Words in front that are no options are skipped. -/
theorem lastParam_append {α : Type} {isOption : Text → Bool} (read : Text → α) (value : α)
    {words : List Text} (notOptions : ∀ word ∈ words, isOption word = false)
    (rest : List Text) :
    lastParam isOption read value (words ++ rest) = lastParam isOption read value rest := by
  induction words with
  | nil => rfl
  | cons word words inductionHypothesis =>
      rw [List.forall_mem_cons] at notOptions
      rw [List.cons_append, lastParam, taken_of_not read value notOptions.1]
      exact inductionHypothesis notOptions.2

/-- Words in front only change the value. -/
theorem exists_lastParam_append {α : Type} (isOption : Text → Bool) (read : Text → α) (value : α)
    (words rest : List Text) :
    ∃ value', lastParam isOption read value (words ++ rest) =
      lastParam isOption read value' rest := by
  induction words generalizing value with
  | nil => exact ⟨value, rfl⟩
  | cons word words inductionHypothesis => exact inductionHypothesis _

/-- Without options the value stays. -/
theorem lastParam_of_not {α : Type} {isOption : Text → Bool} (read : Text → α) (value : α)
    {words : List Text} (notOptions : ∀ word ∈ words, isOption word = false) :
    lastParam isOption read value words = value := by
  have skipped := lastParam_append read value notOptions []
  rwa [List.append_nil] at skipped

/-- Operands that read as zero are skipped. -/
theorem hzAfter_append {operands : List Text} (zeros : ∀ word ∈ operands, readHz word = 0)
    (rest : List Text) :
    hzAfter 0 (operands ++ rest) = hzAfter 0 rest := by
  induction operands with
  | nil => rfl
  | cons operand operands inductionHypothesis =>
      rw [List.forall_mem_cons] at zeros
      rw [List.cons_append, hzAfter, if_pos rfl, zeros.1]
      exact inductionHypothesis zeros.2

/-- The operands leave zero if all of them read as zero, and a number if it is the last of them
and all others read as zero. -/
theorem hzAfter_eq_some {operands : List Text} {hz : Int} :
    hzAfter 0 operands = some hz ↔
      (hz = 0 ∧ ∀ word ∈ operands, readHz word = 0) ∨
        (hz ≠ 0 ∧ ∃ before word, operands = before ++ [word] ∧
          (∀ other ∈ before, readHz other = 0) ∧ readHz word = hz) := by
  constructor
  · intro result
    induction operands with
    | nil =>
        rw [hzAfter, Option.some_inj] at result
        exact Or.inl ⟨result.symm, List.forall_mem_nil _⟩
    | cons operand operands inductionHypothesis =>
        rw [hzAfter, if_pos rfl] at result
        by_cases zero : readHz operand = 0
        · rw [zero] at result
          rcases inductionHypothesis result with ⟨isZero, zeros⟩ |
            ⟨nonzero, before, word, rfl, zeros, isHz⟩
          · exact Or.inl ⟨isZero, List.forall_mem_cons.mpr ⟨zero, zeros⟩⟩
          · exact Or.inr ⟨nonzero, operand :: before, word, rfl,
              List.forall_mem_cons.mpr ⟨zero, zeros⟩, isHz⟩
        · cases operands with
          | nil =>
              rw [hzAfter, Option.some_inj] at result
              rw [result] at zero
              exact Or.inr ⟨zero, [], operand, rfl, List.forall_mem_nil _, result⟩
          | cons other operands =>
              rw [hzAfter, if_neg zero] at result
              exact absurd result nofun
  · rintro (⟨rfl, zeros⟩ | ⟨nonzero, before, word, rfl, zeros, isHz⟩)
    · have skipped := hzAfter_append zeros []
      rwa [List.append_nil] at skipped
    · rw [hzAfter_append zeros, hzAfter, if_pos rfl, isHz]
      rfl

end Collector
end Bootchart
