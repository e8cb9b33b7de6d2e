import Bootchart.Collector.Arguments

/-!
# Arguments of the documented usage

Options in any order, each at most once. A parameter is visited again as an argument of its own,
and an option with a parameter is taken for the number of samples as well. What follows from that
depends on the parameters and on the order.
-/

namespace Bootchart
namespace Collector

open Library (Text)

/-- An option of the usage, or the number of samples. -/
inductive CliOption
  /-- `--usleep <usecs>`. -/
  | usleep (usecs : Nat)
  /-- `-d <path>` or `--dump <path>`. -/
  | dump (long : Bool) (path : Text)
  /-- `--probe-running`. -/
  | probeRunning
  /-- `-r`. -/
  | relative
  /-- `-c` or `--console`. -/
  | console (long : Bool)
  /-- The number of samples. -/
  | hz (samples : Nat)
  deriving DecidableEq

namespace CliOption

/-- The word of the option. -/
def word : CliOption → Text
  | .usleep _ => "--usleep".toList
  | .dump false _ => "-d".toList
  | .dump true _ => "--dump".toList
  | .probeRunning => "--probe-running".toList
  | .relative => "-r".toList
  | .console false => "-c".toList
  | .console true => "--console".toList
  | .hz samples => numeral samples

/-- The word of its parameter, if it has one. -/
def param? : CliOption → Option Text
  | .usleep usecs => some (numeral usecs)
  | .dump _ path => some path
  | _ => none

/-- The words of the option. -/
def words (option : CliOption) : List Text :=
  option.word :: option.param?.toList

/-- What the usage gives the option for. -/
inductive Kind
  | usleep | dump | probeRunning | relative | console | hz
  deriving DecidableEq

/-- The kind of an option. -/
def kind : CliOption → Kind
  | .usleep _ => .usleep
  | .dump _ _ => .dump
  | .probeRunning => .probeRunning
  | .relative => .relative
  | .console _ => .console
  | .hz _ => .hz

/-- The time to sleep that an option gives. -/
def usecs? : CliOption → Option Nat
  | .usleep usecs => some usecs
  | _ => none

/-- The path that an option gives. -/
def path? : CliOption → Option Text
  | .dump _ path => some path
  | _ => none

/-- The number of samples that an option gives. -/
def samples? : CliOption → Option Nat
  | .hz samples => some samples
  | _ => none

end CliOption

/-- Options of the usage, each at most once. -/
structure CommandLine where
  /-- The options, in the order in which they are given. -/
  options : List CliOption
  /-- No two are of one kind. -/
  distinct : (options.map CliOption.kind).Nodup

namespace CommandLine

/-- The words behind the name of the program. -/
def words (line : CommandLine) : List Text :=
  line.options.flatMap CliOption.words

/-- The arguments that are given. -/
def given (line : CommandLine) : Arguments where
  consoleDebug := line.options.any fun option => option.kind = .console
  probeRunning := line.options.any fun option => option.kind = .probeRunning
  relativeTime := line.options.any fun option => option.kind = .relative
  dumpPath := line.options.findSome? CliOption.path?
  usleepTime := (line.options.findSome? CliOption.usecs?).getD 0
  hz := (line.options.findSome? CliOption.samples?).getD 0

/-- The function returns the arguments that are given. -/
def ReadsGiven (line : CommandLine) : Prop :=
  argumentsParse argumentsSetDefaults line.words = some line.given

/-- The conditions under which no word is taken for another than it is. -/
structure Unambiguous (line : CommandLine) : Prop where
  /-- The number of samples is an `int`. -/
  samples : ∀ samples, .hz samples ∈ line.options → samples < 2 ^ 31
  /-- Nothing that is taken for a number of samples follows such a number. -/
  last : ∀ before samples behind, line.options = before ++ .hz samples :: behind →
    samples ≠ 0 → ∀ option ∈ behind, option.param? = none
  /-- The time to sleep is a `long`, and no number of samples. -/
  usecs : ∀ usecs, .usleep usecs ∈ line.options → usecs < 2 ^ 63 ∧ usecs % 2 ^ 32 = 0
  /-- The path is no call for help. -/
  notHelp : ∀ long path, .dump long path ∈ line.options → isHelp path = false
  /-- The path is the word of another option only if that is given. -/
  plain : ∀ long path, .dump long path ∈ line.options →
    (isConsole path = true → .console ∈ line.options.map CliOption.kind) ∧
    (isProbe path = true → .probeRunning ∈ line.options.map CliOption.kind) ∧
    (isRelative path = true → .relative ∈ line.options.map CliOption.kind)
  /-- The path is no number of samples. -/
  operand : ∀ long path, .dump long path ∈ line.options → isOperand path = true → readHz path = 0
  /-- If the path is itself the word for a path, it is the last word. -/
  dump : ∀ before long path behind, line.options = before ++ .dump long path :: behind →
    isDump path = true → behind = []
  /-- If the path is the word for a time to sleep, it is the last word, or the time is given
  behind it, or the next word reads as the time given before it. -/
  usleep : ∀ before long path behind, line.options = before ++ .dump long path :: behind →
    isUsleep path = true → ∀ next ∈ behind.head?,
      .usleep ∈ behind.map CliOption.kind ∨
        readLong next.word = (before.findSome? CliOption.usecs?).getD 0

end CommandLine

/-! ## Words of options -/

/-- A numeral is no word that begins with a dash. -/
theorem numeral_ne {word : Text} (dash : word.head? = some '-') (number : Nat) :
    numeral number ≠ word := by
  obtain ⟨c, rest, isNumeral, isDigit⟩ := numeral_cons number
  rintro rfl
  rw [isNumeral, List.head?_cons, Option.some_inj] at dash
  rw [dash] at isDigit
  exact absurd isDigit (by decide)

@[simp] theorem isUsleep_numeral (number : Nat) : isUsleep (numeral number) = false :=
  decide_eq_false (numeral_ne rfl number)

@[simp] theorem isDump_numeral (number : Nat) : isDump (numeral number) = false := by
  rw [isDump, decide_eq_false (numeral_ne rfl number), decide_eq_false (numeral_ne rfl number)]
  rfl

@[simp] theorem isProbe_numeral (number : Nat) : isProbe (numeral number) = false :=
  decide_eq_false (numeral_ne rfl number)

@[simp] theorem isRelative_numeral (number : Nat) : isRelative (numeral number) = false :=
  decide_eq_false (numeral_ne rfl number)

@[simp] theorem isConsole_numeral (number : Nat) : isConsole (numeral number) = false := by
  rw [isConsole, decide_eq_false (numeral_ne rfl number),
    decide_eq_false (numeral_ne rfl number)]
  rfl

@[simp] theorem isHelp_numeral (number : Nat) : isHelp (numeral number) = false := by
  rw [isHelp, decide_eq_false (numeral_ne rfl number), decide_eq_false (numeral_ne rfl number)]
  rfl

@[simp] theorem isTest_numeral (number : Nat) : isTest (numeral number) = false := by
  rw [isTest, decide_eq_false (numeral_ne rfl number), decide_eq_false (numeral_ne rfl number)]
  rfl

@[simp] theorem isOperand_numeral (number : Nat) : isOperand (numeral number) = true := by
  simp [isOperand]

namespace CliOption

@[simp] theorem isUsleep_word (option : CliOption) :
    isUsleep option.word = decide (option.kind = .usleep) := by
  match option with
  | .usleep _ | .dump false _ | .dump true _ | .probeRunning | .relative
  | .console false | .console true => rfl
  | .hz samples => exact isUsleep_numeral samples

@[simp] theorem isDump_word (option : CliOption) :
    isDump option.word = decide (option.kind = .dump) := by
  match option with
  | .usleep _ | .dump false _ | .dump true _ | .probeRunning | .relative
  | .console false | .console true => rfl
  | .hz samples => exact isDump_numeral samples

@[simp] theorem isProbe_word (option : CliOption) :
    isProbe option.word = decide (option.kind = .probeRunning) := by
  match option with
  | .usleep _ | .dump false _ | .dump true _ | .probeRunning | .relative
  | .console false | .console true => rfl
  | .hz samples => exact isProbe_numeral samples

@[simp] theorem isRelative_word (option : CliOption) :
    isRelative option.word = decide (option.kind = .relative) := by
  match option with
  | .usleep _ | .dump false _ | .dump true _ | .probeRunning | .relative
  | .console false | .console true => rfl
  | .hz samples => exact isRelative_numeral samples

@[simp] theorem isConsole_word (option : CliOption) :
    isConsole option.word = decide (option.kind = .console) := by
  match option with
  | .usleep _ | .dump false _ | .dump true _ | .probeRunning | .relative
  | .console false | .console true => rfl
  | .hz samples => exact isConsole_numeral samples

@[simp] theorem isHelp_word (option : CliOption) : isHelp option.word = false := by
  match option with
  | .usleep _ | .dump false _ | .dump true _ | .probeRunning | .relative
  | .console false | .console true => rfl
  | .hz samples => exact isHelp_numeral samples

/-- The words of options with a parameter, and numbers of samples, are operands. -/
theorem isOperand_word (option : CliOption) :
    isOperand option.word = true ↔ option.param? ≠ none ∨ option.kind = .hz := by
  match option with
  | .usleep _ | .dump false _ | .dump true _ => exact iff_of_true rfl (Or.inl nofun)
  | .probeRunning | .relative | .console false | .console true =>
      exact iff_of_false nofun (by simp [param?, kind])
  | .hz samples => exact iff_of_true (isOperand_numeral samples) (Or.inr rfl)

/-- An operand that is the word of an option with a parameter reads as zero. -/
theorem readHz_word {option : CliOption} (notHz : option.kind ≠ .hz) : readHz option.word = 0 := by
  match option with
  | .usleep _ => exact (by decide : readHz "--usleep".toList = 0)
  | .dump false _ => exact (by decide : readHz "-d".toList = 0)
  | .dump true _ => exact (by decide : readHz "--dump".toList = 0)
  | .probeRunning | .relative | .console false | .console true => rfl
  | .hz _ => exact absurd rfl notHz

/-- The words of an option. -/
theorem mem_words {option : CliOption} {text : Text} :
    text ∈ option.words ↔ text = option.word ∨ option.param? = some text := by
  rw [words, List.mem_cons, Option.mem_toList]

end CliOption

namespace CommandLine

/-! ## Options of a kind -/

/-- No two options are of one kind. -/
theorem not_mem_of_split {line : CommandLine} {before behind : List CliOption}
    {option : CliOption} (isLine : line.options = before ++ option :: behind) :
    option.kind ∉ before.map CliOption.kind ∧ option.kind ∉ behind.map CliOption.kind := by
  have distinct := line.distinct
  rw [isLine, List.map_append, List.map_cons] at distinct
  obtain ⟨_, behindDistinct, apart⟩ := List.nodup_append.mp distinct
  refine ⟨?_, (List.nodup_cons.mp behindDistinct).1⟩
  intro isBefore
  exact apart _ isBefore _ List.mem_cons_self rfl

/-- Options that are not of a kind give nothing for it. -/
theorem findSome?_eq_none {α : Type} {get : CliOption → Option α} {kind : CliOption.Kind}
    (ofKind : ∀ option value, get option = some value → option.kind = kind)
    {options : List CliOption} (absent : kind ∉ options.map CliOption.kind) :
    options.findSome? get = none := by
  rw [List.findSome?_eq_none_iff]
  intro option member
  cases got : get option with
  | none => rfl
  | some value =>
      rw [← ofKind option value got] at absent
      exact absurd (List.mem_map_of_mem member) absent

/-- The only option of a kind gives what is given for it. -/
theorem findSome?_split {α : Type} {get : CliOption → Option α} {kind : CliOption.Kind}
    (ofKind : ∀ option value, get option = some value → option.kind = kind)
    {before behind : List CliOption} {option : CliOption} {value : α}
    (got : get option = some value) (absent : kind ∉ before.map CliOption.kind) :
    (before ++ option :: behind).findSome? get = some value := by
  rw [List.findSome?_append, findSome?_eq_none ofKind absent, Option.none_or,
    List.findSome?_cons, got]

theorem kind_of_path? (option : CliOption) (path : Text) (got : option.path? = some path) :
    option.kind = .dump := by
  cases option <;> first | rfl | exact absurd got nofun

theorem kind_of_usecs? (option : CliOption) (usecs : Nat) (got : option.usecs? = some usecs) :
    option.kind = .usleep := by
  cases option <;> first | rfl | exact absurd got nofun

theorem kind_of_samples? (option : CliOption) (samples : Nat)
    (got : option.samples? = some samples) :
    option.kind = .hz := by
  cases option <;> first | rfl | exact absurd got nofun

/-- Either a kind is not among some options, or one of them is of the kind. -/
theorem kind_cases (kind : CliOption.Kind) (options : List CliOption) :
    kind ∉ options.map CliOption.kind ∨ ∃ option ∈ options, option.kind = kind := by
  by_cases present : kind ∈ options.map CliOption.kind
  · exact Or.inr (List.mem_map.mp present)
  · exact Or.inl present

/-- An option of the kind of paths. -/
theorem eq_dump_of_kind {option : CliOption} (isKind : option.kind = .dump) :
    ∃ long path, option = .dump long path := by
  cases option <;> first | exact ⟨_, _, rfl⟩ | exact absurd isKind nofun

/-- An option of the kind of times to sleep. -/
theorem eq_usleep_of_kind {option : CliOption} (isKind : option.kind = .usleep) :
    ∃ usecs, option = .usleep usecs := by
  cases option <;> first | exact ⟨_, rfl⟩ | exact absurd isKind nofun

/-- An option of the kind of numbers of samples. -/
theorem eq_hz_of_kind {option : CliOption} (isKind : option.kind = .hz) :
    ∃ samples, option = .hz samples := by
  cases option <;> first | exact ⟨_, rfl⟩ | exact absurd isKind nofun

/-! ## Flags -/

/-- The word of a plain option is among the words if and only if the option is given, unless the
path is that word. -/
theorem any_words_eq_iff {test : Text → Bool} {kind : CliOption.Kind}
    (isWord : ∀ option : CliOption, test option.word = decide (option.kind = kind))
    (notNumeral : ∀ number, test (numeral number) = false) (options : List CliOption) :
    (options.flatMap CliOption.words).any test = (options.any fun option => option.kind = kind) ↔
      ∀ long path, .dump long path ∈ options → test path = true →
        kind ∈ options.map CliOption.kind := by
  have present : (options.any fun option => decide (option.kind = kind)) = true ↔
      kind ∈ options.map CliOption.kind := by
    simp [List.any_eq_true, List.mem_map]
  rw [Bool.eq_iff_iff, present, List.any_eq_true]
  constructor
  · intro same long path member isTest
    apply same.mp
    exact ⟨path, List.mem_flatMap.mpr ⟨_, member, CliOption.mem_words.mpr (Or.inr rfl)⟩, isTest⟩
  · intro paths
    constructor
    · rintro ⟨text, isText, isTest⟩
      obtain ⟨option, member, isText⟩ := List.mem_flatMap.mp isText
      rcases CliOption.mem_words.mp isText with rfl | isParam
      · rw [isWord, decide_eq_true_eq] at isTest
        exact List.mem_map.mpr ⟨option, member, isTest⟩
      · match option with
        | .usleep usecs =>
            obtain rfl := Option.some.inj isParam
            rw [notNumeral] at isTest
            exact absurd isTest Bool.false_ne_true
        | .dump long path =>
            obtain rfl := Option.some.inj isParam
            exact paths long path member isTest
    · intro isKind
      obtain ⟨option, member, isKind⟩ := List.mem_map.mp isKind
      refine ⟨option.word, List.mem_flatMap.mpr ⟨option, member, ?_⟩, ?_⟩
      · exact CliOption.mem_words.mpr (Or.inl rfl)
      · rw [isWord]
        exact decide_eq_true isKind

/-- There is a call for help if and only if the path is one. -/
theorem any_isHelp_eq_false_iff (options : List CliOption) :
    (options.flatMap CliOption.words).any isHelp = false ↔
      ∀ long path, .dump long path ∈ options → isHelp path = false := by
  rw [List.any_eq_false]
  constructor
  · intro none long path member
    have notHelp := none path
      (List.mem_flatMap.mpr ⟨_, member, CliOption.mem_words.mpr (Or.inr rfl)⟩)
    rwa [Bool.not_eq_true] at notHelp
  · intro paths text isText
    obtain ⟨option, member, isText⟩ := List.mem_flatMap.mp isText
    rw [Bool.not_eq_true]
    rcases CliOption.mem_words.mp isText with rfl | isParam
    · exact option.isHelp_word
    · match option with
      | .usleep usecs =>
          obtain rfl := Option.some.inj isParam
          exact isHelp_numeral usecs
      | .dump long path =>
          obtain rfl := Option.some.inj isParam
          exact paths long path member

/-! ## The path -/

/-- The words before an option, of the option and behind it. -/
theorem flatMap_words_split (before behind : List CliOption) (option : CliOption) :
    (before ++ option :: behind).flatMap CliOption.words =
      before.flatMap CliOption.words ++ (option.words ++ behind.flatMap CliOption.words) := by
  rw [List.flatMap_append, List.flatMap_cons]

/-- The first word of some options. -/
theorem head?_flatMap_words (options : List CliOption) :
    (options.flatMap CliOption.words).head? = options.head?.map CliOption.word := by
  cases options with
  | nil => rfl
  | cons option options => rfl

/-- Without a path, no word is one for a path. -/
theorem isDump_eq_false {options : List CliOption} (absent : .dump ∉ options.map CliOption.kind) :
    ∀ text ∈ options.flatMap CliOption.words, isDump text = false := by
  intro text isText
  obtain ⟨option, member, isText⟩ := List.mem_flatMap.mp isText
  have notDump : option.kind ≠ .dump := fun isKind =>
    absent (isKind ▸ List.mem_map_of_mem member)
  rcases CliOption.mem_words.mp isText with rfl | isParam
  · rw [option.isDump_word]
    exact decide_eq_false notDump
  · match option with
    | .usleep usecs =>
        obtain rfl := Option.some.inj isParam
        exact isDump_numeral usecs
    | .dump long path => exact absurd rfl notDump

/-- The path that is read. -/
theorem lastParam_isDump {line : CommandLine} {before behind : List CliOption} {long : Bool}
    {path : Text} (isLine : line.options = before ++ .dump long path :: behind) :
    lastParam isDump some none line.words =
      taken isDump some (some path) path (behind.head?.map CliOption.word) := by
  obtain ⟨notBefore, notBehind⟩ := not_mem_of_split isLine
  have isOption : isDump (CliOption.dump long path).word = true :=
    (CliOption.isDump_word _).trans (decide_eq_true rfl)
  rw [words, isLine, flatMap_words_split, lastParam_append some none (isDump_eq_false notBefore)]
  change lastParam isDump some (taken isDump some (taken isDump some none
      (CliOption.dump long path).word (some path)) path
      (behind.flatMap CliOption.words).head?) (behind.flatMap CliOption.words) = _
  rw [lastParam_of_not _ _ (isDump_eq_false notBehind), head?_flatMap_words, taken, isOption,
    if_pos rfl]

/-- The path that is given. -/
theorem dumpPath_given {line : CommandLine} {before behind : List CliOption} {long : Bool}
    {path : Text} (isLine : line.options = before ++ .dump long path :: behind) :
    line.given.dumpPath = some path := by
  rw [given, isLine]
  exact findSome?_split kind_of_path? rfl (not_mem_of_split isLine).1

/-- The path is read as it is given, unless it is itself the word for a path and a word
follows. -/
theorem dumpPath_iff (line : CommandLine) :
    lastParam isDump some none line.words = line.given.dumpPath ↔
      ∀ before long path behind, line.options = before ++ .dump long path :: behind →
        isDump path = true → behind = [] := by
  constructor
  · intro same before long path behind isLine isPath
    rw [lastParam_isDump isLine, dumpPath_given isLine] at same
    cases behind with
    | nil => rfl
    | cons next behind =>
        have isNext : next.word = path := by
          rw [List.head?_cons, Option.map_some, taken, if_pos isPath] at same
          exact Option.some.inj same
        rw [← isNext, next.isDump_word, decide_eq_true_eq] at isPath
        have notBehind := (not_mem_of_split isLine).2
        rw [List.map_cons, isPath] at notBehind
        exact absurd List.mem_cons_self notBehind
  · intro atEnd
    rcases kind_cases .dump line.options with absent | ⟨option, member, isKind⟩
    · rw [words, lastParam_of_not some none (isDump_eq_false absent), given]
      exact (findSome?_eq_none kind_of_path? absent).symm
    · obtain ⟨long, path, rfl⟩ := eq_dump_of_kind isKind
      obtain ⟨before, behind, isLine⟩ := List.append_of_mem member
      rw [lastParam_isDump isLine, dumpPath_given isLine]
      by_cases isPath : isDump path = true
      · rw [atEnd before long path behind isLine isPath]
        rfl
      · exact taken_of_not some (some path) (Bool.eq_false_iff.mpr isPath) _

/-! ## The time to sleep -/

/-- No path among some options is the word for a time to sleep. -/
def NoUsleepPath (options : List CliOption) : Prop :=
  ∀ long path, .dump long path ∈ options → isUsleep path = false

/-- Without a time and such a path, no word is one for a time. -/
theorem isUsleep_eq_false {options : List CliOption}
    (absent : .usleep ∉ options.map CliOption.kind) (noPath : NoUsleepPath options) :
    ∀ text ∈ options.flatMap CliOption.words, isUsleep text = false := by
  intro text isText
  obtain ⟨option, member, isText⟩ := List.mem_flatMap.mp isText
  have notUsleep : option.kind ≠ .usleep := fun isKind =>
    absent (isKind ▸ List.mem_map_of_mem member)
  rcases CliOption.mem_words.mp isText with rfl | isParam
  · rw [option.isUsleep_word]
    exact decide_eq_false notUsleep
  · match option with
    | .usleep usecs => exact absurd rfl notUsleep
    | .dump long path =>
        obtain rfl := Option.some.inj isParam
        exact noPath long path member

/-- Without a path there is no such path. -/
theorem noUsleepPath_of_absent {options : List CliOption}
    (absent : .dump ∉ options.map CliOption.kind) : NoUsleepPath options :=
  fun _ _ member => absurd (List.mem_map_of_mem member) absent

/-- A time to sleep replaces the one before. -/
theorem lastParam_usleep (value : Int) (usecs : Nat) (rest : List Text) :
    lastParam isUsleep readLong value ((CliOption.usleep usecs).words ++ rest) =
      lastParam isUsleep readLong (readLong (numeral usecs)) rest := by
  change lastParam isUsleep readLong (taken isUsleep readLong (readLong (numeral usecs))
    (numeral usecs) rest.head?) rest = _
  rw [taken_of_not _ _ (isUsleep_numeral usecs)]

/-- A path is looked at with the word behind it. -/
theorem lastParam_dump (value : Int) (long : Bool) (path : Text) (rest : List Text) :
    lastParam isUsleep readLong value ((CliOption.dump long path).words ++ rest) =
      lastParam isUsleep readLong (taken isUsleep readLong value path rest.head?) rest := by
  have notOption : isUsleep (CliOption.dump long path).word = false :=
    (CliOption.isUsleep_word _).trans (decide_eq_false nofun)
  change lastParam isUsleep readLong (taken isUsleep readLong
    (taken isUsleep readLong value (CliOption.dump long path).word (some path)) path
      rest.head?) rest = _
  rw [taken_of_not _ _ notOption]

/-- The time that is read, if it is given behind the path. -/
theorem lastParam_of_usleep {options before behind : List CliOption} {usecs : Nat}
    (isOptions : options = before ++ .usleep usecs :: behind)
    (absent : .usleep ∉ behind.map CliOption.kind) (noPath : NoUsleepPath behind)
    (value : Int) (rest : List Text) :
    lastParam isUsleep readLong value (options.flatMap CliOption.words ++ rest) =
      lastParam isUsleep readLong (readLong (numeral usecs)) rest := by
  obtain ⟨value', skipped⟩ := exists_lastParam_append isUsleep readLong value
    (before.flatMap CliOption.words)
    ((CliOption.usleep usecs).words ++ (behind.flatMap CliOption.words ++ rest))
  rw [isOptions, flatMap_words_split, List.append_assoc, List.append_assoc, skipped,
    lastParam_usleep, lastParam_append _ _ (isUsleep_eq_false absent noPath)]

/-- The time that is given. -/
theorem usecs_given {before behind : List CliOption} {usecs : Nat}
    (notBefore : .usleep ∉ before.map CliOption.kind) :
    ((before ++ .usleep usecs :: behind).findSome? CliOption.usecs?).getD 0 = usecs := by
  rw [findSome?_split kind_of_usecs? rfl notBefore]
  rfl

/-- No time is given. -/
theorem usecs_absent {options : List CliOption} (absent : .usleep ∉ options.map CliOption.kind) :
    (options.findSome? CliOption.usecs?).getD 0 = 0 := by
  rw [findSome?_eq_none kind_of_usecs? absent]
  rfl

/-- A time among options without another. -/
theorem forall_usleep_iff {before behind : List CliOption} (usecs : Nat)
    (notBefore : .usleep ∉ before.map CliOption.kind)
    (notBehind : .usleep ∉ behind.map CliOption.kind) :
    (∀ other, .usleep other ∈ before ++ .usleep usecs :: behind → other < 2 ^ 63) ↔
      usecs < 2 ^ 63 := by
  constructor
  · intro all
    exact all usecs (List.mem_append_right _ List.mem_cons_self)
  · intro small other member
    rcases List.mem_append.mp member with isBefore | isBehind
    · exact absurd (List.mem_map_of_mem isBefore) notBefore
    · rcases List.mem_cons.mp isBehind with same | isBehind
      · rw [CliOption.usleep.inj same]
        exact small
      · exact absurd (List.mem_map_of_mem isBehind) notBehind

/-- Where no path is the word for a time to sleep, the time is read as it is given if it is a
`long`. -/
theorem usleepTime_of_noPath {line : CommandLine} (noPath : NoUsleepPath line.options) :
    lastParam isUsleep readLong 0 line.words = line.given.usleepTime ↔
      ∀ usecs, .usleep usecs ∈ line.options → usecs < 2 ^ 63 := by
  rcases kind_cases .usleep line.options with absent | ⟨option, member, isKind⟩
  · rw [words, lastParam_of_not _ _ (isUsleep_eq_false absent noPath), given]
    refine iff_of_true ?_ fun usecs member => absurd (List.mem_map_of_mem member) absent
    change 0 = (((line.options.findSome? CliOption.usecs?).getD 0 : Nat) : Int)
    rw [usecs_absent absent]
    rfl
  · obtain ⟨usecs, rfl⟩ := eq_usleep_of_kind isKind
    obtain ⟨before, behind, isLine⟩ := List.append_of_mem member
    obtain ⟨notBefore, notBehind⟩ := not_mem_of_split isLine
    have noPathBehind : NoUsleepPath behind := fun long path isPath =>
      noPath long path (isLine ▸ List.mem_append_right _ (List.mem_cons_of_mem _ isPath))
    have value := lastParam_of_usleep isLine notBehind noPathBehind 0 []
    rw [List.append_nil] at value
    rw [words, value, lastParam, given]
    change _ = (((line.options.findSome? CliOption.usecs?).getD 0 : Nat) : Int) ↔ _
    rw [isLine, usecs_given notBefore, readLong_numeral, forall_usleep_iff usecs notBefore notBehind]

section UsleepPath

variable {line : CommandLine} {before behind : List CliOption} {long : Bool} {path : Text}
  (isLine : line.options = before ++ .dump long path :: behind)

include isLine

/-- Where a path is the word for a time to sleep, the word behind it is read last, if there is one
and no time is given behind it. -/
theorem lastParam_of_path (isPath : isUsleep path = true)
    (notBehind : .usleep ∉ behind.map CliOption.kind) {value : Int}
    (isBefore : ∀ rest, lastParam isUsleep readLong 0 (before.flatMap CliOption.words ++ rest) =
      lastParam isUsleep readLong value rest) :
    lastParam isUsleep readLong 0 line.words =
      match behind.head? with
      | some next => readLong next.word
      | none => value := by
  have noPathBehind := noUsleepPath_of_absent (not_mem_of_split isLine).2
  rw [words, isLine, flatMap_words_split, isBefore, lastParam_dump,
    lastParam_of_not _ _ (isUsleep_eq_false notBehind noPathBehind), head?_flatMap_words]
  cases behind.head? with
  | none => rfl
  | some next => exact if_pos isPath

/-- Where no time is given, the word behind such a path has to read as zero. -/
theorem usleepTime_of_path_absent (isPath : isUsleep path = true)
    (notBefore : .usleep ∉ before.map CliOption.kind)
    (notBehind : .usleep ∉ behind.map CliOption.kind) :
    lastParam isUsleep readLong 0 line.words = line.given.usleepTime ↔
      (∀ usecs, .usleep usecs ∈ line.options → usecs < 2 ^ 63) ∧
        ∀ next ∈ behind.head?, readLong next.word = (before.findSome? CliOption.usecs?).getD 0 := by
  have noPathBefore := noUsleepPath_of_absent (not_mem_of_split isLine).1
  have givenTime : line.given.usleepTime =
      (((line.options.findSome? CliOption.usecs?).getD 0 : Nat) : Int) := rfl
  have absent : .usleep ∉ line.options.map CliOption.kind := by
    rw [isLine, List.map_append, List.map_cons, List.mem_append, List.mem_cons]
    exact fun present => present.elim notBefore fun present => present.elim nofun notBehind
  have noTime : ∀ usecs, .usleep usecs ∈ line.options → usecs < 2 ^ 63 :=
    fun usecs member => absurd (List.mem_map_of_mem member) absent
  have isBefore := lastParam_append readLong 0 (isUsleep_eq_false notBefore noPathBefore)
  rw [lastParam_of_path isLine isPath notBehind isBefore, givenTime, usecs_absent absent,
    usecs_absent notBefore, and_iff_right noTime]
  cases behind.head? with
  | none => exact iff_of_true rfl nofun
  | some next => simp

/-- Where the time is given in front of such a path, the word behind it has to read as the time. -/
theorem usleepTime_of_path_before (isPath : isUsleep path = true)
    (isBefore : .usleep ∈ before.map CliOption.kind)
    (notBehind : .usleep ∉ behind.map CliOption.kind) :
    lastParam isUsleep readLong 0 line.words = line.given.usleepTime ↔
      (∀ usecs, .usleep usecs ∈ line.options → usecs < 2 ^ 63) ∧
        ∀ next ∈ behind.head?, readLong next.word = (before.findSome? CliOption.usecs?).getD 0 := by
  have noPathBefore := noUsleepPath_of_absent (not_mem_of_split isLine).1
  have givenTime : line.given.usleepTime =
      (((line.options.findSome? CliOption.usecs?).getD 0 : Nat) : Int) := rfl
  obtain ⟨option, member, isKind⟩ := List.mem_map.mp isBefore
  obtain ⟨usecs, rfl⟩ := eq_usleep_of_kind isKind
  obtain ⟨first, second, isBefore⟩ := List.append_of_mem member
  have isLine' : line.options = first ++ .usleep usecs ::
      (second ++ .dump long path :: behind) := by
    rw [isLine, isBefore, List.append_assoc]
    rfl
  obtain ⟨notFirst, notRest⟩ := not_mem_of_split isLine'
  have notSecond : .usleep ∉ second.map CliOption.kind := by
    rw [List.map_append] at notRest
    exact fun present => notRest (List.mem_append_left _ present)
  have noPathSecond : NoUsleepPath second := fun long path isPath => noPathBefore long path
    (isBefore ▸ List.mem_append_right _ (List.mem_cons_of_mem _ isPath))
  have small := forall_usleep_iff usecs notFirst notRest
  rw [lastParam_of_path isLine isPath notBehind
      fun rest => lastParam_of_usleep isBefore notSecond noPathSecond 0 rest,
    givenTime, isLine', usecs_given notFirst, isBefore, usecs_given notFirst, small]
  cases behind.head? with
  | none => simp [readLong_numeral]
  | some next =>
      simp only [Option.mem_def, Option.some.injEq, forall_eq']
      constructor
      · intro same
        have bound := readLong_lt next.word
        rw [same] at bound
        exact ⟨by omega, same⟩
      · exact And.right

/-- A time given behind such a path replaces what is read there. -/
theorem usleepTime_of_path_behind (isBehind : .usleep ∈ behind.map CliOption.kind) :
    lastParam isUsleep readLong 0 line.words = line.given.usleepTime ↔
      ∀ usecs, .usleep usecs ∈ line.options → usecs < 2 ^ 63 := by
  have noPathBehind := noUsleepPath_of_absent (not_mem_of_split isLine).2
  have givenTime : line.given.usleepTime =
      (((line.options.findSome? CliOption.usecs?).getD 0 : Nat) : Int) := rfl
  obtain ⟨option, member, isKind⟩ := List.mem_map.mp isBehind
  obtain ⟨usecs, rfl⟩ := eq_usleep_of_kind isKind
  obtain ⟨first, second, isBehind⟩ := List.append_of_mem member
  have isLine' : line.options = (before ++ .dump long path :: first) ++
      .usleep usecs :: second := by
    rw [isLine, isBehind, List.append_assoc]
    rfl
  obtain ⟨notFirst, notSecond⟩ := not_mem_of_split isLine'
  have noPathSecond : NoUsleepPath second := fun long path isPath => noPathBehind long path
    (isBehind ▸ List.mem_append_right _ (List.mem_cons_of_mem _ isPath))
  have value := lastParam_of_usleep isLine' notSecond noPathSecond 0 []
  rw [List.append_nil] at value
  have small := forall_usleep_iff usecs notFirst notSecond
  rw [words, value, lastParam, givenTime, isLine', usecs_given notFirst, readLong_numeral, small]

/-- Where a path is the word for a time to sleep, the word behind it is read, unless the time is
given behind it. -/
theorem usleepTime_of_path (isPath : isUsleep path = true) :
    lastParam isUsleep readLong 0 line.words = line.given.usleepTime ↔
      (∀ usecs, .usleep usecs ∈ line.options → usecs < 2 ^ 63) ∧
        ∀ next ∈ behind.head?, .usleep ∈ behind.map CliOption.kind ∨
          readLong next.word = (before.findSome? CliOption.usecs?).getD 0 := by
  by_cases isBehind : .usleep ∈ behind.map CliOption.kind
  · rw [usleepTime_of_path_behind isLine isBehind]
    exact (and_iff_left fun next _ => Or.inl isBehind).symm
  · simp only [isBehind, false_or]
    by_cases isBefore : .usleep ∈ before.map CliOption.kind
    · exact usleepTime_of_path_before isLine isPath isBefore isBehind
    · exact usleepTime_of_path_absent isLine isPath isBefore isBehind

end UsleepPath

/-- The time to sleep is read as it is given if it is a `long` and no path that is the word for it
is followed by another word. -/
theorem usleepTime_iff (line : CommandLine) :
    lastParam isUsleep readLong 0 line.words = line.given.usleepTime ↔
      (∀ usecs, .usleep usecs ∈ line.options → usecs < 2 ^ 63) ∧
        ∀ before long path behind, line.options = before ++ .dump long path :: behind →
          isUsleep path = true → ∀ next ∈ behind.head?, .usleep ∈ behind.map CliOption.kind ∨
            readLong next.word = (before.findSome? CliOption.usecs?).getD 0 := by
  by_cases noPath : NoUsleepPath line.options
  · rw [usleepTime_of_noPath noPath, iff_self_and]
    intro _ before long path behind isLine isPath
    have isWord := noPath long path (isLine ▸ List.mem_append_right _ List.mem_cons_self)
    exact absurd (isWord.symm.trans isPath) Bool.false_ne_true
  · obtain ⟨long, path, member, isPath⟩ :
        ∃ long path, .dump long path ∈ line.options ∧ isUsleep path = true := by
      rw [NoUsleepPath] at noPath
      push Not at noPath
      obtain ⟨long, path, member, isPath⟩ := noPath
      exact ⟨long, path, member, Bool.of_not_eq_false isPath⟩
    obtain ⟨before, behind, isLine⟩ := List.append_of_mem member
    constructor
    · intro same
      refine ⟨((usleepTime_of_path isLine isPath).mp same).1, ?_⟩
      intro before long path behind isLine isPath
      exact ((usleepTime_of_path isLine isPath).mp same).2
    · rintro ⟨small, next⟩
      exact (usleepTime_of_path isLine isPath).mpr
        ⟨small, next before long path behind isLine isPath⟩

/-! ## The number of samples -/

/-- The words of some options that are taken for numbers of samples. -/
def operands (options : List CliOption) : List Text :=
  (options.flatMap CliOption.words).filter isOperand

/-- No parameter of some options is a number of samples. -/
def ParamsReadZero (options : List CliOption) : Prop :=
  ∀ option ∈ options, ∀ param, option.param? = some param → isOperand param = true →
    readHz param = 0

/-- The operands around a number of samples. -/
theorem operands_split (before behind : List CliOption) (samples : Nat) :
    operands (before ++ .hz samples :: behind) =
      operands before ++ numeral samples :: operands behind := by
  have isWord : (CliOption.hz samples).words.filter isOperand = [numeral samples] :=
    List.filter_cons_of_pos (isOperand_numeral samples)
  rw [operands, flatMap_words_split, List.filter_append, List.filter_append, isWord]
  rfl

/-- The operands read as zero if the parameters do and the numbers of samples. -/
theorem operands_zero_iff (options : List CliOption) :
    (∀ text ∈ operands options, readHz text = 0) ↔
      ParamsReadZero options ∧
        ∀ samples, .hz samples ∈ options → readHz (numeral samples) = 0 := by
  constructor
  · intro zeros
    constructor
    · intro option member param isParam operand
      apply zeros
      rw [operands, List.mem_filter, List.mem_flatMap]
      exact ⟨⟨option, member, CliOption.mem_words.mpr (Or.inr isParam)⟩, operand⟩
    · intro samples member
      apply zeros
      rw [operands, List.mem_filter, List.mem_flatMap]
      exact ⟨⟨_, member, CliOption.mem_words.mpr (Or.inl rfl)⟩, isOperand_numeral samples⟩
  · rintro ⟨params, numbers⟩ text isText
    rw [operands, List.mem_filter, List.mem_flatMap] at isText
    obtain ⟨⟨option, member, isText⟩, operand⟩ := isText
    rcases CliOption.mem_words.mp isText with rfl | isParam
    · by_cases isHz : option.kind = .hz
      · obtain ⟨samples, rfl⟩ := eq_hz_of_kind isHz
        exact numbers samples member
      · exact CliOption.readHz_word isHz
    · exact params option member text isParam operand

/-- There is no operand if and only if no option has a parameter and there is no number of
samples. -/
theorem operands_eq_nil_iff {options : List CliOption}
    (absent : .hz ∉ options.map CliOption.kind) :
    operands options = [] ↔ ∀ option ∈ options, option.param? = none := by
  rw [operands, List.filter_eq_nil_iff]
  constructor
  · intro none option member
    have notOperand := none option.word
      (List.mem_flatMap.mpr ⟨option, member, CliOption.mem_words.mpr (Or.inl rfl)⟩)
    rw [option.isOperand_word, not_or, not_not] at notOperand
    exact notOperand.1
  · intro noParams text isText
    obtain ⟨option, member, isText⟩ := List.mem_flatMap.mp isText
    have notHz : option.kind ≠ .hz := fun isKind =>
      absent (isKind ▸ List.mem_map_of_mem member)
    rcases CliOption.mem_words.mp isText with rfl | isParam
    · rw [option.isOperand_word, not_or, not_not]
      exact ⟨noParams option member, notHz⟩
    · rw [noParams option member] at isParam
      exact absurd isParam nofun

/-- Without a number of samples, it stays zero if no parameter is one. -/
theorem hz_of_absent {line : CommandLine} (absent : .hz ∉ line.options.map CliOption.kind) :
    hzAfter 0 (operands line.options) = some line.given.hz ↔ ParamsReadZero line.options := by
  have givenHz : line.given.hz = 0 := by
    rw [given, findSome?_eq_none kind_of_samples? absent]
    rfl
  have zeros := operands_zero_iff line.options
  have noNumber : ∀ samples, .hz samples ∈ line.options → readHz (numeral samples) = 0 :=
    fun samples member => absurd (List.mem_map_of_mem member) absent
  rw [and_iff_left noNumber] at zeros
  rw [givenHz, hzAfter_eq_some, ← zeros]
  constructor
  · rintro (⟨_, all⟩ | ⟨nonzero, _⟩)
    · exact all
    · exact absurd rfl nonzero
  · intro all
    exact Or.inl ⟨rfl, all⟩

/-- There is one number of samples. -/
theorem samples_eq {line : CommandLine} {before behind : List CliOption} {samples other : Nat}
    (isLine : line.options = before ++ .hz samples :: behind)
    (member : .hz other ∈ line.options) :
    other = samples := by
  obtain ⟨notBefore, notBehind⟩ := not_mem_of_split isLine
  rw [isLine] at member
  rcases List.mem_append.mp member with isBefore | isBehind
  · exact absurd (List.mem_map_of_mem isBefore) notBefore
  · rcases List.mem_cons.mp isBehind with same | isBehind
    · exact CliOption.hz.inj same
    · exact absurd (List.mem_map_of_mem isBehind) notBehind

/-- Parameters of some of the options. -/
theorem ParamsReadZero.subset {options others : List CliOption} (zero : ParamsReadZero options)
    (subset : others ⊆ options) : ParamsReadZero others :=
  fun option member => zero option (subset member)

/-- A number of samples that is read as it is given is the last operand. -/
theorem operands_behind_eq_nil {before behind : List CliOption} {samples : Nat}
    (positive : 0 < samples) {first : List Text} {word : Text}
    (isOperands : operands before ++ numeral samples :: operands behind = first ++ [word])
    (zeros : ∀ word ∈ first, readHz word = 0) (small : samples < 2 ^ 31) :
    operands behind = [] := by
  rcases List.eq_nil_or_concat' (operands behind) with isNil | ⟨others, last, isConcat⟩
  · exact isNil
  · -- A number in front of other operands would have to read as zero.
    rw [isConcat, ← List.cons_append, ← List.append_assoc] at isOperands
    obtain ⟨isFirst, _⟩ := List.append_inj' isOperands rfl
    have isZero := zeros (numeral samples) (isFirst ▸ List.mem_append_right _ List.mem_cons_self)
    rw [(readHz_numeral samples).mpr small] at isZero
    omega

section Samples

variable {line : CommandLine} {before behind : List CliOption} {samples : Nat}
  (isLine : line.options = before ++ .hz samples :: behind)

include isLine

/-- The number of samples that is given. -/
theorem hz_given : line.given.hz = samples := by
  rw [given, isLine, findSome?_split kind_of_samples? rfl (not_mem_of_split isLine).1]
  rfl

/-- No samples are read as they are given if no parameter is a number of samples. -/
theorem hz_of_zero (isZero : samples = 0) :
    hzAfter 0 (operands line.options) = some line.given.hz ↔ ParamsReadZero line.options := by
  subst isZero
  have numbers : ∀ samples, .hz samples ∈ line.options → readHz (numeral samples) = 0 := by
    intro samples member
    rw [samples_eq isLine member]
    rfl
  have zeros := operands_zero_iff line.options
  rw [and_iff_left numbers] at zeros
  rw [hz_given isLine, hzAfter_eq_some, ← zeros]
  constructor
  · rintro (⟨_, all⟩ | ⟨nonzero, _⟩)
    · exact all
    · exact absurd rfl nonzero
  · exact fun all => Or.inl ⟨rfl, all⟩

/-- A number of samples is read as it is given if it is an `int`, no parameter is one, and nothing
behind it is taken for one. -/
theorem hz_of_pos (positive : 0 < samples) :
    hzAfter 0 (operands line.options) = some line.given.hz ↔
      samples < 2 ^ 31 ∧ (∀ option ∈ behind, option.param? = none) ∧
        ParamsReadZero line.options := by
  obtain ⟨notBefore, notBehind⟩ := not_mem_of_split isLine
  have noNumber : ∀ samples, .hz samples ∈ before → readHz (numeral samples) = 0 :=
    fun _ member => absurd (List.mem_map_of_mem member) notBefore
  have zerosBefore := operands_zero_iff before
  rw [and_iff_left noNumber] at zerosBefore
  have nonzero : (samples : Int) ≠ 0 := by omega
  rw [hz_given isLine, hzAfter_eq_some, isLine, operands_split]
  constructor
  · rintro (⟨isZero, _⟩ | ⟨_, first, word, isOperands, zeros, isHz⟩)
    · exact absurd isZero nonzero
    have small : samples < 2 ^ 31 := by
      have bound := readHz_lt word
      rw [isHz] at bound
      omega
    have isNil := operands_behind_eq_nil positive isOperands zeros small
    rw [isNil] at isOperands
    obtain ⟨isFirst, _⟩ := List.append_inj' isOperands rfl
    rw [← isFirst, zerosBefore] at zeros
    have noParams := (operands_eq_nil_iff notBehind).mp isNil
    refine ⟨small, noParams, ?_⟩
    intro option member param isParam
    rcases List.mem_append.mp member with isBefore | isRest
    · exact zeros option isBefore param isParam
    · rcases List.mem_cons.mp isRest with rfl | isBehind
      · exact absurd isParam nofun
      · rw [noParams option isBehind] at isParam
        exact absurd isParam nofun
  · rintro ⟨small, noParams, zero⟩
    have isNil := (operands_eq_nil_iff notBehind).mpr noParams
    refine Or.inr ⟨nonzero, operands before, numeral samples, ?_, ?_, ?_⟩
    · rw [isNil]
    · exact zerosBefore.mpr (zero.subset (List.subset_append_left _ _))
    · exact (readHz_numeral samples).mpr small

/-- A number of samples is read as it is given if it is an `int`, no parameter is one, and nothing
behind one that is not zero is taken for one. -/
theorem hz_of_split :
    hzAfter 0 (operands line.options) = some line.given.hz ↔
      samples < 2 ^ 31 ∧ (samples ≠ 0 → ∀ option ∈ behind, option.param? = none) ∧
        ParamsReadZero line.options := by
  rcases Nat.eq_zero_or_pos samples with isZero | positive
  · rw [hz_of_zero isLine isZero]
    constructor
    · exact fun zero => ⟨by omega, fun nonzero => absurd isZero nonzero, zero⟩
    · exact fun conditions => conditions.2.2
  · rw [hz_of_pos isLine positive, forall_prop_of_true positive.ne']

end Samples

/-- The number of samples is read as it is given if it is an `int`, no parameter is one, and behind
one that is not zero nothing is taken for one. -/
theorem hz_iff (line : CommandLine) :
    hzAfter 0 (operands line.options) = some line.given.hz ↔
      (∀ samples, .hz samples ∈ line.options → samples < 2 ^ 31) ∧
        (∀ before samples behind, line.options = before ++ .hz samples :: behind →
          samples ≠ 0 → ∀ option ∈ behind, option.param? = none) ∧
        ParamsReadZero line.options := by
  rcases kind_cases .hz line.options with absent | ⟨option, member, isKind⟩
  · have noNumber : ∀ samples, .hz samples ∉ line.options :=
      fun samples member => absurd (List.mem_map_of_mem member) absent
    rw [hz_of_absent absent]
    constructor
    · intro zero
      refine ⟨fun samples member => absurd member (noNumber samples), ?_, zero⟩
      intro before samples behind isLine
      exact absurd (isLine ▸ List.mem_append_right _ List.mem_cons_self) (noNumber samples)
    · exact fun conditions => conditions.2.2
  · obtain ⟨samples, rfl⟩ := eq_hz_of_kind isKind
    obtain ⟨before, behind, isLine⟩ := List.append_of_mem member
    constructor
    · intro same
      obtain ⟨small, _, zero⟩ := (hz_of_split isLine).mp same
      refine ⟨?_, ?_, zero⟩
      · intro other isOther
        rw [samples_eq isLine isOther]
        exact small
      · intro before samples behind isLine
        exact ((hz_of_split isLine).mp same).2.1
    · rintro ⟨small, last, zero⟩
      exact (hz_of_split isLine).mpr
        ⟨small samples member, last before samples behind isLine, zero⟩

/-! ## All fields -/

/-- The arguments are read as they are given if each field is. -/
theorem readsGiven_iff_fields (line : CommandLine) :
    line.ReadsGiven ↔
      line.words.any isHelp = false ∧
        hzAfter 0 (operands line.options) = some line.given.hz ∧
        line.words.any isConsole = line.given.consoleDebug ∧
        line.words.any isProbe = line.given.probeRunning ∧
        line.words.any isRelative = line.given.relativeTime ∧
        lastParam isDump some none line.words = line.given.dumpPath ∧
        lastParam isUsleep readLong 0 line.words = line.given.usleepTime := by
  rw [ReadsGiven, argumentsParse_eq]
  by_cases help : line.words.any isHelp = true
  · rw [if_pos help, help]
    exact iff_of_false nofun fun fields => absurd fields.1.symm Bool.false_ne_true
  rw [if_neg help, Option.map_eq_some_iff]
  constructor
  · rintro ⟨hz, isHz, same⟩
    have isGiven : hz = line.given.hz := congrArg Arguments.hz same
    refine ⟨Bool.eq_false_iff.mpr help, isGiven ▸ isHz, ?_, ?_, ?_, ?_, ?_⟩
    · exact (Bool.or_false _).symm.trans (congrArg Arguments.consoleDebug same)
    · exact (Bool.or_false _).symm.trans (congrArg Arguments.probeRunning same)
    · exact (Bool.or_false _).symm.trans (congrArg Arguments.relativeTime same)
    · exact congrArg Arguments.dumpPath same
    · exact congrArg Arguments.usleepTime same
  · rintro ⟨_, isHz, console, probe, relative, dump, usleep⟩
    refine ⟨line.given.hz, isHz, ?_⟩
    rw [console, probe, relative]
    change Arguments.mk (line.given.consoleDebug || false) (line.given.probeRunning || false)
      (line.given.relativeTime || false) (lastParam isDump some none line.words)
      (lastParam isUsleep readLong 0 line.words) line.given.hz = line.given
    rw [dump, usleep, Bool.or_false, Bool.or_false, Bool.or_false]

/-- The parameters are times to sleep and paths. -/
theorem paramsReadZero_iff (options : List CliOption) :
    ParamsReadZero options ↔
      (∀ usecs, .usleep usecs ∈ options → readHz (numeral usecs) = 0) ∧
        ∀ long path, .dump long path ∈ options → isOperand path = true → readHz path = 0 := by
  constructor
  · intro zero
    constructor
    · intro usecs member
      exact zero _ member _ rfl (isOperand_numeral usecs)
    · intro long path member
      exact zero _ member _ rfl
  · rintro ⟨times, paths⟩ option member param isParam operand
    match option with
    | .usleep usecs =>
        obtain rfl := Option.some.inj isParam
        exact times usecs member
    | .dump long path =>
        obtain rfl := Option.some.inj isParam
        exact paths long path member operand

/-- The arguments are read as they are given if and only if no word is taken for another than it
is. -/
theorem readsGiven_iff (line : CommandLine) : line.ReadsGiven ↔ line.Unambiguous := by
  rw [readsGiven_iff_fields, hz_iff, dumpPath_iff, usleepTime_iff, paramsReadZero_iff]
  have console := any_words_eq_iff CliOption.isConsole_word isConsole_numeral line.options
  have probe := any_words_eq_iff CliOption.isProbe_word isProbe_numeral line.options
  have relative := any_words_eq_iff CliOption.isRelative_word isRelative_numeral line.options
  have help := any_isHelp_eq_false_iff line.options
  constructor
  · rintro ⟨noHelp, ⟨samples, last, times, paths⟩, isConsole, isProbe, isRelative, dump, small,
      usleep⟩
    constructor
    · exact samples
    · exact last
    · intro usecs member
      exact ⟨small usecs member, (readHz_numeral_eq_zero (small usecs member)).mp
        (times usecs member)⟩
    · exact help.mp noHelp
    · intro long path member
      exact ⟨console.mp isConsole long path member, probe.mp isProbe long path member,
        relative.mp isRelative long path member⟩
    · exact paths
    · exact dump
    · exact usleep
  · intro unambiguous
    have small := fun usecs member => (unambiguous.usecs usecs member).1
    refine ⟨help.mpr unambiguous.notHelp, ⟨unambiguous.samples, unambiguous.last, ?_,
      unambiguous.operand⟩, ?_, ?_, ?_, unambiguous.dump, small, unambiguous.usleep⟩
    · intro usecs member
      exact (readHz_numeral_eq_zero (small usecs member)).mpr (unambiguous.usecs usecs member).2
    · exact console.mpr fun long path member => (unambiguous.plain long path member).1
    · exact probe.mpr fun long path member => (unambiguous.plain long path member).2.1
    · exact relative.mpr fun long path member => (unambiguous.plain long path member).2.2

/-- A time to sleep is taken for a number of samples. -/
theorem not_readsGiven_usleep :
    ¬ReadsGiven { options := [.usleep 100], distinct := by decide } := by
  rw [ReadsGiven]
  decide

/-- An option with a parameter behind a number of samples leads to `usage`. -/
example : argumentsParse argumentsSetDefaults
    (words { options := [.hz 50, .dump true "x".toList], distinct := by decide }) = none := by
  decide

/-- What options give for a kind does not depend on their order. -/
theorem findSome?_perm {α : Type} {get : CliOption → Option α} {kind : CliOption.Kind}
    (ofKind : ∀ option value, get option = some value → option.kind = kind)
    {line other : CommandLine} (perm : other.options.Perm line.options) :
    other.options.findSome? get = line.options.findSome? get := by
  have found : ∀ (line : CommandLine) option value, option ∈ line.options →
      get option = some value → line.options.findSome? get = some value := by
    intro line option value member got
    obtain ⟨before, behind, isLine⟩ := List.append_of_mem member
    have notBefore := (not_mem_of_split isLine).1
    rw [ofKind option value got] at notBefore
    rw [isLine]
    exact findSome?_split ofKind got notBefore
  cases result : line.options.findSome? get with
  | some value =>
      obtain ⟨option, member, got⟩ := List.exists_of_findSome?_eq_some result
      exact found other option value (perm.mem_iff.mpr member) got
  | none =>
      rw [List.findSome?_eq_none_iff] at result ⊢
      intro option member
      exact result option (perm.mem_iff.mp member)

/-- What is given does not depend on the order. -/
theorem given_perm {line other : CommandLine} (perm : other.options.Perm line.options) :
    other.given = line.given := by
  rw [given, given, findSome?_perm kind_of_path? perm, findSome?_perm kind_of_usecs? perm,
    findSome?_perm kind_of_samples? perm]
  congr 1
  · exact perm.any_eq
  · exact perm.any_eq
  · exact perm.any_eq

/-- Two orders in which no word is taken for another give the same arguments. -/
theorem argumentsParse_perm {line other : CommandLine} (perm : other.options.Perm line.options)
    (reads : line.ReadsGiven) (otherReads : other.ReadsGiven) :
    argumentsParse argumentsSetDefaults other.words =
      argumentsParse argumentsSetDefaults line.words := by
  rw [ReadsGiven] at reads otherReads
  rw [reads, otherReads, given_perm perm]

end CommandLine

end Collector
end Bootchart
