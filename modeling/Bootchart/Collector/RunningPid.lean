import Bootchart.Collector.Arguments
import Bootchart.Collector.PidScanner
import Mathlib.Data.List.Infix

/-!
# Finding a running collector

`bootchart_find_running_pid` goes over the directory of processes. It recognises a collector by
the program that runs in it and reads its command line back to tell what it was started for.
-/

namespace Bootchart
namespace Collector

open Library (Text)

/-- The end of a string. -/
def nul : Char := Char.ofNat 0

/-- What there is to see of a process. -/
structure ProcEntry where
  /-- `d_name`. -/
  name : Text
  /-- The target of the link `exe`, if it can be read. -/
  exe : Option Text
  /-- What the file `cmdline` holds, if it can be opened. -/
  cmdline : Option Text

/-- Whether a link leads to a collector, as far as it fits into `link_target`. -/
def isCollector (program target : Text) : Bool :=
  program <:+: target.take (1024 - 1)

/-- The strings that end within a buffer, no more than a number of them. What lies in front of
the buffer since the last end is `word`. -/
def steppedArgs (word : Text) : Nat → Text → List Text
  | 0, _ => []
  | _, [] => []
  | limit + 1, c :: rest =>
      if c = nul then word :: steppedArgs [] limit rest
      else steppedArgs (word ++ [c]) (limit + 1) rest

/-- What is read of a command line. The arguments stay as they were if there is nothing to read;
nothing is returned if `usage` is called. -/
def remoteArguments (args : Arguments) (cmdline : Text) : Option Arguments :=
  match cmdline.take 4095 with
  | [] => some args
  | c :: rest => argumentsParse argumentsSetDefaults (steppedArgs [] 127 (c :: rest)).tail

/-- What one entry of the directory does: the pid, if it is that of another collector, and the
arguments afterwards. Nothing is returned if `usage` is called. -/
def examine (program : Text) (self : Pid) (args : Arguments) (entry : ProcEntry) :
    Option (Option Pid × Arguments) :=
  match entry.exe with
  | none => some (none, args)
  | some target =>
      let pid := atoi entry.name
      if !startsWithDigit entry.name || !isCollector program target || pid = self then
        some (none, args)
      else
        match entry.cmdline with
        | none => some (some pid, args)
        | some cmdline => do
            let remote ← remoteArguments args cmdline
            let harmless := cmdline ≠ [] ∧ remote.usleepTime ≠ 0
            return (if harmless then none else some pid, remote)

/-- `bootchart_find_running_pid`. -/
def bootchartFindRunningPid (program : Text) (self : Pid) (args : Arguments) :
    List ProcEntry → Option (Option Pid × Arguments)
  | [] => some (none, args)
  | entry :: rest =>
      (examine program self args entry).bind fun
        | (some pid, args) => some (some pid, args)
        | (none, args) => bootchartFindRunningPid program self args rest

/-! ## Command lines -/

/-- What `/proc` shows of the words a process was started with. -/
def procCmdline (words : List Text) : Text :=
  words.flatMap fun word => word ++ [nul]

/-- The words at the front that fit into a number of bytes with their ends. -/
def wholeWords : Nat → List Text → List Text
  | _, [] => []
  | size, word :: rest =>
      if word.length + 1 ≤ size then word :: wholeWords (size - (word.length + 1)) rest else []

/-- Bytes without an end hold no string. -/
theorem steppedArgs_of_not_mem {text : Text} (endless : nul ∉ text) (word : Text) (limit : Nat) :
    steppedArgs word limit text = [] := by
  induction text generalizing word with
  | nil => cases limit <;> rfl
  | cons c text inductionHypothesis =>
      rw [List.mem_cons, not_or] at endless
      cases limit with
      | zero => rfl
      | succ limit =>
          rw [steppedArgs, if_neg (Ne.symm endless.1)]
          exact inductionHypothesis endless.2 _

/-- A string is read up to its end. -/
theorem steppedArgs_append {text : Text} (endless : nul ∉ text) (word : Text) (limit : Nat)
    (rest : Text) :
    steppedArgs word (limit + 1) (text ++ nul :: rest) =
      (word ++ text) :: steppedArgs [] limit rest := by
  induction text generalizing word with
  | nil => rw [List.nil_append, List.append_nil, steppedArgs, if_pos rfl]
  | cons c text inductionHypothesis =>
      rw [List.mem_cons, not_or] at endless
      rw [List.cons_append, steppedArgs, if_neg (Ne.symm endless.1), inductionHypothesis endless.2,
        List.append_assoc, List.singleton_append]

/-- The words that are read are those that are whole. -/
theorem steppedArgs_procCmdline {words : List Text} (endless : ∀ word ∈ words, nul ∉ word)
    (limit size : Nat) :
    steppedArgs [] limit ((procCmdline words).take size) = (wholeWords size words).take limit := by
  induction words generalizing limit size with
  | nil =>
      rw [procCmdline, List.flatMap_nil, List.take_nil]
      cases limit <;> rfl
  | cons word words inductionHypothesis =>
      rw [List.forall_mem_cons] at endless
      have split : procCmdline (word :: words) = word ++ nul :: procCmdline words := by
        rw [procCmdline, List.flatMap_cons, List.append_assoc, List.singleton_append, procCmdline]
      rw [split, wholeWords]
      by_cases fits : word.length + 1 ≤ size
      · have cut : (word ++ nul :: procCmdline words).take size =
            word ++ nul :: (procCmdline words).take (size - (word.length + 1)) := by
          obtain ⟨more, rfl⟩ := Nat.exists_eq_add_of_le fits
          rw [List.take_append, List.take_of_length_le (by omega),
            show word.length + 1 + more - word.length = more + 1 by omega, List.take_succ_cons,
            Nat.add_sub_cancel_left]
        rw [cut, if_pos fits]
        cases limit with
        | zero => rw [List.take_zero, steppedArgs]
        | succ limit =>
            rw [steppedArgs_append endless.1, List.nil_append, List.take_succ_cons,
              inductionHypothesis endless.2]
      · have cut : (word ++ nul :: procCmdline words).take size = word.take size :=
          List.take_append_of_le_length (by omega)
        rw [cut, if_neg fits, List.take_nil]
        exact steppedArgs_of_not_mem (fun member => endless.1 (List.mem_of_mem_take member)) [] limit

/-- All words are whole if there is room for all. -/
theorem wholeWords_of_length_le {words : List Text} {size : Nat}
    (fits : (procCmdline words).length ≤ size) :
    wholeWords size words = words := by
  induction words generalizing size with
  | nil => rfl
  | cons word words inductionHypothesis =>
      rw [procCmdline, List.flatMap_cons, List.length_append, List.length_append,
        List.length_singleton] at fits
      rw [wholeWords, if_pos (by omega), inductionHypothesis]
      rw [procCmdline]
      omega

/-- The arguments that a process finds itself. -/
def ownArguments (words : List Text) : Option Arguments :=
  argumentsParse argumentsSetDefaults words.tail

/-- What is read of a command line is the whole words of it, as far as there are pointers. -/
theorem remoteArguments_procCmdline (args : Arguments) {words : List Text}
    (named : words ≠ []) (endless : ∀ word ∈ words, nul ∉ word) :
    remoteArguments args (procCmdline words) = ownArguments ((wholeWords 4095 words).take 127) := by
  rw [ownArguments, ← steppedArgs_procCmdline endless, remoteArguments]
  cases read : (procCmdline words).take 4095 with
  | nil =>
      obtain ⟨word, rest, rfl⟩ := List.exists_cons_of_ne_nil named
      rw [List.take_eq_nil_iff, procCmdline, List.flatMap_cons, List.append_eq_nil_iff,
        List.append_eq_nil_iff] at read
      simp at read
  | cons c rest => rfl

/-- The command line is read whole. -/
def Readable (words : List Text) : Prop :=
  (procCmdline words).length ≤ 4095 ∧ words.length ≤ 127

instance (words : List Text) : Decidable (Readable words) :=
  inferInstanceAs (Decidable (_ ∧ _))

/-- A command line that is read whole gives the arguments that the process found itself. -/
theorem remoteArguments_of_readable (args : Arguments) {words : List Text}
    (named : words ≠ []) (endless : ∀ word ∈ words, nul ∉ word) (readable : Readable words) :
    remoteArguments args (procCmdline words) = ownArguments words := by
  rw [remoteArguments_procCmdline args named endless, wholeWords_of_length_le readable.1,
    List.take_of_length_le readable.2]

/-! ## Running processes -/

/-- A process as `/proc` shows it. -/
structure Running where
  /-- The pid. -/
  pid : Nat
  /-- The program. -/
  exe : Text
  /-- The words it was started with. -/
  words : List Text
  /-- The first of them is its name. -/
  named : words ≠ []
  /-- They are strings. -/
  endless : ∀ word ∈ words, nul ∉ word

namespace Running

/-- The entry of a process. -/
def entry (process : Running) : ProcEntry where
  name := numeral process.pid
  exe := some process.exe
  cmdline := some (procCmdline process.words)

/-- Another process that runs the collector. -/
def IsOther (program : Text) (self : Pid) (process : Running) : Prop :=
  isCollector program process.exe ∧ (process.pid : Pid) ≠ self

instance (program : Text) (self : Pid) (process : Running) :
    Decidable (process.IsOther program self) :=
  inferInstanceAs (Decidable (_ ∧ _))

/-- The number that `atoi` makes of digits. -/
theorem foldl_digits {digits : Text} (plain : ∀ c ∈ digits, c.isDigit = true) (value : Nat) :
    digits.foldl (fun (value : Pid) digit => 10 * value + (digit.toNat - '0'.toNat)) value =
      Nat.ofDigitChars 10 digits value := by
  induction digits generalizing value with
  | nil => rfl
  | cons c digits inductionHypothesis =>
      rw [List.forall_mem_cons] at plain
      have code := Library.Text.toNat_of_isDigit plain.1
      have next : 10 * (value : Pid) + ((c.toNat : Pid) - ('0'.toNat : Pid)) =
          (10 * value + (c.toNat - '0'.toNat) : Nat) := by
        change 10 * (value : Int) + ((c.toNat : Int) - 48) = ((10 * value + (c.toNat - 48) : Nat) : Int)
        omega
      rw [List.foldl_cons, next, inductionHypothesis plain.2, Nat.ofDigitChars_cons]

/-- The pid of an entry. -/
theorem atoi_numeral (pid : Nat) : atoi (numeral pid) = pid := by
  have plain : ∀ c ∈ numeral pid, c.isDigit = true := fun c member => isDigit_of_mem_numeral member
  rw [atoi, List.takeWhile_eq_self_iff.mpr plain]
  have number := foldl_digits plain 0
  rwa [numeral, Nat.ofDigitChars_ten_toDigits] at number

/-- The command line of a process is not empty. -/
theorem procCmdline_ne_nil (process : Running) : procCmdline process.words ≠ [] := by
  obtain ⟨word, rest, split⟩ := List.exists_cons_of_ne_nil process.named
  rw [split, procCmdline, List.flatMap_cons, List.append_assoc]
  exact List.append_ne_nil_of_right_ne_nil word (List.cons_ne_nil _ _)

/-- What the entry of a process does. -/
theorem examine_entry (program : Text) (self : Pid) (args : Arguments) (process : Running) :
    examine program self args process.entry =
      if process.IsOther program self then
        (remoteArguments args (procCmdline process.words)).map fun remote =>
          (if remote.usleepTime ≠ 0 then none else some (process.pid : Pid), remote)
      else some (none, args) := by
  have isNumber : startsWithDigit process.entry.name = true := by
    obtain ⟨c, rest, isNumeral, isDigit⟩ := numeral_cons process.pid
    rw [entry, startsWithDigit, isNumeral, List.head?_cons, Option.any_some, isDigit]
  have isPid : atoi process.entry.name = process.pid := atoi_numeral process.pid
  rw [examine, isNumber, isPid]
  by_cases other : process.IsOther program self
  · have skips : ¬(!true || !isCollector program process.exe ||
        decide ((process.pid : Pid) = self)) = true := by
      simp [other.1, other.2]
    rw [if_pos other]
    dsimp only [entry]
    rw [if_neg skips]
    cases remoteArguments args (procCmdline process.words) with
    | none => rfl
    | some remote => simp [process.procCmdline_ne_nil]
  · have skips : (!true || !isCollector program process.exe ||
        decide ((process.pid : Pid) = self)) = true := by
      rw [IsOther, not_and_or, not_not] at other
      simpa using other
    rw [if_neg other]
    dsimp only [entry]
    rw [if_pos skips]

/-- Another process that runs the collector, and does not sleep. -/
def answers (program : Text) (self : Pid) (process : Running) : Bool :=
  process.IsOther program self && (ownArguments process.words).any (·.usleepTime = 0)

/-- The arguments of the last other collector among some processes, if there is one. -/
def lastArguments (program : Text) (self : Pid) (args : Arguments) (processes : List Running) :
    Arguments :=
  ((processes.filter (·.IsOther program self)).getLast?.bind (ownArguments ·.words)).getD args

/-- Processes that are not other collectors leave nothing behind. -/
theorem lastArguments_cons_of_not {program : Text} {self : Pid} {process : Running}
    (notOther : ¬process.IsOther program self) (args : Arguments) (processes : List Running) :
    lastArguments program self args (process :: processes) =
      lastArguments program self args processes := by
  rw [lastArguments, List.filter_cons_of_neg (by simpa using notOther), lastArguments]

/-- Another collector leaves its arguments behind for the processes after it. -/
theorem lastArguments_cons_of_other {program : Text} {self : Pid} {process : Running}
    (other : process.IsOther program self) {own : Arguments}
    (isOwn : ownArguments process.words = some own) (args : Arguments)
    {processes : List Running}
    (accepted : ∀ process ∈ processes, process.IsOther program self →
      (ownArguments process.words).isSome) :
    lastArguments program self args (process :: processes) =
      lastArguments program self own processes := by
  rw [lastArguments, List.filter_cons_of_pos (by simpa using other), lastArguments]
  cases others : (processes.filter (·.IsOther program self)).getLast? with
  | none =>
      rw [List.getLast?_eq_none_iff] at others
      rw [others, List.getLast?_singleton, Option.bind_some, isOwn]
      rfl
  | some last =>
      have member := List.mem_filter.mp (List.mem_of_getLast? others)
      obtain ⟨lastOwn, isLastOwn⟩ := Option.isSome_iff_exists.mp
        (accepted last member.1 (by simpa using member.2))
      rw [List.getLast?_cons, others, Option.getD_some, Option.bind_some, isLastOwn]
      rfl

/-- The first other collector that does not sleep is found, with its own arguments. -/
theorem bootchartFindRunningPid_map_entry
    (program : Text)
    (self : Pid)
    (args : Arguments)
    (processes : List Running)
    (readable : ∀ process ∈ processes, Readable process.words)
    (accepted : ∀ process ∈ processes, process.IsOther program self →
      (ownArguments process.words).isSome) :
    bootchartFindRunningPid program self args (processes.map entry) =
      match processes.find? (answers program self) with
      | some process => (ownArguments process.words).map fun own => (some (process.pid : Pid), own)
      | none => some (none, lastArguments program self args processes) := by
  induction processes generalizing args with
  | nil => rfl
  | cons process processes inductionHypothesis =>
      rw [List.forall_mem_cons] at readable accepted
      rw [List.map_cons, bootchartFindRunningPid, examine_entry]
      by_cases other : process.IsOther program self
      · obtain ⟨own, isOwn⟩ := Option.isSome_iff_exists.mp (accepted.1 other)
        rw [if_pos other, remoteArguments_of_readable args process.named process.endless readable.1,
          isOwn, Option.map_some, Option.bind_some]
        by_cases asleep : own.usleepTime = 0
        · have isAnswer : answers program self process = true := by
            simp [answers, other, isOwn, asleep]
          rw [if_neg (not_not.mpr asleep), List.find?_cons_of_pos isAnswer]
          simp only [isOwn, Option.map_some]
        · have noAnswer : ¬answers program self process = true := by
            simp [answers, isOwn, asleep]
          rw [if_pos asleep, List.find?_cons_of_neg noAnswer,
            lastArguments_cons_of_other other isOwn args accepted.2]
          exact inductionHypothesis own readable.2 accepted.2
      · have noAnswer : ¬answers program self process = true := by
          simp [answers, other]
        rw [if_neg other, Option.bind_some, List.find?_cons_of_neg noAnswer,
          lastArguments_cons_of_not other]
        exact inductionHypothesis args readable.2 accepted.2

/-- An entry is passed over whatever its command line: it is no process, or its program cannot be
read or is not the collector. -/
def isPassedOver (program : Text) (entry : ProcEntry) : Bool :=
  !startsWithDigit entry.name || !entry.exe.any (isCollector program ·)

/-- Such an entry leaves nothing behind. -/
theorem examine_of_isPassedOver {program : Text} {entry : ProcEntry}
    (passed : isPassedOver program entry = true) (self : Pid) (args : Arguments) :
    examine program self args entry = some (none, args) := by
  rw [isPassedOver] at passed
  rw [examine]
  cases isExe : entry.exe with
  | none => rfl
  | some target =>
      rw [isExe, Option.any_some] at passed
      exact if_pos (by rw [passed, Bool.true_or])

/-- Such entries do not matter. -/
theorem bootchartFindRunningPid_filter (program : Text) (self : Pid) (args : Arguments)
    (entries : List ProcEntry) :
    bootchartFindRunningPid program self args (entries.filter (!isPassedOver program ·)) =
      bootchartFindRunningPid program self args entries := by
  induction entries generalizing args with
  | nil => rfl
  | cons entry entries inductionHypothesis =>
      by_cases passed : isPassedOver program entry = true
      · rw [List.filter_cons_of_neg (by simp [passed]), inductionHypothesis,
          bootchartFindRunningPid, examine_of_isPassedOver passed, Option.bind_some]
      · rw [List.filter_cons_of_pos (by simp [passed]), bootchartFindRunningPid,
          bootchartFindRunningPid]
        congr 1
        funext result
        split
        · rfl
        · exact inductionHypothesis _

/-- Among any entries, the first other collector that does not sleep is found, with its own
arguments. -/
theorem bootchartFindRunningPid_of_filter
    (program : Text)
    (self : Pid)
    (args : Arguments)
    (entries : List ProcEntry)
    (processes : List Running)
    (listed : entries.filter (!isPassedOver program ·) = processes.map entry)
    (readable : ∀ process ∈ processes, Readable process.words)
    (accepted : ∀ process ∈ processes, process.IsOther program self →
      (ownArguments process.words).isSome) :
    bootchartFindRunningPid program self args entries =
      match processes.find? (answers program self) with
      | some process => (ownArguments process.words).map fun own => (some (process.pid : Pid), own)
      | none => some (none, lastArguments program self args processes) := by
  rw [← bootchartFindRunningPid_filter, listed]
  exact bootchartFindRunningPid_map_entry program self args processes readable accepted

end Running

/-- The name of the program, as it is built by default. -/
def collectorName : Text :=
  "bootchart-collector".toList

/-- A process that was started as a collector, with a number of samples. -/
def samplingCollector (pid : Nat) : Running where
  pid := pid
  exe := "/lib/bootchart/bootchart-collector".toList
  words := ["bootchart-collector".toList, "50".toList]
  named := List.cons_ne_nil _ _
  endless := by decide +kernel

/-- A collector that was started to sleep. -/
def sleepingCollector (pid : Nat) : Running :=
  { samplingCollector pid with
    words := ["bootchart-collector".toList, "--usleep".toList, "9".toList]
    named := List.cons_ne_nil _ _
    endless := by decide +kernel }

/-- A thread of the kernel, whose link cannot be read. -/
def kernelThread (pid : Nat) : ProcEntry where
  name := numeral pid
  exe := none
  cmdline := some []

/-- Another program. -/
def otherProgram (pid : Nat) : ProcEntry where
  name := numeral pid
  exe := some "/bin/sh".toList
  cmdline := none

theorem bootchartFindRunningPid_of_three :
    bootchartFindRunningPid collectorName 7 argumentsSetDefaults
        [{ kernelThread 0 with name := "sys".toList }, kernelThread 2, otherProgram 3,
          (sleepingCollector 5).entry, (samplingCollector 7).entry, otherProgram 8,
          (samplingCollector 9).entry] =
      some (some 9, { argumentsSetDefaults with hz := 50 }) := by
  rw [Running.bootchartFindRunningPid_of_filter collectorName 7 argumentsSetDefaults _
    [sleepingCollector 5, samplingCollector 7, samplingCollector 9]]
  · decide +kernel
  · rfl
  · simp only [List.forall_mem_cons, List.not_mem_nil, false_implies, implies_true, and_true]
    decide +kernel
  · simp only [List.forall_mem_cons, List.not_mem_nil, false_implies, implies_true, and_true]
    decide +kernel

end Collector
end Bootchart
