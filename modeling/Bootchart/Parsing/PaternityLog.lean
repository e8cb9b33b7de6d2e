import Bootchart.Collector.NetlinkLive
import Bootchart.Collector.OutputRun
import Bootchart.Parsing.BlockText
import Bootchart.Parsing.DiskNames
import Bootchart.Parsing.ParentMap

/-!
# The log of parents

The listener thread writes a line for each process that it hears of, and `_parse_paternity_log`
reads the lines back. If the log is cut, its last line may lack some of its end; that is not
always noticed.
-/

namespace Bootchart

open Library (Text Dict)
open Library.Text (decimal readInt readNat unlines isSpace)
open Library.Utf8 (encode)

namespace Collector

/-- `dump_paternity`. -/
def dumpPaternity (pid ppid : Pid) : Bytes :=
  encode (Library.Text.decimal pid ++ ' ' :: (Library.Text.decimal ppid ++ ['\n']))

namespace NetLinkPidScanner

/-- What `pid_event_cb` has written for the pairs handed to `pid_scanner_emit_paternity`. -/
def paternityLog (nls : NetLinkPidScanner) : Bytes :=
  nls.paternity.flatMap fun (pid, ppid) => dumpPaternity pid ppid

/-- The pair that is handed over for an event. -/
def created : ProcEvent → Option (Pid × Pid)
  | .fork _ parentTgid childPid childTgid =>
      if childPid = childTgid then some (childTgid, parentTgid) else none
  | _ => none

/-- Whatever happens besides, the pairs are those of the forks, in their order. -/
theorem paternity_after (nls : NetLinkPidScanner) (actions : List NetlinkAction) :
    (nls.after actions).paternity = nls.paternity ++ (newsOf actions).filterMap created := by
  induction actions using List.reverseRecOn with
  | nil => exact (List.append_nil _).symm
  | append_singleton actions action inductionHypothesis =>
      rw [after_snoc, newsOf_append, List.filterMap_append, ← List.append_assoc,
        ← inductionHypothesis]
      cases action with
      | news ev =>
          cases ev with
          | fork parentPid parentTgid childPid childTgid =>
              by_cases leader : childPid = childTgid
              · simp [step, handleNews, newsOf, created, leader]
              · simp [step, handleNews, newsOf, created, leader]
          | exit processPid processTgid => simp [step, handleNews, newsOf, created]
          | exec processPid => simp [step, handleNews, newsOf, created]
          | other what => simp [step, handleNews, newsOf, created]
      | bootstrap pid tpids => exact (List.append_nil _).symm
      | restart => exact (List.append_nil _).symm

/-- The parents of a process among the pairs are those of its forks. -/
theorem filterMap_created (pid : Pid) (stream : List ProcEvent) :
    ((stream.filterMap created).filter (·.1 = pid)).map (·.2) =
      stream.filterMap (forkParent pid) := by
  induction stream with
  | nil => rfl
  | cons ev stream inductionHypothesis =>
      rw [List.filterMap_cons, List.filterMap_cons, ← inductionHypothesis]
      cases ev with
      | fork parentPid parentTgid childPid childTgid =>
          by_cases leader : childPid = childTgid
          · by_cases same : childTgid = pid
            · simp [created, forkParent, leader, same]
            · simp [created, forkParent, leader, same, Ne.symm same]
          · simp [created, forkParent, leader]
      | exit processPid processTgid => rfl
      | exec processPid => rfl
      | other what => rfl

end NetLinkPidScanner
end Collector

namespace Parsing

open Library (run)
open Collector (Pid dumpPaternity NetLinkPidScanner NetlinkAction newsOf lastForkParent Action
  Buffers Client Call passed ValidNames Consistent totalChunks chunkSlots dumpBuffers
  dumpBuffers_eq)
open Collector.NetLinkPidScanner (created)

/-- A child and its parent. -/
abbrev Paternity := Pid × Pid

/-- The line of a pair, without its end. -/
def pairLine (pair : Paternity) : Text :=
  decimal pair.1 ++ ' ' :: decimal pair.2

/-- The log of some pairs. -/
def paternityLog (pairs : List Paternity) : Bytes :=
  pairs.flatMap fun (pid, ppid) => dumpPaternity pid ppid

/-- The parents that some pairs tell: later ones replace earlier ones. -/
def parents (pairs : List Paternity) : ParentMap :=
  pairs.foldl (fun parentMap pair => parentMap.set pair.1 pair.2) (Dict.empty.set 0 0)

/-- The parent of a process is that of its last pair, and zero has the parent zero. -/
theorem get?_parents (pairs : List Paternity) (child : Int) :
    (parents pairs).get? child =
      (((pairs.filter (·.1 = child)).map (·.2)).getLast?).or
        (if child = 0 then some 0 else none) := by
  induction pairs using List.reverseRecOn with
  | nil =>
      rw [parents, List.foldl_nil, Dict.get?_set]
      rfl
  | append_singleton pairs pair inductionHypothesis =>
      rw [parents, List.foldl_append, List.foldl_cons, List.foldl_nil, Dict.get?_set]
      by_cases same : child = pair.1
      · simp [same]
      · rw [if_neg same]
        have other : ¬pair.1 = child := fun equal => same equal.symm
        simpa [parents, other] using inductionHypothesis

/-- The log as a text. -/
theorem paternityLog_eq (pairs : List Paternity) :
    paternityLog pairs = encode (unlines (pairs.map pairLine)) := by
  induction pairs with
  | nil => rfl
  | cons pair pairs inductionHypothesis =>
      rw [paternityLog, List.flatMap_cons, ← paternityLog, inductionHypothesis, List.map_cons,
        unlines_cons]
      change encode (_ ++ _ :: (_ ++ _)) ++ _ = _
      rw [← Library.Utf8.encode_append, pairLine]
      simp

/-- A line consists of digits, signs and a space. -/
theorem ascii_pairLine (pair : Paternity) : ∀ c ∈ pairLine pair, c.toNat < 128 := by
  intro c member
  rcases List.mem_append.mp member with inPid | rest
  · exact Library.Text.ascii_decimal _ c inPid
  · rcases List.mem_cons.mp rest with rfl | inPpid
    · decide
    · exact Library.Text.ascii_decimal _ c inPpid

/-- A line has no line end. -/
theorem isLine_pairLine (pair : Paternity) : IsLine (pairLine pair) := by
  refine ⟨List.append_ne_nil_of_left_ne_nil (Library.Text.decimal_ne_nil _) _, ?_⟩
  have noEnd : ∀ number : Int, '\n' ∉ decimal number := fun number =>
    Library.Text.not_mem_decimal (by decide) (by decide) number
  simp [pairLine, noEnd]

/-! ## Reading lines -/

/-- A line, or a part of one that reaches behind the space. -/
theorem splitOn_line (pid : Int) {rest : Text} (noSpace : ' ' ∉ rest) :
    (decimal pid ++ ' ' :: rest).splitOn ' ' = [decimal pid, rest] := by
  have joined : decimal pid ++ ' ' :: rest = [' '].intercalate [decimal pid, rest] := by
    simp
  rw [joined]
  refine List.splitOn_intercalate ' ' ?_ (by simp)
  intro part member
  rcases List.mem_cons.mp member with rfl | isRest
  · exact Library.Text.not_mem_decimal (by decide) (by decide) pid
  · rw [List.mem_singleton.mp isRest]
    exact noSpace

/-- A line, or a part of one that reaches behind the space, sets a parent if there is a number. -/
theorem paternityLine_line (parentMap : ParentMap) (pid : Int) {rest : Text}
    (noSpace : ' ' ∉ rest) :
    paternityLine parentMap (decimal pid ++ ' ' :: rest) =
      (int rest).map fun ppid => parentMap.set pid ppid := by
  have nonempty : decimal pid ++ ' ' :: rest ≠ [] := List.append_ne_nil_of_right_ne_nil _ (by simp)
  rw [paternityLine, if_neg nonempty, splitOn_line pid noSpace]
  simp only [int, Library.Text.readInt_decimal]
  cases readInt rest <;> rfl

/-- A line sets a parent. -/
theorem paternityLine_pairLine (parentMap : ParentMap) (pair : Paternity) :
    paternityLine parentMap (pairLine pair) = .ok (parentMap.set pair.1 pair.2) := by
  rw [pairLine, paternityLine_line parentMap pair.1
    (Library.Text.not_mem_decimal (by decide) (by decide) pair.2), int,
    Library.Text.readInt_decimal]
  rfl

/-- A part of a line that does not reach the space is skipped. -/
theorem paternityLine_of_noSpace (parentMap : ParentMap) {part : Text} (noSpace : ' ' ∉ part) :
    paternityLine parentMap part = .ok parentMap := by
  rw [paternityLine]
  split
  · rfl
  · have alone : ∀ other ∈ [part], ' ' ∉ other := fun other member => by
      rw [List.mem_singleton.mp member]
      exact noSpace
    have single : part.splitOn ' ' = [part] := by
      simpa using List.splitOn_intercalate ' ' alone (List.cons_ne_nil _ _)
    rw [single]

/-- Lines set the parents that they tell. -/
theorem foldlM_paternityLine (pairs : List Paternity) (parentMap : ParentMap) :
    (pairs.map pairLine).foldlM paternityLine parentMap =
      .ok (pairs.foldl (fun parentMap pair => parentMap.set pair.1 pair.2) parentMap) := by
  induction pairs generalizing parentMap with
  | nil => rfl
  | cons pair pairs inductionHypothesis =>
      rw [List.map_cons, List.foldlM_cons, paternityLine_pairLine]
      exact inductionHypothesis _

/-- Whole lines and a part of one more. -/
theorem parsePaternityLog_append (pairs : List Paternity) {part : Text} (noEnd : '\n' ∉ part) :
    parsePaternityLog (paternityLog pairs ++ encode part) =
      paternityLine (parents pairs) part := by
  have areLines : ∀ line ∈ pairs.map pairLine, IsLine line := by
    intro line member
    obtain ⟨pair, -, rfl⟩ := List.mem_map.mp member
    exact isLine_pairLine pair
  rw [parsePaternityLog, paternityLog_eq, ← Library.Utf8.encode_append, decodeUtf8,
    Library.Utf8.decode_encode]
  change ((unlines (pairs.map pairLine) ++ part).splitOn '\n').foldlM paternityLine _ = _
  rw [splitOn_unlines_append areLines noEnd, List.foldlM_append, foldlM_paternityLine]
  change (paternityLine (parents pairs) part >>= fun parentMap => .ok parentMap) = _
  cases paternityLine (parents pairs) part <;> rfl

/-! ## Cut logs -/

/-- The value of digits. -/
theorem readInt_digits {digits : Text} (nonempty : digits ≠ [])
    (plain : ∀ c ∈ digits, c.isDigit = true) :
    readInt digits = some (Nat.ofDigitChars 10 digits 0 : Nat) := by
  have unspaced : ∀ c ∈ digits, isSpace c = false := fun c member =>
    Library.Text.isSpace_of_isDigit (plain c member)
  have stripped : Library.Text.strip digits = digits := by
    rw [Library.Text.strip, Library.Text.stripBy_eq_self]
    constructor
    · intro c isHead
      rw [unspaced c (List.mem_of_mem_head? isHead)]
      exact Bool.false_ne_true
    · intro c isLast
      rw [unspaced c (List.mem_of_mem_getLast? isLast)]
      exact Bool.false_ne_true
  obtain ⟨c, digits, rfl⟩ := List.exists_cons_of_ne_nil nonempty
  have isDigit := plain c List.mem_cons_self
  have value : readNat (c :: digits) = some (Nat.ofDigitChars 10 (c :: digits) 0) := by
    rw [readNat, Library.Text.digitValue_of_isDigit isDigit, Option.bind_some,
      Library.Text.readDigits_eq fun c member => plain c (List.mem_cons_of_mem _ member),
      Nat.ofDigitChars_cons, Nat.mul_zero, Nat.zero_add]
  rw [readInt, stripped]
  split
  next same =>
    obtain ⟨rfl, -⟩ := List.cons.inj same
    exact absurd isDigit (by decide)
  next same =>
    obtain ⟨rfl, -⟩ := List.cons.inj same
    exact absurd isDigit (by decide)
  next =>
    rw [value]
    rfl

/-- Digits have a value below a power of ten. -/
theorem ofDigitChars_lt {digits : Text} (plain : ∀ c ∈ digits, c.isDigit = true) :
    Nat.ofDigitChars 10 digits 0 < 10 ^ digits.length := by
  induction digits with
  | nil => simp
  | cons c digits inductionHypothesis =>
      rw [List.forall_mem_cons] at plain
      have code := Library.Text.toNat_of_isDigit plain.1
      have small : c.toNat - '0'.toNat ≤ 9 := by
        change c.toNat - 48 ≤ 9
        omega
      have rest := inductionHypothesis plain.2
      rw [Nat.ofDigitChars_cons, Nat.ofDigitChars_eq_ofDigitChars_zero, List.length_cons,
        Nat.pow_succ, Nat.mul_zero, Nat.zero_add]
      have scaled := Nat.mul_le_mul_left (10 ^ digits.length) small
      omega

/-- The first digits of a number are a number. -/
theorem ofDigitChars_take (number count : Nat) :
    Nat.ofDigitChars 10 ((Nat.toDigits 10 number).take count) 0 =
      number / 10 ^ ((Nat.toDigits 10 number).length - count) := by
  have plain : ∀ c ∈ (Nat.toDigits 10 number).drop count, c.isDigit = true := fun c member =>
    Nat.isDigit_of_mem_toDigits (by decide) (by decide) (List.mem_of_mem_drop member)
  have whole := Nat.ofDigitChars_ten_toDigits (n := number)
  rw [← List.take_append_drop count (Nat.toDigits 10 number), Nat.ofDigitChars_append,
    Nat.ofDigitChars_eq_ofDigitChars_zero, List.length_drop, Nat.mul_comm] at whole
  have small := ofDigitChars_lt plain
  rw [List.length_drop] at small
  exact (Nat.div_eq_of_lt_le (by omega) (by rw [Nat.succ_mul]; omega)).symm

/-- Some of the first digits of a number, read back. -/
theorem int_take_decimal (number : Nat) {count : Nat} (some : 0 < count) :
    int ((decimal (number : Int)).take count) =
      .ok ((number / 10 ^ ((decimal (number : Int)).length - count) : Nat) : Int) := by
  rw [decimal_natCast]
  have nonempty : (Nat.toDigits 10 number).take count ≠ [] := by
    rw [Ne, List.take_eq_nil_iff]
    rintro (none | empty)
    · omega
    · exact Nat.toDigits_ne_nil empty
  have plain : ∀ c ∈ (Nat.toDigits 10 number).take count, c.isDigit = true := fun c member =>
    Nat.isDigit_of_mem_toDigits (by decide) (by decide) (List.mem_of_mem_take member)
  rw [int, readInt_digits nonempty plain, ofDigitChars_take]
  rfl

/-- How long the line of a pair is, its end included. -/
def lineLength (pair : Paternity) : Nat :=
  (decimal pair.1).length + 1 + (decimal pair.2).length + 1

/-- What the first `length` characters of a line tell, if they are not all of it: nothing, as long
as the space is missing; then there is no number; then each digit that is missing has divided the
parent by ten. -/
def cutPair (parentMap : ParentMap) (pair : Paternity) (length : Nat) :
    Except Exception ParentMap :=
  let behind := (decimal pair.1).length + 1
  if length < behind then .ok parentMap
  else if length = behind then .error .valueError
  else
    let missing := lineLength pair - 1 - length
    .ok (parentMap.set pair.1 (pair.2.toNat / 10 ^ missing : Nat))

/-- What the first `length` bytes of a log tell: the parents of the whole lines, and what is to be
had from the line that is cut. -/
def cutParents (parentMap : ParentMap) : List Paternity → Nat → Except Exception ParentMap
  | [], _ => .ok parentMap
  | pair :: pairs, length =>
      if lineLength pair ≤ length then
        cutParents (parentMap.set pair.1 pair.2) pairs (length - lineLength pair)
      else cutPair parentMap pair length

/-- A line as it is written. -/
theorem length_dumpPaternity (pair : Paternity) :
    (dumpPaternity pair.1 pair.2).length = lineLength pair := by
  have isLine : dumpPaternity pair.1 pair.2 = encode (pairLine pair) ++ encode ['\n'] := by
    rw [← Library.Utf8.encode_append, pairLine, List.append_assoc]
    rfl
  rw [isLine, List.length_append, Library.Utf8.length_encode (ascii_pairLine pair), pairLine,
    List.length_append, List.length_cons, lineLength]
  change _ + (_ + 1) + 1 = _
  omega

/-- The bytes of a line that is cut are those of its first characters. -/
theorem take_dumpPaternity (pair : Paternity) {length : Nat} (short : length < lineLength pair) :
    (dumpPaternity pair.1 pair.2).take length = encode ((pairLine pair).take length) := by
  have isLine : dumpPaternity pair.1 pair.2 = encode (pairLine pair) ++ encode ['\n'] := by
    rw [← Library.Utf8.encode_append, pairLine, List.append_assoc]
    rfl
  have within : length ≤ (encode (pairLine pair)).length := by
    rw [Library.Utf8.length_encode (ascii_pairLine pair), pairLine, List.length_append,
      List.length_cons]
    rw [lineLength] at short
    omega
  rw [isLine, List.take_append_of_le_length within, Library.Utf8.take_encode (ascii_pairLine pair)]

/-- What is read from a line that is cut. -/
theorem paternityLine_take
    (parentMap : ParentMap)
    (pair : Paternity)
    (natural : 0 ≤ pair.2)
    {length : Nat}
    (short : length < lineLength pair) :
    paternityLine parentMap ((pairLine pair).take length) = cutPair parentMap pair length := by
  obtain ⟨ppid, isPpid⟩ := Int.eq_ofNat_of_zero_le natural
  have noSpace : ∀ number : Int, ' ' ∉ decimal number := fun number =>
    Library.Text.not_mem_decimal (by decide) (by decide) number
  simp only [cutPair]
  split
  next early =>
    apply paternityLine_of_noSpace
    rw [pairLine, List.take_append_of_le_length (by omega)]
    exact fun member => noSpace pair.1 (List.mem_of_mem_take member)
  next late =>
    obtain ⟨count, rfl⟩ : ∃ count, length = (decimal pair.1).length + (count + 1) :=
      ⟨length - (decimal pair.1).length - 1, by omega⟩
    rw [pairLine, List.take_length_add_append, List.take_succ_cons, paternityLine_line _ _
      fun member => noSpace _ (List.mem_of_mem_take member)]
    cases count with
    | zero =>
        rw [if_pos rfl, List.take_zero]
        rfl
    | succ count =>
        have isMissing : lineLength pair - 1 - ((decimal pair.1).length + (count + 1 + 1)) =
            (decimal pair.2).length - (count + 1) := by
          rw [lineLength]
          omega
        rw [if_neg (by omega), isMissing, isPpid, int_take_decimal _ (Nat.succ_pos _)]
        rfl

/-- Pairs that have been read, and a part of the log of others. -/
theorem parsePaternityLog_append_take (done pairs : List Paternity)
    (natural : ∀ pair ∈ pairs, 0 ≤ pair.2)
    (length : Nat) :
    parsePaternityLog (paternityLog done ++ (paternityLog pairs).take length) =
      cutParents (parents done) pairs length := by
  induction pairs generalizing done length with
  | nil =>
      have whole := parsePaternityLog_append done List.not_mem_nil
      simpa [paternityLog, paternityLine, cutParents] using whole
  | cons pair pairs inductionHypothesis =>
      have opened : paternityLog (pair :: pairs) =
          dumpPaternity pair.1 pair.2 ++ paternityLog pairs := List.flatMap_cons
      rw [List.forall_mem_cons] at natural
      rw [cutParents, opened]
      split
      next inside =>
        obtain ⟨count, rfl⟩ := Nat.exists_eq_add_of_le inside
        have joined : paternityLog done ++ dumpPaternity pair.1 pair.2 =
            paternityLog (done ++ [pair]) := by
          rw [paternityLog, paternityLog, List.flatMap_append, List.flatMap_singleton]
        have isParents : (parents done).set pair.1 pair.2 = parents (done ++ [pair]) := by
          rw [parents, parents, List.foldl_append]
          rfl
        rw [← length_dumpPaternity, List.take_length_add_append, ← List.append_assoc, joined,
          inductionHypothesis (done ++ [pair]) natural.2, Nat.add_sub_cancel_left, isParents]
      next outside =>
        rw [Nat.not_le] at outside
        rw [List.take_append_of_le_length (by rw [length_dumpPaternity]; omega),
          take_dumpPaternity pair outside, parsePaternityLog_append,
          paternityLine_take _ _ natural.1 outside]
        intro member
        exact (isLine_pairLine pair).2 (List.mem_of_mem_take member)

/-- A log that is cut gives the parents of its whole lines; a line that is cut is ignored, raises,
or gives a parent that lacks its last digits. -/
theorem parsePaternityLog_take (pairs : List Paternity)
    (natural : ∀ pair ∈ pairs, 0 ≤ pair.2)
    (length : Nat) :
    parsePaternityLog ((paternityLog pairs).take length) =
      cutParents (Dict.empty.set 0 0) pairs length :=
  parsePaternityLog_append_take [] pairs natural length

/-- The parent of the second process was 12, but its last digit is missing. -/
theorem parsePaternityLog_take_two :
    parsePaternityLog ((paternityLog [(12, 1), (30, 12)]).take 9) =
      .ok (((Dict.empty.set 0 0).set 12 1).set 30 1) :=
  (parsePaternityLog_take [(12, 1), (30, 12)] (by decide) 9).trans rfl

/-! ## From the kernel to the parents -/

/-- The log of what a scanner handed over is one of pairs. -/
theorem paternityLog_scanner (nls : NetLinkPidScanner) :
    nls.paternityLog = paternityLog nls.paternity := rfl

/-- The first bytes of a log, read. -/
theorem exists_cutParents_of_prefix
    {pairs : List Paternity}
    (natural : ∀ pair ∈ pairs, 0 ≤ pair.2)
    {file : Bytes}
    (isPrefix : file <+: paternityLog pairs) :
    ∃ length, parsePaternityLog file = cutParents (Dict.empty.set 0 0) pairs length := by
  refine ⟨file.length, ?_⟩
  have cut := parsePaternityLog_append_take [] pairs natural file.length
  rw [← List.prefix_iff_eq_take.mp isPrefix] at cut
  exact cut

/-- A whole log, read. -/
theorem parsePaternityLog_paternityLog (pairs : List Paternity) :
    parsePaternityLog (paternityLog pairs) = .ok (parents pairs) := by
  have whole := parsePaternityLog_append pairs List.not_mem_nil
  simpa [paternityLine] using whole

/-- The log is one of the pairs of the forks. -/
theorem paternityLog_after (news : List NetlinkAction) :
    (NetLinkPidScanner.fresh.after news).paternityLog =
      paternityLog ((newsOf news).filterMap created) := by
  rw [paternityLog_scanner, NetLinkPidScanner.paternity_after]
  rfl

/-- If the table has not overflowed and the log of all news was written, the dump reads as the
parents of all forks. -/
theorem parsePaternityLog_dump
    {news : List NetlinkAction}
    {actions : List Action}
    {buffers : Buffers}
    (ran : run Buffers.step Buffers.init actions = some buffers)
    (valid : ValidNames buffers.names)
    {index : Nat}
    {client : Client}
    (present : buffers.clients[index]? = some client)
    (capacity : totalChunks actions buffers ≤ chunkSlots - 1)
    (idle : client.call = .idle)
    (complete : passed index actions = (NetLinkPidScanner.fresh.after news).paternityLog) :
    parsePaternityLog (dumpBuffers buffers.sm (fun _ => []) client.file.dest) =
      .ok (parents ((newsOf news).filterMap created)) := by
  have shown := (Consistent.of_run ran valid).dumped_eq capacity present
  have written : Call.idle.remaining = [] := rfl
  rw [idle, complete, written, List.append_nil, paternityLog_after] at shown
  rw [dumpBuffers_eq, List.nil_append, shown, parsePaternityLog_paternityLog]

/-- Whenever the collector is stopped, the dump of the log of parents reads as a log that is cut.
If the table has not overflowed and the listener thread has written the log of all the news that
it got, each process has the parent of its last fork. -/
theorem parsePaternityLog_dumpBuffers
    {news : List NetlinkAction}
    (natural : ∀ pair ∈ (newsOf news).filterMap created, 0 ≤ pair.2)
    {actions : List Action}
    {buffers : Buffers}
    (ran : run Buffers.step Buffers.init actions = some buffers)
    (valid : ValidNames buffers.names)
    {index : Nat}
    {client : Client}
    (present : buffers.clients[index]? = some client)
    (isLog : passed index actions <+: (NetLinkPidScanner.fresh.after news).paternityLog) :
    (∃ length, parsePaternityLog (dumpBuffers buffers.sm (fun _ => []) client.file.dest) =
      cutParents (Dict.empty.set 0 0) ((newsOf news).filterMap created) length) ∧
    (totalChunks actions buffers ≤ chunkSlots - 1 →
      client.call = .idle →
      passed index actions = (NetLinkPidScanner.fresh.after news).paternityLog →
      ∃ parentMap,
        parsePaternityLog (dumpBuffers buffers.sm (fun _ => []) client.file.dest) =
          .ok parentMap ∧
        ∀ child, parentMap.get? child =
          (lastForkParent child (newsOf news)).or (if child = 0 then some 0 else none)) := by
  constructor
  · rw [dumpBuffers_eq, List.nil_append]
    apply exists_cutParents_of_prefix natural
    obtain ⟨written, accounted, stored⟩ :=
      (Consistent.of_run ran valid).stored index client present
    rw [paternityLog_after, ← accounted] at isLog
    exact stored.dumpedPrefix.trans ((List.prefix_append _ _).trans isLog)
  · intro capacity idle complete
    refine ⟨_, parsePaternityLog_dump ran valid present capacity idle complete, ?_⟩
    intro child
    rw [get?_parents, NetLinkPidScanner.filterMap_created]
    rfl

/-- Two processes are forked, and the listener thread writes the first line of them. -/
def twoForks : List NetlinkAction :=
  [.news (.fork 1 1 12 12), .news (.fork 12 12 30 30)]

/-- The thread is stopped when it has called `buffer_file_append` for the second line. -/
def twoLines : List Action :=
  [.new [97], .client 0 (.append (dumpPaternity 12 1)), .client 0 .copy, .client 0 .check,
    .client 0 (.append (dumpPaternity 30 12))]

theorem isSome_run_twoLines : (run Buffers.step Buffers.init twoLines).isSome := by
  decide +kernel

/-- The buffers when the thread was stopped. -/
def twoLinesBuffers : Buffers :=
  (run Buffers.step Buffers.init twoLines).get isSome_run_twoLines

/-- The listener thread writes both lines of two forks. -/
def wholeLines : List Action :=
  twoLines ++ [.client 0 .copy, .client 0 .check]

theorem isSome_run_wholeLines : (run Buffers.step Buffers.init wholeLines).isSome := by
  decide +kernel

/-- The buffers then. -/
def wholeLinesBuffers : Buffers :=
  (run Buffers.step Buffers.init wholeLines).get isSome_run_wholeLines

/-- The log of the two processes is cut, and when the line is copied it is whole. -/
theorem parsePaternityLog_dumpBuffers_wholeLines :
    (∃ length, parsePaternityLog (dumpBuffers twoLinesBuffers.sm (fun _ => []) [97]) =
      cutParents (Dict.empty.set 0 0) ((newsOf twoForks).filterMap created) length) ∧
    ∃ parentMap,
      parsePaternityLog (dumpBuffers wholeLinesBuffers.sm (fun _ => []) [97]) = .ok parentMap ∧
      parentMap.get? 0 = some 0 ∧ parentMap.get? 12 = some 1 ∧ parentMap.get? 30 = some 12 := by
  constructor
  · have ran : run Buffers.step Buffers.init twoLines = some twoLinesBuffers :=
      (Option.some_get isSome_run_twoLines).symm
    have present : twoLinesBuffers.clients[0]? =
        some { file := { dest := [97], cur := 0 }, call := .appending (dumpPaternity 30 12) } := rfl
    have isLog : passed 0 twoLines <+: (NetLinkPidScanner.fresh.after twoForks).paternityLog := by
      decide +kernel
    exact (parsePaternityLog_dumpBuffers (by decide +kernel) ran
      ⟨by decide +kernel, by decide +kernel⟩ present isLog).1
  · have ran : run Buffers.step Buffers.init wholeLines = some wholeLinesBuffers :=
      (Option.some_get isSome_run_wholeLines).symm
    have present : wholeLinesBuffers.clients[0]? =
        some { file := { dest := [97], cur := 0 }, call := .idle } := rfl
    have isLog : passed 0 wholeLines = (NetLinkPidScanner.fresh.after twoForks).paternityLog := by
      decide +kernel
    obtain ⟨parentMap, isRead, parents⟩ := (parsePaternityLog_dumpBuffers (by decide +kernel) ran
      ⟨by decide +kernel, by decide +kernel⟩ present (isLog ▸ List.prefix_rfl)).2
        (by decide +kernel) rfl isLog
    refine ⟨parentMap, isRead, ?_, ?_, ?_⟩
    · exact (parents 0).trans (by decide +kernel)
    · exact (parents 12).trans (by decide +kernel)
    · exact (parents 30).trans (by decide +kernel)

end Parsing
end Bootchart
