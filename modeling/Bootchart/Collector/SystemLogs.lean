import Bootchart.Collector.Arguments
import Bootchart.Parsing.BlockText

/-!
# The logs of the whole system

At each turn of its loop the collector reads the time since the start of the system and copies
three files of `/proc`, each behind this time and in front of an empty line. The lines of these
files are found again by the readers, with the time that had passed.
-/

namespace Bootchart
namespace Collector

open Library (Text)
open Library.Utf8 (encode)
open Parsing (IsLine logBytes)

/-! ## The time -/

/-- `%lu` of `sscanf`: a number behind spaces, and what is left behind it. -/
def scanUnsigned (text : Text) : Option (BitVec 64 × Text) :=
  let number := text.dropWhile isCSpace
  let negative := number.head? = some '-'
  let signless := if negative ∨ number.head? = some '+' then number.tail else number
  let digits := signless.takeWhile Char.isDigit
  if digits = [] then none
  else
    let value := digitsFrom 10 0 digits
    some (if value ≥ 2 ^ 64 then BitVec.allOnes 64
      else if negative then -BitVec.ofNat 64 value
      else BitVec.ofNat 64 value, signless.drop digits.length)

/-- `get_uptime`, for what is in `/proc/uptime`: as many characters are read as fit into `buf`, and
nothing if reading fails. -/
def getUptime : Option Text → BitVec 64
  | none => 0
  | some text =>
      match scanUnsigned (text.take (80 - 1)) with
      | some (u1, '.' :: rest) =>
          match scanUnsigned rest with
          | some (u2, _) => u1 * 100 + u2
          | none => 0
      | _ => 0

/-! ## The logs -/

/-- What the collector reads at one turn. -/
structure Snapshot where
  /-- `/proc/uptime`, if it can be read. -/
  uptime : Option Text
  /-- `/proc/stat`. -/
  stat : Parsing.Bytes
  /-- `/proc/diskstats`. -/
  diskstats : Parsing.Bytes
  /-- `/proc/meminfo`. -/
  meminfo : Parsing.Bytes

/-- What has been passed to `stat_file`, `disk_file` and `meminfo_file`. -/
structure SystemLogs where
  /-- `proc_stat.log`. -/
  stat : Parsing.Bytes
  /-- `proc_diskstats.log`. -/
  diskstats : Parsing.Bytes
  /-- `proc_meminfo.log`. -/
  meminfo : Parsing.Bytes

/-- `buffer_file_dump_frame_with_timestamp`. -/
def bufferFileDumpFrameWithTimestamp (log contents uptime : Parsing.Bytes) : Parsing.Bytes :=
  log ++ uptime ++ contents ++ [10]

/-- What a turn of the loop passes to the buffers of the system; the collector ends if it cannot
tell the time. -/
def sampleSystem (reltime : BitVec 64) (logs : SystemLogs) (snapshot : Snapshot) :
    Option SystemLogs :=
  let u := getUptime snapshot.uptime
  if u = 0 then none
  else
    let uptime := encode (Library.Text.decimal (u - reltime).toNat ++ ['\n'])
    some
      { stat := bufferFileDumpFrameWithTimestamp logs.stat snapshot.stat uptime
        diskstats := bufferFileDumpFrameWithTimestamp logs.diskstats snapshot.diskstats uptime
        meminfo := bufferFileDumpFrameWithTimestamp logs.meminfo snapshot.meminfo uptime }

/-- The loop, over what there is to read at its turns. -/
def sampleLoopFrom (reltime : BitVec 64) (logs : SystemLogs) : List Snapshot → SystemLogs
  | [] => logs
  | snapshot :: snapshots =>
      match sampleSystem reltime logs snapshot with
      | some next => sampleLoopFrom reltime next snapshots
      | none => logs

/-- The logs that the collector has written, starting with none. -/
def systemLogs (reltime : BitVec 64) (snapshots : List Snapshot) : SystemLogs :=
  sampleLoopFrom reltime ⟨[], [], []⟩ snapshots

/-! ## What the kernel shows -/

/-- The state of the system at a turn: the time since its start, in hundredths of a second, and
the lines of the three files. -/
structure Moment where
  /-- The time. -/
  time : Nat
  /-- How long the processors were idle, which is not used. -/
  idle : Text
  /-- The lines of `/proc/stat`. -/
  stat : List Text
  /-- The lines of `/proc/diskstats`. -/
  diskstats : List Text
  /-- The lines of `/proc/meminfo`. -/
  meminfo : List Text

namespace Moment

/-- Two digits of a number below a hundred. -/
def twoDigits (number : Nat) : Text :=
  [Nat.digitChar (number / 10), Nat.digitChar (number % 10)]

/-- `/proc/uptime`. -/
def uptimeText (moment : Moment) : Text :=
  numeral (moment.time / 100) ++ '.' :: (twoDigits (moment.time % 100) ++ ' ' :: moment.idle)

/-- A file of the given lines. -/
def contents (lines : List Text) : Parsing.Bytes :=
  encode (Library.Text.unlines lines)

/-- What the collector reads. -/
def snapshot (moment : Moment) : Snapshot where
  uptime := some moment.uptimeText
  stat := contents moment.stat
  diskstats := contents moment.diskstats
  meminfo := contents moment.meminfo

/-- The time can be told, and lines are lines. -/
structure Shown (moment : Moment) : Prop where
  /-- The clock runs. -/
  started : 0 < moment.time
  /-- The time is a number of 64 bits. -/
  representable : moment.time < 2 ^ 64
  /-- The times are short enough for `buf`. -/
  short : moment.uptimeText.length < 80
  /-- The lines of `/proc/stat`. -/
  stat : ∀ line ∈ moment.stat, IsLine line
  /-- The lines of `/proc/diskstats`. -/
  diskstats : ∀ line ∈ moment.diskstats, IsLine line
  /-- The lines of `/proc/meminfo`. -/
  meminfo : ∀ line ∈ moment.meminfo, IsLine line

/-! ### Reading the time -/

/-- A digit is no space. -/
theorem isCSpace_of_isDigit {c : Char} (isDigit : c.isDigit = true) : isCSpace c = false := by
  have code := Library.Text.toNat_of_isDigit isDigit
  have notBlank : c ≠ ' ' := by
    rintro rfl
    exact absurd isDigit (by decide)
  simp [isCSpace, notBlank]
  omega

/-- Digits are scanned up to their end. -/
theorem scanUnsigned_digits
    {digits : Text}
    (nonempty : digits ≠ [])
    (plain : ∀ c ∈ digits, c.isDigit = true)
    (small : Nat.ofDigitChars 10 digits 0 < 2 ^ 64)
    {rest : Text}
    (ends : ∀ c ∈ rest.head?, c.isDigit = false) :
    scanUnsigned (digits ++ rest) =
      some (BitVec.ofNat 64 (Nat.ofDigitChars 10 digits 0), rest) := by
  obtain ⟨c, others, isDigits⟩ := List.exists_cons_of_ne_nil nonempty
  have isDigit : c.isDigit = true := plain c (by rw [isDigits]; exact List.mem_cons_self)
  have kept : (digits ++ rest).dropWhile isCSpace = digits ++ rest := by
    rw [isDigits, List.cons_append, List.dropWhile_cons_of_neg (by
      rw [isCSpace_of_isDigit isDigit]; exact Bool.false_ne_true)]
  have notSign : ∀ sign, sign.isDigit = false → (digits ++ rest).head? ≠ some sign := by
    intro sign isSign same
    rw [isDigits, List.cons_append, List.head?_cons, Option.some_inj] at same
    rw [same, isSign] at isDigit
    exact absurd isDigit (by decide)
  have taken : (digits ++ rest).takeWhile Char.isDigit = digits :=
    Library.Text.takeWhile_append_eq plain ends
  rw [scanUnsigned]
  simp only [kept, notSign '-' (by decide), notSign '+' (by decide), or_self, if_false, taken,
    nonempty, digitsFrom_ten plain, ge_iff_le, Nat.not_le.mpr small, List.drop_left]

/-- Two digits are digits, and have their value. -/
theorem twoDigits_spec {number : Nat} (small : number < 100) :
    (∀ c ∈ twoDigits number, c.isDigit = true) ∧
      Nat.ofDigitChars 10 (twoDigits number) 0 = number := by
  have all : ∀ number < 100, (twoDigits number).all Char.isDigit = true ∧
      Nat.ofDigitChars 10 (twoDigits number) 0 = number := by
    decide
  exact ⟨List.all_eq_true.mp (all number small).1, (all number small).2⟩

/-- The time is told. -/
theorem getUptime_uptimeText {moment : Moment} (shown : moment.Shown) :
    getUptime (some moment.uptimeText) = BitVec.ofNat 64 moment.time := by
  have representable := shown.representable
  have seconds : Nat.ofDigitChars 10 (numeral (moment.time / 100)) 0 = moment.time / 100 :=
    Nat.ofDigitChars_ten_toDigits
  have fraction := twoDigits_spec (Nat.mod_lt moment.time (show 0 < 100 by decide))
  have first : scanUnsigned (numeral (moment.time / 100) ++
      '.' :: (twoDigits (moment.time % 100) ++ ' ' :: moment.idle)) =
        some (BitVec.ofNat 64 (Nat.ofDigitChars 10 (numeral (moment.time / 100)) 0),
          '.' :: (twoDigits (moment.time % 100) ++ ' ' :: moment.idle)) :=
    scanUnsigned_digits (show numeral _ ≠ [] from Nat.toDigits_ne_nil)
      (fun _ => isDigit_of_mem_numeral)
      (by rw [seconds]; omega) (by rintro c ⟨⟩; decide)
  have second : scanUnsigned (twoDigits (moment.time % 100) ++ ' ' :: moment.idle) =
      some (BitVec.ofNat 64 (Nat.ofDigitChars 10 (twoDigits (moment.time % 100)) 0),
        ' ' :: moment.idle) :=
    scanUnsigned_digits (show twoDigits _ ≠ [] from List.cons_ne_nil _ _) fraction.1
      (by rw [fraction.2]; omega) (by rintro c ⟨⟩; decide)
  have total : BitVec.ofNat 64 (moment.time / 100) * 100 + BitVec.ofNat 64 (moment.time % 100) =
      BitVec.ofNat 64 moment.time := by
    have hundred : (100 : BitVec 64).toNat = 100 := rfl
    apply BitVec.eq_of_toNat_eq
    simp only [BitVec.toNat_add, BitVec.toNat_mul, BitVec.toNat_ofNat, hundred]
    omega
  have whole : moment.uptimeText.take (80 - 1) = moment.uptimeText :=
    List.take_of_length_le (Nat.le_of_lt_succ shown.short)
  rw [getUptime, whole, uptimeText]
  rw [seconds] at first
  rw [fraction.2] at second
  simp only [first, second, total]

/-! ### The logs -/

/-- The time of a frame, since the collector was started or since the system was. -/
def timeSince (reltime : Nat) (moment : Moment) : Int :=
  (moment.time - reltime : Nat)

/-- A turn of the loop writes one frame to each log. -/
theorem sampleSystem_snapshot
    {reltime : Nat}
    {moment : Moment}
    (logs : SystemLogs)
    (shown : moment.Shown)
    (later : reltime ≤ moment.time) :
    sampleSystem (BitVec.ofNat 64 reltime) logs moment.snapshot = some
      { stat := logs.stat ++ logBytes [(moment.timeSince reltime, moment.stat.map encode)]
        diskstats := logs.diskstats ++
          logBytes [(moment.timeSince reltime, moment.diskstats.map encode)]
        meminfo := logs.meminfo ++
          logBytes [(moment.timeSince reltime, moment.meminfo.map encode)] } := by
  have started := shown.started
  have representable := shown.representable
  have running : BitVec.ofNat 64 moment.time ≠ 0 := by
    intro zero
    have value := congrArg BitVec.toNat zero
    rw [BitVec.toNat_ofNat, Nat.mod_eq_of_lt representable] at value
    exact absurd value (Nat.ne_of_gt started)
  have passed : ((BitVec.ofNat 64 moment.time - BitVec.ofNat 64 reltime).toNat : Int) =
      moment.timeSince reltime := by
    rw [timeSince, BitVec.toNat_sub, BitVec.toNat_ofNat, BitVec.toNat_ofNat]
    omega
  have newline : encode ['\n'] = [10] := by decide
  have frame : ∀ log lines, bufferFileDumpFrameWithTimestamp log (contents lines)
      (encode (Library.Text.decimal (moment.timeSince reltime) ++ ['\n'])) =
        log ++ logBytes [(moment.timeSince reltime, lines.map encode)] := by
    intro log lines
    rw [bufferFileDumpFrameWithTimestamp, contents, Parsing.encode_unlines,
      Library.Utf8.encode_append, newline]
    simp [logBytes]
  rw [sampleSystem]
  simp only [snapshot, getUptime_uptimeText shown, running, if_false, passed, frame]

/-- Turns of the loop write frames behind those that are there. -/
theorem sampleLoopFrom_snapshots
    {reltime : Nat}
    {moments : List Moment}
    (shown : ∀ moment ∈ moments, moment.Shown ∧ reltime ≤ moment.time)
    (logs : SystemLogs) :
    sampleLoopFrom (BitVec.ofNat 64 reltime) logs (moments.map snapshot) =
      { stat := logs.stat ++ logBytes (moments.map fun moment =>
          (moment.timeSince reltime, moment.stat.map encode))
        diskstats := logs.diskstats ++ logBytes (moments.map fun moment =>
          (moment.timeSince reltime, moment.diskstats.map encode))
        meminfo := logs.meminfo ++ logBytes (moments.map fun moment =>
          (moment.timeSince reltime, moment.meminfo.map encode)) } := by
  induction moments generalizing logs with
  | nil => simp [sampleLoopFrom, logBytes]
  | cons moment moments inductionHypothesis =>
      rw [List.forall_mem_cons] at shown
      have split : ∀ (log : Parsing.Bytes) (lines : Moment → List Parsing.Bytes),
          log ++ logBytes [(moment.timeSince reltime, lines moment)] ++
              logBytes (moments.map fun moment => (moment.timeSince reltime, lines moment)) =
            log ++ logBytes ((moment :: moments).map fun moment =>
              (moment.timeSince reltime, lines moment)) := by
        intro log lines
        simp [logBytes]
      rw [List.map_cons, sampleLoopFrom, sampleSystem_snapshot logs shown.1.1 shown.1.2]
      dsimp only
      rw [inductionHypothesis shown.2]
      simp only [split _ fun moment => moment.stat.map encode,
        split _ fun moment => moment.diskstats.map encode,
        split _ fun moment => moment.meminfo.map encode]

/-- The logs are frames of the lines that were shown, with the time that had passed. -/
theorem systemLogs_eq
    {reltime : Nat}
    {moments : List Moment}
    (shown : ∀ moment ∈ moments, moment.Shown ∧ reltime ≤ moment.time) :
    systemLogs (BitVec.ofNat 64 reltime) (moments.map snapshot) =
      { stat := logBytes (moments.map fun moment =>
          (moment.timeSince reltime, moment.stat.map encode))
        diskstats := logBytes (moments.map fun moment =>
          (moment.timeSince reltime, moment.diskstats.map encode))
        meminfo := logBytes (moments.map fun moment =>
          (moment.timeSince reltime, moment.meminfo.map encode)) } :=
  sampleLoopFrom_snapshots shown ⟨[], [], []⟩

end Moment
end Collector
end Bootchart
