import Bootchart.Parsing.DiskStats

/-!
# The devices that are counted

The traffic of a disk is listed once for the disk and once more for each of its partitions,
so only whole devices may be added up. `disk_regex_re` knows one letter behind `hd`, `sd`
and `vd` and one digit behind `mtdblock` and `mmcblk`, but anything behind a disk of a
`cciss` controller.
-/

namespace Bootchart
namespace Parsing

open Library (Text)
open Library.Text (words behind behind_append isDecimal leadingDigits decimal)

/-! ## Names -/

/-- What a disk with letters is called. -/
inductive DiskKind
  /-- `hd`. -/
  | hd
  /-- `sd`. -/
  | sd
  /-- `vd`. -/
  | vd
  deriving DecidableEq

/-- The beginning of the name. -/
def DiskKind.name : DiskKind → Text
  | hd => ['h', 'd']
  | sd => ['s', 'd']
  | vd => ['v', 'd']

/-- The letters that tell disks of a kind apart: `a`, …, `z`, `aa`, and so on. -/
def UnitLetters : Type :=
  { letters : Text // letters ≠ [] ∧ ∀ c ∈ letters, c.isLower }

/-- A whole device of the supported families. -/
inductive Device
  /-- A disk with letters. -/
  | disk (kind : DiskKind) (unit : UnitLetters)
  /-- A block device over flash memory. -/
  | mtdblock (number : Nat)
  /-- A memory card. -/
  | mmcblk (number : Nat)
  /-- A disk of an array controller. -/
  | cciss (controller drive : Nat)

namespace Device

/-- The name. -/
def name : Device → Text
  | disk kind unit => kind.name ++ unit.val
  | mtdblock number => "mtdblock".toList ++ decimal number
  | mmcblk number => "mmcblk".toList ++ decimal number
  | cciss controller drive =>
      "cciss/c".toList ++ (decimal controller ++ 'd' :: decimal drive)

/-- The name of a partition: a `p` stands between two numbers. -/
def partitionName (device : Device) (number : Nat) : Text :=
  match device with
  | disk _ _ => device.name ++ decimal number
  | _ => device.name ++ 'p' :: decimal number

/-- One letter or one digit is enough to tell the device from others. -/
def HasShortName : Device → Prop
  | disk _ unit => unit.val.length = 1
  | mtdblock number | mmcblk number => number < 10
  | cciss _ _ => True

instance : DecidablePred HasShortName
  | disk _ unit => inferInstanceAs (Decidable (unit.val.length = 1))
  | mtdblock number | mmcblk number => inferInstanceAs (Decidable (number < 10))
  | cciss _ _ => inferInstanceAs (Decidable True)

/-- It is a disk of an array controller. -/
def IsCciss : Device → Prop
  | cciss _ _ => True
  | _ => False

instance : DecidablePred IsCciss
  | disk _ _ | mtdblock _ | mmcblk _ => inferInstanceAs (Decidable False)
  | cciss _ _ => inferInstanceAs (Decidable True)

end Device

/-! ## Matches -/

/-- A number that is not negative has no sign. -/
theorem decimal_natCast (number : Nat) : decimal (number : Int) = Nat.toDigits 10 number := by
  simp [decimal]

/-- A number consists of digits. -/
theorem isDecimal_of_mem_decimal
    {number : Nat}
    {c : Char}
    (member : c ∈ decimal (number : Int)) : isDecimal c = true := by
  rw [decimal_natCast] at member
  apply Library.Text.isDecimal_of_isDigit
  exact Nat.isDigit_of_mem_toDigits (b := 10) (by decide) (by decide) member

/-- A number is followed by what is not part of it. -/
theorem leadingDigits_decimal
    (number : Nat)
    {rest : Text}
    (ends : ∀ c ∈ rest.head?, isDecimal c = false) :
    leadingDigits (decimal number ++ rest) = some (decimal number, rest) :=
  Library.Text.leadingDigits_append (Library.Text.decimal_ne_nil number)
    (fun _ => isDecimal_of_mem_decimal) ends

/-- Numbers less than ten have one digit. -/
theorem length_decimal_eq_one_iff (number : Nat) :
    (decimal (number : Int)).length = 1 ↔ number < 10 := by
  have some := Nat.length_toDigits_pos (b := 10) (n := number)
  have few := Nat.length_toDigits_le_iff (n := number) (k := 1) (b := 10) (by decide)
    (by decide)
  rw [decimal_natCast]
  omega

/-- One digit behind a name. -/
theorem oneDigit_append (start rest : Text) :
    oneDigit start (start ++ rest) = true ↔ ∃ c, rest = [c] ∧ isDecimal c = true := by
  rw [oneDigit, behind_append]
  split
  next c isRest =>
    obtain rfl := Option.some.inj isRest
    simp
  next other =>
    simp only [Bool.false_eq_true, false_iff, not_exists, not_and]
    exact fun c isRest => absurd (congrArg some isRest) (other c)

/-- One digit is a number less than ten. -/
theorem oneDigit_decimal (number : Nat) :
    (∃ c, decimal (number : Int) = [c] ∧ isDecimal c = true) ↔ number < 10 := by
  rw [← length_decimal_eq_one_iff, List.length_eq_one_iff]
  constructor
  · rintro ⟨c, isNumber, -⟩
    exact ⟨c, isNumber⟩
  · rintro ⟨c, isNumber⟩
    exact ⟨c, isNumber, isDecimal_of_mem_decimal (by rw [isNumber]; simp)⟩

/-- Of disks with letters, `disk_regex_re` matches those with one character behind the
kind. -/
theorem diskMatch_kind (kind : DiskKind) (rest : Text) :
    diskMatch (kind.name ++ rest) = true ↔ rest.length = 1 := by
  rcases rest with _ | ⟨c, _ | ⟨d, rest⟩⟩
  · cases kind <;> exact iff_of_false Bool.false_ne_true (by simp)
  · cases kind <;> exact iff_of_true rfl rfl
  · cases kind <;> exact iff_of_false Bool.false_ne_true (by simp)

/-- Of devices over flash memory, it matches those with one digit. -/
theorem diskMatch_mtdblock (rest : Text) :
    diskMatch ("mtdblock".toList ++ rest) = true ↔ ∃ c, rest = [c] ∧ isDecimal c = true := by
  have family : diskMatch ("mtdblock".toList ++ rest) =
      (false || oneDigit "mtdblock".toList ("mtdblock".toList ++ rest) || false || false) :=
    rfl
  rw [family, Bool.false_or, Bool.or_false, Bool.or_false, oneDigit_append]

/-- Of memory cards, it matches those with one digit. -/
theorem diskMatch_mmcblk (rest : Text) :
    diskMatch ("mmcblk".toList ++ rest) = true ↔ ∃ c, rest = [c] ∧ isDecimal c = true := by
  have family : diskMatch ("mmcblk".toList ++ rest) =
      (false || false || oneDigit "mmcblk".toList ("mmcblk".toList ++ rest) || false) := rfl
  rw [family, Bool.or_false, Bool.false_or, Bool.false_or, oneDigit_append]

/-- Of disks of array controllers, it matches all, whatever is behind them. -/
theorem diskMatch_cciss
    (controller drive : Nat)
    {rest : Text}
    (ends : ∀ c ∈ rest.head?, isDecimal c = false) :
    diskMatch ("cciss/c".toList ++
      (decimal controller ++ 'd' :: (decimal drive ++ rest))) = true := by
  have family : diskMatch ("cciss/c".toList ++
      (decimal controller ++ 'd' :: (decimal drive ++ rest))) =
        (false || false || false || ccissMatch ("cciss/c".toList ++
          (decimal controller ++ 'd' :: (decimal drive ++ rest)))) := rfl
  have noDigit : ∀ c ∈ ('d' :: (decimal (drive : Int) ++ rest)).head?,
      isDecimal c = false := by
    rintro c ⟨⟩
    decide
  rw [family, Bool.or_false, Bool.or_false, Bool.false_or, ccissMatch, behind_append,
    Option.bind_some, leadingDigits_decimal controller noDigit]
  simp only [leadingDigits_decimal drive ends, Option.isSome_some]

/-- `disk_regex_re` matches the whole devices with short names. -/
theorem diskMatch_name (device : Device) :
    diskMatch device.name = true ↔ device.HasShortName := by
  cases device with
  | disk kind unit => exact diskMatch_kind kind unit.val
  | mtdblock number => exact (diskMatch_mtdblock _).trans (oneDigit_decimal number)
  | mmcblk number => exact (diskMatch_mmcblk _).trans (oneDigit_decimal number)
  | cciss controller drive =>
      have nothing : ∀ c ∈ ([] : Text).head?, isDecimal c = false := by simp
      have isMatch := diskMatch_cciss controller drive nothing
      rw [List.append_nil] at isMatch
      exact iff_of_true isMatch True.intro

/-- Of their partitions it matches those of `cciss` disks. -/
theorem diskMatch_partitionName (device : Device) (number : Nat) :
    diskMatch (device.partitionName number) = true ↔ device.IsCciss := by
  have someDigit : ∀ number : Nat, 0 < (decimal (number : Int)).length := fun number =>
    List.length_pos_iff.mpr (Library.Text.decimal_ne_nil _)
  have two : ∀ (number part : Nat) (c : Char),
      decimal (number : Int) ++ 'p' :: decimal (part : Int) ≠ [c] := by
    intro number part c isOne
    have long := congrArg List.length isOne
    have digit := someDigit number
    simp only [List.length_append, List.length_cons, List.length_nil] at long
    omega
  cases device with
  | disk kind unit =>
      have isPartition : (Device.disk kind unit).partitionName number =
          kind.name ++ (unit.val ++ decimal number) := List.append_assoc _ _ _
      have letter : 0 < unit.val.length := List.length_pos_iff.mpr unit.property.1
      have digit := someDigit number
      rw [isPartition, diskMatch_kind, List.length_append]
      simp only [Device.IsCciss, iff_false]
      omega
  | mtdblock flash =>
      have isPartition : (Device.mtdblock flash).partitionName number =
          "mtdblock".toList ++ (decimal flash ++ 'p' :: decimal number) :=
        List.append_assoc _ _ _
      rw [isPartition, diskMatch_mtdblock]
      simp only [Device.IsCciss, iff_false, not_exists, not_and]
      exact fun c isOne => absurd isOne (two flash number c)
  | mmcblk card =>
      have isPartition : (Device.mmcblk card).partitionName number =
          "mmcblk".toList ++ (decimal card ++ 'p' :: decimal number) :=
        List.append_assoc _ _ _
      rw [isPartition, diskMatch_mmcblk]
      simp only [Device.IsCciss, iff_false, not_exists, not_and]
      exact fun c isOne => absurd isOne (two card number c)
  | cciss controller drive =>
      have isPartition : (Device.cciss controller drive).partitionName number =
          "cciss/c".toList ++ (decimal controller ++ 'd' ::
            (decimal drive ++ 'p' :: decimal number)) := by
        rw [← List.cons_append, ← List.append_assoc, ← List.append_assoc]
        rfl
      have noDigit : ∀ c ∈ ('p' :: decimal (number : Int)).head?, isDecimal c = false := by
        rintro c ⟨⟩
        decide
      rw [isPartition]
      exact iff_of_true (diskMatch_cciss controller drive noDigit) True.intro

/-! ## Frames -/

/-- What a line is about. -/
inductive DiskEntry
  /-- A whole device. -/
  | whole (device : Device)
  /-- A partition of a device. -/
  | partition (device : Device) (number : Nat)

namespace DiskEntry

/-- The name that is listed. -/
def name : DiskEntry → Text
  | whole device => device.name
  | partition device number => device.partitionName number

/-- The line is about a whole device. -/
def isWhole : DiskEntry → Bool
  | whole _ => true
  | partition _ _ => false

end DiskEntry

/-- A line of `/proc/diskstats`. -/
structure DiskLine where
  /-- The major number. -/
  major : Nat
  /-- The minor number. -/
  minor : Nat
  /-- What the line is about. -/
  entry : DiskEntry
  /-- `rio rmerge rsect ruse wio wmerge wsect wuse running use aveq`, and whatever may
  follow. -/
  stats : List Nat
  /-- Nothing is missing. -/
  complete : 11 ≤ stats.length

namespace DiskLine

/-- The words of the line. -/
def tokens (line : DiskLine) : List Text :=
  decimal line.major :: decimal line.minor :: line.entry.name ::
    line.stats.map fun number : Nat => decimal number

/-- The counters that are added up. -/
def counters (line : DiskLine) : DiskData where
  rsect := (line.stats.getD 2 0 : Nat)
  wsect := (line.stats.getD 6 0 : Nat)
  use := (line.stats.getD 9 0 : Nat)

/-- The line is told right: a device is counted and a partition is left out, unless there is
nothing to count. -/
def ToldRight (line : DiskLine) : Prop :=
  line.counters = { rsect := 0, wsect := 0, use := 0 } ∨
    match line.entry with
    | .whole device => device.HasShortName
    | .partition device _ => ¬device.IsCciss

end DiskLine

/-- A frame with some lines is counted right: its sums are those of the whole devices, and no
partition adds anything. -/
structure CountsWholes (time : Int) (lines : List Text) (rows : List DiskLine) : Prop where
  /-- The sums. -/
  sums : diskFrame (time, lines) = .ok
    { time := time
      diskdata := totalOf ((rows.filter (·.entry.isWhole)).map (·.counters)) }
  /-- The partitions. -/
  partitions : ∀ row ∈ rows, ¬row.entry.isWhole → isRelevantLine row.tokens →
    row.counters = { rsect := 0, wsect := 0, use := 0 }

/-- A line is relevant if its name matches. -/
theorem isRelevantLine_tokens (line : DiskLine) :
    isRelevantLine line.tokens = diskMatch line.entry.name := by
  have long : line.tokens.length ≥ 14 := by
    have complete := line.complete
    simp only [DiskLine.tokens, List.length_cons, List.length_map]
    omega
  rw [isRelevantLine, decide_eq_true long, Bool.true_and]
  rfl

/-- The counters of a line are read. -/
theorem diskRow_tokens (line : DiskLine) : diskRow line.tokens = .ok line.counters := by
  have complete := line.complete
  have stat : ∀ i, i < 11 → line.tokens.getD (i + 3) [] =
      decimal (line.stats.getD i 0 : Nat) := by
    intro i isStat
    have here : i < line.stats.length := by omega
    simp [DiskLine.tokens, List.getD, here]
  rw [diskRow, stat 2 (by decide), stat 6 (by decide), stat 9 (by decide)]
  simp only [int, Library.Text.readInt_decimal]
  rfl

/-- A frame is the sum of its relevant lines. -/
theorem diskFrame_tokens
    {lines : List Text}
    {rows : List DiskLine}
    (isFrame : lines.map words = rows.map (·.tokens))
    (time : Int) :
    diskFrame (time, lines) = .ok
      { time := time
        diskdata := totalOf
          ((rows.filter fun row => diskMatch row.entry.name).map (·.counters)) } := by
  have relevant : (rows.map (·.tokens)).filter isRelevantLine =
      (rows.filter fun row => diskMatch row.entry.name).map (·.tokens) := by
    rw [List.filter_map]
    congr 2
    funext row
    exact isRelevantLine_tokens row
  have read : ∀ rows : List DiskLine, (rows.map (·.tokens)).mapM diskRow =
      .ok (rows.map (·.counters)) := by
    intro rows
    induction rows with
    | nil => rfl
    | cons row rows inductionHypothesis =>
        rw [List.map_cons, List.mapM_cons, diskRow_tokens, inductionHypothesis]
        rfl
  rw [diskFrame]
  dsimp only
  rw [isFrame, relevant, read]
  simp [bind, Except.bind, pure, Except.pure, foldl_addDiskdata, DiskStatSample.new]

/-- The sum of a filtered list, by its first member. -/
theorem sum_filter_cons
    {α : Type*}
    (f : α → Int)
    (keep : α → Bool)
    (a : α)
    (values : List α) :
    (((a :: values).filter keep).map f).sum =
      (if keep a then f a else 0) + ((values.filter keep).map f).sum := by
  rw [List.filter_cons]
  split <;> simp

/-- A filter whose needless finds add nothing finds no more than is meant. -/
theorem sum_filter_le
    {α : Type*}
    {f : α → Int}
    (nonnegative : ∀ a, 0 ≤ f a)
    {found meant : α → Bool}
    {values : List α}
    (needless : ∀ a ∈ values, found a → ¬meant a → f a = 0) :
    ((values.filter found).map f).sum ≤ ((values.filter meant).map f).sum := by
  induction values with
  | nil => simp
  | cons a values inductionHypothesis =>
      have rest := inductionHypothesis fun b member => needless b (.tail a member)
      have here := needless a (.head values)
      have positive := nonnegative a
      rw [sum_filter_cons, sum_filter_cons]
      by_cases isFound : found a <;> by_cases isMeant : meant a <;>
        simp only [isFound, isMeant, if_true, if_false, Bool.false_eq_true] <;> grind

/-- It has the sum of what is meant if and only if what it misses adds nothing. -/
theorem sum_filter_eq_iff
    {α : Type*}
    {f : α → Int}
    (nonnegative : ∀ a, 0 ≤ f a)
    {found meant : α → Bool}
    {values : List α}
    (needless : ∀ a ∈ values, found a → ¬meant a → f a = 0) :
    ((values.filter found).map f).sum = ((values.filter meant).map f).sum ↔
      ∀ a ∈ values, meant a → ¬found a → f a = 0 := by
  induction values with
  | nil => simp
  | cons a values inductionHypothesis =>
      have needlessRest : ∀ b ∈ values, found b → ¬meant b → f b = 0 := fun b member =>
        needless b (.tail a member)
      have less := sum_filter_le nonnegative needlessRest
      have here := needless a (.head values)
      have positive := nonnegative a
      rw [List.forall_mem_cons, ← inductionHypothesis needlessRest, sum_filter_cons,
        sum_filter_cons]
      by_cases isFound : found a <;> by_cases isMeant : meant a <;>
        simp only [isFound, isMeant, if_true, if_false, Bool.false_eq_true] <;> grind

/-- Every line is found or missed as it should be, or it counts nothing. -/
theorem DiskLine.toldRight_iff (line : DiskLine) :
    line.ToldRight ↔
      (isRelevantLine line.tokens → ¬line.entry.isWhole →
        line.counters = { rsect := 0, wsect := 0, use := 0 }) ∧
      (line.entry.isWhole → ¬isRelevantLine line.tokens →
        line.counters = { rsect := 0, wsect := 0, use := 0 }) := by
  rw [isRelevantLine_tokens, DiskLine.ToldRight]
  cases line.entry with
  | whole device =>
      have found := diskMatch_name device
      simp only [DiskEntry.name, DiskEntry.isWhole, found]
      tauto
  | partition device number =>
      have found := diskMatch_partitionName device number
      simp only [DiskEntry.name, DiskEntry.isWhole, found]
      tauto

/-- Counters are zero if and only if each is. -/
theorem counters_eq_zero_iff (counters : DiskData) :
    counters = { rsect := 0, wsect := 0, use := 0 } ↔
      counters.rsect = 0 ∧ counters.wsect = 0 ∧ counters.use = 0 := by
  cases counters
  rw [DiskData.mk.injEq]

/-- Provided that partitions add nothing, a frame has the sums of its whole devices if and only
if those that are missed count nothing. -/
theorem diskFrame_wholes_iff
    {lines : List Text}
    {rows : List DiskLine}
    (isFrame : lines.map words = rows.map (·.tokens))
    (time : Int)
    (needless : ∀ row ∈ rows, isRelevantLine row.tokens → ¬row.entry.isWhole →
      row.counters = { rsect := 0, wsect := 0, use := 0 }) :
    diskFrame (time, lines) = .ok
        { time := time
          diskdata := totalOf ((rows.filter (·.entry.isWhole)).map (·.counters)) } ↔
      ∀ row ∈ rows, row.entry.isWhole → ¬isRelevantLine row.tokens →
        row.counters = { rsect := 0, wsect := 0, use := 0 } := by
  have each : ∀ counter : DiskData → Int, (∀ row : DiskLine, 0 ≤ counter row.counters) →
      counter { rsect := 0, wsect := 0, use := 0 } = 0 →
      ((((rows.filter fun row => isRelevantLine row.tokens).map fun row =>
          counter row.counters).sum =
        ((rows.filter (·.entry.isWhole)).map fun row => counter row.counters).sum) ↔
      ∀ row ∈ rows, row.entry.isWhole → ¬isRelevantLine row.tokens →
        counter row.counters = 0) := by
    intro counter nonnegative zero
    refine sum_filter_eq_iff nonnegative fun row member found isPartition => ?_
    rw [needless row member found isPartition, zero]
  have reads := each (·.rsect) (fun row => Int.natCast_nonneg _) rfl
  have writes := each (·.wsect) (fun row => Int.natCast_nonneg _) rfl
  have uses := each (·.use) (fun row => Int.natCast_nonneg _) rfl
  rw [diskFrame_tokens isFrame]
  simp only [← isRelevantLine_tokens, Except.ok.injEq, DiskStatSample.mk.injEq, true_and,
    totalOf, List.map_map, Function.comp_def, DiskData.mk.injEq, reads, writes, uses,
    counters_eq_zero_iff]
  constructor
  · rintro ⟨noReads, noWrites, noUses⟩ row member isWhole missed
    exact ⟨noReads row member isWhole missed, noWrites row member isWhole missed,
      noUses row member isWhole missed⟩
  · intro nothing
    exact ⟨fun row member isWhole missed => (nothing row member isWhole missed).1,
      fun row member isWhole missed => (nothing row member isWhole missed).2.1,
      fun row member isWhole missed => (nothing row member isWhole missed).2.2⟩

/-- A frame is counted right if and only if every line is told right. -/
theorem countsWholes_iff
    {lines : List Text}
    {rows : List DiskLine}
    (isFrame : lines.map words = rows.map (·.tokens))
    (time : Int) :
    CountsWholes time lines rows ↔ ∀ row ∈ rows, row.ToldRight := by
  constructor
  · intro right row member
    exact row.toldRight_iff.mpr ⟨fun found isPartition =>
      right.partitions row member isPartition found,
      (diskFrame_wholes_iff isFrame time fun row member found isPartition =>
        right.partitions row member isPartition found).mp right.sums row member⟩
  · intro right
    have needless : ∀ row ∈ rows, isRelevantLine row.tokens → ¬row.entry.isWhole →
        row.counters = { rsect := 0, wsect := 0, use := 0 } := fun row member =>
      (row.toldRight_iff.mp (right row member)).1
    exact {
      sums := (diskFrame_wholes_iff isFrame time needless).mpr fun row member =>
        (row.toldRight_iff.mp (right row member)).2
      partitions := fun row member isPartition found =>
        needless row member found isPartition }

/-- A line about an entry with eleven counters. -/
def DiskLine.ofEntry (entry : DiskEntry) (rsect wsect use : Nat) : DiskLine where
  major := 8
  minor := 0
  entry := entry
  stats := [1, 0, rsect, 5, 1, 0, wsect, 5, 0, use, 10]
  complete := le_refl 11

/-- A disk, its partition, a memory card and its partition are told right. -/
theorem countsWholes_short :
    CountsWholes 100
      ["8 0 sda 1 0 10 5 1 0 4 5 0 8 10".toList, "8 0 sda1 1 0 9 5 1 0 4 5 0 7 10".toList,
        "8 0 mmcblk0 1 0 6 5 1 0 2 5 0 3 10".toList,
        "8 0 mmcblk0p1 1 0 5 5 1 0 2 5 0 3 10".toList]
      [.ofEntry (.whole (.disk .sd ⟨['a'], by simp, List.all_eq_true.mp rfl⟩)) 10 4 8,
        .ofEntry (.partition (.disk .sd ⟨['a'], by simp, List.all_eq_true.mp rfl⟩) 1) 9 4 7,
        .ofEntry (.whole (.mmcblk 0)) 6 2 3, .ofEntry (.partition (.mmcblk 0) 1) 5 2 3] :=
  (countsWholes_iff (by decide +kernel) 100).mpr (by
    simp only [List.forall_mem_cons]
    exact ⟨.inr (rfl : ['a'].length = 1), .inr id, .inr (by decide : 0 < 10), .inr id,
      List.forall_mem_nil _⟩)

/-- The traffic of a `cciss` disk with a partition is counted twice, that of the disk behind
`sdz` is not counted. -/
theorem not_countsWholes_long :
    ¬CountsWholes 100
        ["8 0 cciss/c0d0 1 0 10 5 1 0 4 5 0 8 10".toList,
          "8 0 cciss/c0d0p1 1 0 10 5 1 0 4 5 0 8 10".toList]
        [.ofEntry (.whole (.cciss 0 0)) 10 4 8, .ofEntry (.partition (.cciss 0 0) 1) 10 4 8] ∧
      ¬CountsWholes 100 ["8 0 sdaa 1 0 10 5 1 0 4 5 0 8 10".toList]
        [.ofEntry (.whole (.disk .sd ⟨['a', 'a'], by simp, List.all_eq_true.mp rfl⟩)) 10 4 8] := by
  constructor
  · intro right
    have reads := congrArg (fun frame => frame.toOption.map (·.diskdata.rsect)) right.sums
    exact absurd reads (by decide +kernel)
  · intro right
    have reads := congrArg (fun frame => frame.toOption.map (·.diskdata.rsect)) right.sums
    exact absurd reads (by decide +kernel)

end Parsing
end Bootchart
