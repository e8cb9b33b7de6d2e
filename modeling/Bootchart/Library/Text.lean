import Mathlib.Data.List.DropRight
import Mathlib.Tactic.Common

/-!
# Text functions of the scripting language

Texts are lists of characters. This module has the string methods the parsers
use: stripping, numbers and splitting into paragraphs. Splitting at a character
is `List.splitOn`.
-/

namespace Library

/-- A text. -/
abbrev Text := List Char

namespace Text

/-! ## Stripping -/

/-- Remove the characters with a property from both ends. -/
def stripBy (drop : Char → Bool) (text : Text) : Text :=
  (text.dropWhile drop).rdropWhile drop

/-- `str.isspace` of a character. -/
def isSpace (c : Char) : Bool :=
  let code := c.toNat
  (9 ≤ code && code ≤ 13) || (28 ≤ code && code ≤ 32) || code == 0x85 ||
    code == 0xa0 || code == 0x1680 || (0x2000 ≤ code && code ≤ 0x200a) ||
    code == 0x2028 || code == 0x2029 || code == 0x202f || code == 0x205f ||
    code == 0x3000

/-- No character of a word is a space. -/
theorem isSpace_of_all
    {word : Text}
    (isWord : word.all (!isSpace ·) = true) : ∀ c ∈ word, isSpace c = false := fun c member =>
  (Bool.not_eq_true' _).mp (List.all_eq_true.mp isWord c member)

/-- `text.strip()`. -/
def strip (text : Text) : Text :=
  stripBy isSpace text

/-- `text.strip(chars)`. -/
def stripChars (chars text : Text) : Text :=
  stripBy (chars.contains ·) text

/-- Stripping does not make a text longer. -/
theorem length_stripBy_le (drop : Char → Bool) (text : Text) :
    (stripBy drop text).length ≤ text.length :=
  (List.rdropWhile_prefix drop _).length_le.trans
    (List.dropWhile_suffix drop).length_le

/-- Stripping changes nothing if and only if neither end is dropped. -/
theorem stripBy_eq_self (drop : Char → Bool) (text : Text) :
    stripBy drop text = text ↔
      (∀ c ∈ text.head?, ¬drop c) ∧ ∀ c ∈ text.getLast?, ¬drop c := by
  have firstKept : text.dropWhile drop = text ↔ ∀ c ∈ text.head?, ¬drop c := by
    cases text <;> simp [List.dropWhile_eq_self_iff]
  have lastKept : text.rdropWhile drop = text ↔
      ∀ c ∈ text.getLast?, ¬drop c := by
    rw [List.rdropWhile_eq_self_iff]
    cases text <;> simp [List.getLast?_eq_some_getLast]
  rw [← firstKept, ← lastKept, stripBy]
  constructor
  · intro unchanged
    have same : text.dropWhile drop = text := by
      apply (List.dropWhile_suffix drop).eq_of_length_le
      calc text.length = ((text.dropWhile drop).rdropWhile drop).length := by
            rw [unchanged]
        _ ≤ (text.dropWhile drop).length :=
            (List.rdropWhile_prefix drop _).length_le
    exact ⟨same, by rwa [same] at unchanged⟩
  · rintro ⟨first, last⟩
    rw [first, last]

/-- Stripping changes nothing if the length stays. -/
theorem stripBy_eq_self_of_length_le
    {drop : Char → Bool}
    {text : Text}
    (unchanged : text.length ≤ (stripBy drop text).length) :
    stripBy drop text = text := by
  have last := List.rdropWhile_prefix drop (l := text.dropWhile drop)
  have first := List.dropWhile_suffix (l := text) drop
  have same : text.dropWhile drop = text :=
    first.eq_of_length_le (unchanged.trans last.length_le)
  rw [same] at last
  unfold stripBy at unchanged ⊢
  rw [same] at unchanged ⊢
  exact last.eq_of_length_le unchanged

/-- Something is left of a text with a character that is not dropped. -/
theorem stripBy_ne_nil
    {drop : Char → Bool}
    {text : Text}
    {c : Char}
    (member : c ∈ text)
    (kept : ¬drop c) :
    stripBy drop text ≠ [] := by
  intro nothing
  rw [stripBy, List.rdropWhile_eq_nil_iff] at nothing
  have someLeft : text.dropWhile drop ≠ [] := fun empty =>
    kept (List.dropWhile_eq_nil_iff.mp empty c member)
  have firstKept := List.head_dropWhile_not drop someLeft
  have firstDropped := nothing _ (List.head_mem someLeft)
  simp [firstKept] at firstDropped

/-- Stripping again a character that was appended. -/
theorem stripBy_concat
    {drop : Char → Bool}
    {c : Char}
    (dropped : drop c)
    (text : Text) :
    stripBy drop (text ++ [c]) = stripBy drop text := by
  unfold stripBy
  by_cases allDropped : ∀ c ∈ text, drop c
  · have nothing : text.dropWhile drop = [] :=
      List.dropWhile_eq_nil_iff.mpr allDropped
    rw [List.dropWhile_append, nothing]
    simp [dropped]
  · have something : text.dropWhile drop ≠ [] := fun empty =>
      allDropped (List.dropWhile_eq_nil_iff.mp empty)
    rw [List.dropWhile_append, if_neg (by simpa using something),
      List.rdropWhile_concat_pos _ _ _ dropped]

/-- Stripping a text that begins with a character that is dropped. -/
theorem stripBy_cons
    {drop : Char → Bool}
    {c : Char}
    (dropped : drop c)
    (text : Text) :
    stripBy drop (c :: text) = stripBy drop text := by
  rw [stripBy, List.dropWhile_cons_of_pos dropped]
  rfl

/-- A stripped text does not end in a character that is dropped. -/
theorem not_drop_of_mem_getLast?_stripBy
    {drop : Char → Bool}
    {text : Text}
    {c : Char}
    (isLast : c ∈ (stripBy drop text).getLast?) :
    ¬drop c := by
  obtain ⟨nonempty, rfl⟩ := List.mem_getLast?_eq_getLast isLast
  exact List.rdropWhile_last_not _ _ nonempty

/-- A stripped text does not begin with a character that is dropped. -/
theorem not_drop_of_mem_head?_stripBy
    {drop : Char → Bool}
    {text : Text}
    {c : Char}
    (isHead : c ∈ (stripBy drop text).head?) :
    ¬drop c := by
  have isPrefix := List.rdropWhile_prefix drop (text.dropWhile drop)
  cases isStripped : stripBy drop text with
  | nil => simp [isStripped] at isHead
  | cons first stripped =>
      obtain rfl : first = c := by simpa [isStripped] using isHead
      obtain ⟨rest, isDropped⟩ := isPrefix
      have firstKept := List.head?_dropWhile_not drop text
      rw [← isDropped] at firstKept
      unfold stripBy at isStripped
      rw [isStripped] at firstKept
      simpa using firstKept

/-- Stripping once is enough. -/
@[simp] theorem strip_strip (text : Text) : strip (strip text) = strip text := by
  rw [strip, stripBy_eq_self]
  exact ⟨fun _ => not_drop_of_mem_head?_stripBy,
    fun _ => not_drop_of_mem_getLast?_stripBy⟩

/-- What is left of the beginning of a text, when it is stripped at the end. -/
theorem rdropWhile_prefix_append (drop : Char → Bool) (text rest : Text) :
    text.rdropWhile drop <+: (text ++ rest).rdropWhile drop := by
  induction rest using List.reverseRecOn with
  | nil => simp
  | append_singleton rest c inductionHypothesis =>
      rw [← List.append_assoc, List.rdropWhile_concat]
      split
      · exact inductionHypothesis
      · rw [List.append_assoc]
        exact (List.rdropWhile_prefix drop text).trans (List.prefix_append _ _)

/-- The beginning of a text is stripped to a beginning of the stripped text. -/
theorem stripBy_prefix
    (drop : Char → Bool)
    {start text : Text}
    (isPrefix : start <+: text) : stripBy drop start <+: stripBy drop text := by
  obtain ⟨rest, rfl⟩ := isPrefix
  unfold stripBy
  cases isStart : start.dropWhile drop with
  | nil => exact List.nil_prefix
  | cons c kept =>
      have opened : (start ++ rest).dropWhile drop = c :: kept ++ rest := by
        rw [List.dropWhile_append, isStart]
        rfl
      rw [opened]
      exact rdropWhile_prefix_append drop (c :: kept) rest

/-! ## Numbers -/

/-- The zeros of the decimal digits of all scripts. -/
def digitZeros : List Nat :=
  [0x30, 0x660, 0x6f0, 0x7c0, 0x966, 0x9e6, 0xa66, 0xae6, 0xb66, 0xbe6, 0xc66,
    0xce6, 0xd66, 0xde6, 0xe50, 0xed0, 0xf20, 0x1040, 0x1090, 0x17e0, 0x1810,
    0x1946, 0x19d0, 0x1a80, 0x1a90, 0x1b50, 0x1bb0, 0x1c40, 0x1c50, 0xa620,
    0xa8d0, 0xa900, 0xa9d0, 0xa9f0, 0xaa50, 0xabf0, 0xff10, 0x104a0, 0x10d30,
    0x11066, 0x110f0, 0x11136, 0x111d0, 0x112f0, 0x11450, 0x114d0, 0x11650,
    0x116c0, 0x11730, 0x118e0, 0x11950, 0x11c50, 0x11d50, 0x11da0, 0x11f50,
    0x16a60, 0x16ac0, 0x16b50, 0x1d7ce, 0x1d7d8, 0x1d7e2, 0x1d7ec, 0x1d7f6,
    0x1e140, 0x1e2f0, 0x1e4f0, 0x1e950, 0x1fbf0]

/-- The value of a decimal digit of any script. -/
def digitValue (c : Char) : Option Nat :=
  (digitZeros.find? fun first => first ≤ c.toNat && c.toNat < first + 10).map
    (c.toNat - ·)

/-- The value of the digits behind a digit; single underscores may separate
digits. -/
def readDigits (value : Nat) : Text → Option Nat
  | [] => some value
  | '_' :: c :: rest =>
      (digitValue c).bind fun digit => readDigits (10 * value + digit) rest
  | c :: rest =>
      (digitValue c).bind fun digit => readDigits (10 * value + digit) rest

/-- The value of a text of digits. -/
def readNat : Text → Option Nat
  | [] => none
  | c :: rest => (digitValue c).bind fun digit => readDigits digit rest

/-- `int(text)`, nothing for a `ValueError`. -/
def readInt (text : Text) : Option Int :=
  match strip text with
  | '-' :: rest => (readNat rest).map fun value => -Int.ofNat value
  | '+' :: rest => (readNat rest).map Int.ofNat
  | rest => (readNat rest).map Int.ofNat

/-- A number in decimal notation. -/
def decimal (number : Int) : Text :=
  if number < 0 then '-' :: Nat.toDigits 10 number.natAbs
  else Nat.toDigits 10 number.natAbs

/-- Whether a character is a decimal digit of some script. -/
def isDecimal (c : Char) : Bool :=
  (digitValue c).isSome

/-- The digits a text begins with, at least one, and the rest of the text. -/
def leadingDigits (text : Text) : Option (Text × Text) :=
  match text.takeWhile isDecimal with
  | [] => none
  | digits => some (digits, text.dropWhile isDecimal)

/-- What is taken from the beginning of a text, if the next character is not. -/
theorem takeWhile_append_eq
    {take : Char → Bool}
    {taken rest : Text}
    (isTaken : ∀ c ∈ taken, take c = true)
    (ends : ∀ c ∈ rest.head?, take c = false) :
    (taken ++ rest).takeWhile take = taken := by
  rw [List.takeWhile_append_of_pos isTaken]
  cases rest with
  | nil => simp
  | cons c rest => simp [ends c rfl]

/-- What is left then. -/
theorem dropWhile_append_eq
    {take : Char → Bool}
    {taken rest : Text}
    (isTaken : ∀ c ∈ taken, take c = true)
    (ends : ∀ c ∈ rest.head?, take c = false) :
    (taken ++ rest).dropWhile take = rest := by
  rw [List.dropWhile_append_of_pos isTaken]
  cases rest with
  | nil => simp
  | cons c rest => simp [ends c rfl]

/-- Digits are followed by what is none. -/
theorem leadingDigits_append
    {digits rest : Text}
    (nonempty : digits ≠ [])
    (areDigits : ∀ c ∈ digits, isDecimal c = true)
    (ends : ∀ c ∈ rest.head?, isDecimal c = false) :
    leadingDigits (digits ++ rest) = some (digits, rest) := by
  unfold leadingDigits
  rw [takeWhile_append_eq areDigits ends, dropWhile_append_eq areDigits ends]
  obtain ⟨c, others, rfl⟩ := List.exists_cons_of_ne_nil nonempty
  rfl

/-- A decimal notation consists of digits and perhaps a sign. -/
theorem isDigit_of_mem_decimal
    {number : Int}
    {c : Char}
    (member : c ∈ decimal number) :
    c.isDigit ∨ c = '-' := by
  unfold decimal at member
  split at member
  · rcases List.mem_cons.mp member with rfl | isDigit
    · exact Or.inr rfl
    · exact Or.inl (Nat.isDigit_of_mem_toDigits (by decide) (by decide) isDigit)
  · exact Or.inl (Nat.isDigit_of_mem_toDigits (by decide) (by decide) member)

/-- A decimal notation is not empty. -/
theorem decimal_ne_nil (number : Int) : decimal number ≠ [] := by
  unfold decimal
  split
  · simp
  · exact Nat.toDigits_ne_nil

/-- A character outside of digits and sign does not occur in a number. -/
theorem not_mem_decimal
    {c : Char}
    (noDigit : c.isDigit = false)
    (noSign : c ≠ '-')
    (number : Int) :
    c ∉ decimal number := by
  intro member
  rcases isDigit_of_mem_decimal member with isDigit | isSign
  · simp [noDigit] at isDigit
  · exact noSign isSign

/-- The code of a digit. -/
theorem toNat_of_isDigit {c : Char} (isDigit : c.isDigit) :
    48 ≤ c.toNat ∧ c.toNat ≤ 57 := by
  simpa [Char.isDigit, UInt32.le_iff_toNat_le] using isDigit

/-- The characters of a number are ASCII. -/
theorem ascii_decimal (number : Int) : ∀ c ∈ decimal number, c.toNat < 128 := by
  intro c member
  rcases isDigit_of_mem_decimal member with isDigit | rfl
  · have code := toNat_of_isDigit isDigit
    omega
  · decide

/-- A digit is no space. -/
theorem isSpace_of_isDigit {c : Char} (isDigit : c.isDigit) : isSpace c = false := by
  have code := toNat_of_isDigit isDigit
  simp [isSpace]
  omega

/-- The characters of a number are no spaces. -/
theorem isSpace_of_mem_decimal
    {number : Int}
    {c : Char}
    (member : c ∈ decimal number) :
    isSpace c = false := by
  rcases isDigit_of_mem_decimal member with isDigit | rfl
  · exact isSpace_of_isDigit isDigit
  · rfl

/-- The value of a digit. -/
theorem digitValue_of_isDigit
    {c : Char}
    (isDigit : c.isDigit) :
    digitValue c = some (c.toNat - '0'.toNat) := by
  have code := toNat_of_isDigit isDigit
  have here : (48 ≤ c.toNat && c.toNat < 48 + 10) = true := by
    simp
    omega
  simp only [digitValue, digitZeros, List.find?_cons, here]
  rfl

/-- A digit is decimal. -/
theorem isDecimal_of_isDigit {c : Char} (isDigit : c.isDigit) : isDecimal c = true := by
  rw [isDecimal, digitValue_of_isDigit isDigit]
  rfl

/-- Reading plain digits. -/
theorem readDigits_eq
    {digits : Text}
    (plain : ∀ c ∈ digits, c.isDigit)
    (value : Nat) :
    readDigits value digits = some (Nat.ofDigitChars 10 digits value) := by
  induction digits generalizing value with
  | nil => simp [readDigits]
  | cons c digits inductionHypothesis =>
      have isDigit := plain c (by simp)
      have noUnderscore : c ≠ '_' := by
        rintro rfl
        simp at isDigit
      rw [readDigits]
      · rw [digitValue_of_isDigit isDigit, Option.bind_some,
          inductionHypothesis fun c member => plain c (List.mem_cons_of_mem _ member),
          Nat.ofDigitChars_cons]
      · simp [noUnderscore]

/-- Reading the digits of a number. -/
theorem readNat_toDigits (number : Nat) :
    readNat (Nat.toDigits 10 number) = some number := by
  have plain : ∀ c ∈ Nat.toDigits 10 number, c.isDigit := fun c member =>
    Nat.isDigit_of_mem_toDigits (by decide) (by decide) member
  have value : Nat.ofDigitChars 10 (Nat.toDigits 10 number) 0 = number :=
    Nat.ofDigitChars_ten_toDigits
  have nonempty : Nat.toDigits 10 number ≠ [] := Nat.toDigits_ne_nil
  generalize Nat.toDigits 10 number = digits at plain value nonempty
  cases digits with
  | nil => exact absurd rfl nonempty
  | cons c digits =>
      rw [readNat, digitValue_of_isDigit (plain c (by simp)), Option.bind_some,
        readDigits_eq fun c member => plain c (List.mem_cons_of_mem _ member)]
      simpa [Nat.ofDigitChars_cons] using value

/-- A number has no spaces around it. -/
theorem strip_decimal (number : Int) : strip (decimal number) = decimal number := by
  rw [strip, stripBy_eq_self]
  constructor
  · intro c isHead
    simp [isSpace_of_mem_decimal (List.mem_of_mem_head? isHead)]
  · intro c isLast
    simp [isSpace_of_mem_decimal (List.mem_of_mem_getLast? isLast)]

/-- Reading a printed number. -/
@[simp] theorem readInt_decimal (number : Int) :
    readInt (decimal number) = some number := by
  rw [readInt, strip_decimal]
  by_cases negative : number < 0
  · rw [decimal, if_pos negative]
    simp only [readNat_toDigits, Option.map_some, Option.some.injEq]
    change -(number.natAbs : Int) = number
    omega
  · have noSign : ∀ c rest, c.isDigit = false →
        Nat.toDigits 10 number.natAbs ≠ c :: rest := by
      intro c rest noDigit same
      have isDigit := Nat.isDigit_of_mem_toDigits (b := 10) (n := number.natAbs)
        (c := c) (by decide) (by decide) (by simp [same])
      simp [noDigit] at isDigit
    rw [decimal, if_neg negative]
    split
    · rename_i same
      exact absurd same (noSign _ _ rfl)
    · rename_i same
      exact absurd same (noSign _ _ rfl)
    · rw [readNat_toDigits]
      simp only [Option.map_some, Option.some.injEq]
      change (number.natAbs : Int) = number
      omega

/-- Spaces around a number do not matter. -/
@[simp] theorem readInt_strip (text : Text) : readInt (strip text) = readInt text := by
  rw [readInt, strip_strip]
  rfl

/-- Plain digits are a number. -/
theorem exists_readInt_digits
    {digits : Text}
    (nonempty : digits ≠ [])
    (plain : ∀ c ∈ digits, c.isDigit) : ∃ value, readInt digits = some value := by
  have noSpace : ∀ c ∈ digits, isSpace c = false := by
    intro c member
    have code := toNat_of_isDigit (plain c member)
    simp [isSpace]
    omega
  have stripped : strip digits = digits := by
    rw [strip, stripBy_eq_self]
    constructor
    · intro c isHead
      simp [noSpace c (List.mem_of_mem_head? isHead)]
    · intro c isLast
      simp [noSpace c (List.mem_of_mem_getLast? isLast)]
  obtain ⟨c, digits, rfl⟩ := List.exists_cons_of_ne_nil nonempty
  have isDigit := plain c (by simp)
  rw [readInt, stripped]
  split
  next same =>
    obtain ⟨rfl, -⟩ := List.cons.inj same
    simp at isDigit
  next same =>
    obtain ⟨rfl, -⟩ := List.cons.inj same
    simp at isDigit
  next =>
    rw [readNat, digitValue_of_isDigit isDigit, Option.bind_some,
      readDigits_eq fun c member => plain c (List.mem_cons_of_mem _ member)]
    exact ⟨_, rfl⟩

/-! ## Tokens -/

/-- There is one token more than there are separators. -/
theorem length_splitOn (separator : Char) (text : Text) :
    (text.splitOn separator).length = text.count separator + 1 := by
  induction text with
  | nil => rfl
  | cons c text inductionHypothesis =>
      rw [List.splitOn_cons_eq_if_modifyHead, List.count_cons]
      split
      · rw [List.length_cons, inductionHypothesis]
      · rw [List.length_modifyHead, inductionHypothesis]

/-- Joining two lists of tokens. -/
theorem intercalate_append
    {first second : List Text}
    (someFirst : first ≠ [])
    (someSecond : second ≠ [])
    (separator : Char) :
    [separator].intercalate (first ++ second) =
      [separator].intercalate first ++
        separator :: [separator].intercalate second := by
  induction first with
  | nil => exact absurd rfl someFirst
  | cons token first inductionHypothesis =>
      cases first with
      | nil => simp [List.intercalate_cons_of_ne_nil someSecond]
      | cons next first =>
          rw [List.cons_append, List.cons_append, List.intercalate_cons_cons,
            ← List.cons_append, inductionHypothesis (by simp),
            List.intercalate_cons_cons]
          simp

/-- The characters of joined tokens. -/
theorem mem_intercalate
    {separator c : Char}
    {tokens : List Text}
    (member : c ∈ [separator].intercalate tokens) :
    c = separator ∨ ∃ token ∈ tokens, c ∈ token := by
  induction tokens with
  | nil => exact absurd member (by simp)
  | cons token tokens inductionHypothesis =>
      cases tokens with
      | nil => exact Or.inr ⟨token, by simp, by simpa using member⟩
      | cons next tokens =>
          rw [List.intercalate_cons_cons, List.mem_append, List.mem_append] at member
          rcases member with (inToken | isSeparator) | inRest
          · exact Or.inr ⟨token, by simp, inToken⟩
          · exact Or.inl (List.mem_singleton.mp isSeparator)
          · rcases inductionHypothesis inRest with same | ⟨other, inTokens, inOther⟩
            · exact Or.inl same
            · exact Or.inr ⟨other, List.mem_cons_of_mem _ inTokens, inOther⟩

/-- Joined tokens end in the last token. -/
theorem suffix_intercalate
    (separator : Char)
    (tokens : List Text)
    (last : Text) :
    last <:+ [separator].intercalate (tokens ++ [last]) := by
  by_cases single : tokens = []
  · simp [single]
  · rw [intercalate_append single (by simp)]
    exact ⟨[separator].intercalate tokens ++ [separator], by simp⟩

/-- The last token of a text ends in the last character. -/
theorem exists_splitOn_concat
    {separator c : Char}
    (other : c ≠ separator)
    (text : Text) :
    ∃ before last, (text ++ [c]).splitOn separator = before ++ [last ++ [c]] := by
  induction text with
  | nil => exact ⟨[], [], List.splitOn_eq_singleton (by simpa using other.symm)⟩
  | cons first text inductionHypothesis =>
      obtain ⟨before, last, isSplit⟩ := inductionHypothesis
      rw [List.cons_append, List.splitOn_cons_eq_if_modifyHead, isSplit]
      split
      · exact ⟨[] :: before, last, rfl⟩
      · cases before with
        | nil => exact ⟨[], first :: last, rfl⟩
        | cons token before => exact ⟨(first :: token) :: before, last, rfl⟩

/-- A token is empty only at an end or between two separators. -/
theorem pair_infix_of_nil_mem_splitOn
    {separator : Char}
    {text : Text}
    (empty : [] ∈ text.splitOn separator)
    (nonempty : text ≠ [])
    (head : separator ∉ text.head?)
    (last : separator ∉ text.getLast?) :
    [separator, separator] <:+: text := by
  obtain ⟨before, behind, isSplit⟩ := List.append_of_mem empty
  have joined : [separator].intercalate (text.splitOn separator) = text :=
    List.intercalate_splitOn separator
  rw [isSplit] at joined
  cases before with
  | nil =>
      cases behind with
      | nil => exact absurd joined.symm nonempty
      | cons next behind =>
          rw [List.nil_append, List.intercalate_cons_of_ne_nil (by simp)] at joined
          exact absurd (by simp [← joined]) head
  | cons first before =>
      rw [intercalate_append (by simp) (by simp)] at joined
      cases behind with
      | nil => exact absurd (by simp [← joined]) last
      | cons next behind =>
          have opened : [separator].intercalate ([] :: next :: behind) =
              separator :: [separator].intercalate (next :: behind) := by
            rw [List.intercalate_cons_cons]
            rfl
          refine ⟨[separator].intercalate (first :: before),
            [separator].intercalate (next :: behind), ?_⟩
          rw [← joined, opened]
          simp

/-- Two adjacent separators enclose an empty token. -/
theorem nil_mem_splitOn_of_pair_infix
    {separator : Char}
    {text : Text}
    (pair : [separator, separator] <:+: text) :
    [] ∈ text.splitOn separator := by
  obtain ⟨before, behind, rfl⟩ := pair
  have opened : before ++ [separator, separator] ++ behind =
      before ++ separator :: ([] ++ separator :: behind) := by
    simp
  rw [opened, List.splitOn_append_cons_self, List.splitOn_append_cons_self]
  simp

/-! ## Words -/

/-- `text.split()`. -/
def words (text : Text) : List Text :=
  (text.splitOnP isSpace).filter (· ≠ [])

/-- The rest of a text that begins in a given way. -/
def behind (start text : Text) : Option Text :=
  if start.isPrefixOf text then some (text.drop start.length) else none

/-! ## Paragraphs -/

/-- What is behind the beginning of a text. -/
@[simp] theorem behind_append (start rest : Text) : behind start (start ++ rest) = some rest := by
  simp [behind]

/-- What is behind a character. -/
@[simp] theorem behind_cons (c : Char) (rest : Text) : behind [c] (c :: rest) = some rest :=
  behind_append [c] rest

/-- `text.split('\n\n')`. -/
def paragraphs : Text → List Text
  | [] => [[]]
  | '\n' :: '\n' :: rest => [] :: paragraphs rest
  | c :: rest => (paragraphs rest).modifyHead (c :: ·)

/-- Lines, each with its end. -/
def unlines (lines : List Text) : Text :=
  lines.flatMap (· ++ ['\n'])

/-- A text without line ends belongs to the first paragraph. -/
theorem paragraphs_append
    {line : Text}
    (noEnd : '\n' ∉ line)
    (rest : Text) :
    paragraphs (line ++ rest) = (paragraphs rest).modifyHead (line ++ ·) := by
  induction line with
  | nil => exact (congrFun List.modifyHead_id (paragraphs rest)).symm
  | cons c line inductionHypothesis =>
      have other : c ≠ '\n' := fun same => noEnd (by simp [same])
      rw [List.cons_append, paragraphs]
      · rw [inductionHypothesis fun member => noEnd (List.mem_cons_of_mem _ member),
          List.modifyHead_modifyHead]
        rfl
      · simp [other]

/-- A line end before another character belongs to the first paragraph. -/
theorem paragraphs_newline_cons
    {c : Char}
    (other : c ≠ '\n')
    (rest : Text) :
    paragraphs ('\n' :: c :: rest) =
      (paragraphs (c :: rest)).modifyHead ('\n' :: ·) := by
  rw [paragraphs]
  simp [other]

/-- Lines up to an empty one are the first paragraph. -/
theorem paragraphs_unlines
    {first : Text}
    {lines : List Text}
    (noEnd : ∀ line ∈ first :: lines, '\n' ∉ line)
    (nonempty : ∀ line ∈ lines, line ≠ [])
    (rest : Text) :
    paragraphs (unlines (first :: lines) ++ '\n' :: rest) =
      ['\n'].intercalate (first :: lines) :: paragraphs rest := by
  induction lines generalizing first with
  | nil =>
      simp only [unlines, List.flatMap_cons, List.flatMap_nil, List.append_nil,
        List.append_assoc, List.singleton_append]
      rw [paragraphs_append (noEnd first (by simp)), paragraphs]
      simp
  | cons second lines inductionHypothesis =>
      have behind := inductionHypothesis
        (fun line member => noEnd line (List.mem_cons_of_mem _ member))
        (fun line member => nonempty line (List.mem_cons_of_mem _ member))
      obtain ⟨c, second', rfl⟩ :=
        List.exists_cons_of_ne_nil (nonempty second (by simp))
      have other : c ≠ '\n' := fun same => noEnd (c :: second') (by simp) (by simp [same])
      have opened : unlines (first :: (c :: second') :: lines) =
          first ++ '\n' :: unlines ((c :: second') :: lines) := by
        simp [unlines]
      rw [opened, List.append_assoc, List.cons_append,
        paragraphs_append (noEnd first (by simp))]
      have start : unlines ((c :: second') :: lines) ++ '\n' :: rest =
          c :: (second' ++ '\n' :: (unlines lines ++ '\n' :: rest)) := by
        simp [unlines]
      rw [start, paragraphs_newline_cons other, ← start, behind]
      simp

end Text
end Library
