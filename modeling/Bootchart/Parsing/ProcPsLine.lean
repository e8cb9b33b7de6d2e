import Bootchart.Parsing.ProcPs
import Mathlib.Data.List.Infix

/-!
# Reading back the status of a process

A line of `/proc/<pid>/stat` with a given command name is read back correctly if
and only if the name is UTF-8, has no two adjacent spaces and no space behind a
closing parenthesis, and has no parenthesis at either end.
-/

namespace Bootchart
namespace Parsing

open Library (Text)
open Library.Text (decimal stripChars strip)

/-- A line of `/proc/<pid>/stat`. -/
structure StatLine where
  /-- The process. -/
  pid : Int
  /-- Its command name. -/
  comm : Bytes
  /-- Its state. -/
  state : Char
  /-- Its parent. -/
  ppid : Int
  /-- The fields from the fifth on. -/
  rest : List Int

namespace StatLine

/-- A line is well formed: at least 22 fields, a letter for the state, and a name
of at most 15 bytes without line end. -/
structure WellFormed (line : StatLine) : Prop where
  /-- There is a name. -/
  nonempty : line.comm ≠ []
  /-- It has at most 15 bytes. -/
  length_le : line.comm.length ≤ 15
  /-- It has no line end. -/
  noEnd : 10 ∉ line.comm
  /-- The state is a letter. -/
  state : line.state.isAlpha
  /-- There are at least 22 fields. -/
  fields : 18 ≤ line.rest.length

/-- The text before the name. -/
def front (line : StatLine) : Text :=
  decimal line.pid ++ [' ', '(']

/-- The fields behind the name. -/
def fields (line : StatLine) : List Text :=
  [line.state] :: decimal line.ppid :: line.rest.map decimal

/-- The text behind the name. -/
def back (line : StatLine) : Text :=
  ')' :: ' ' :: [' '].intercalate line.fields

/-- The line as it is written. -/
def bytes (line : StatLine) : Bytes :=
  Library.Utf8.encode line.front ++ (line.comm ++ Library.Utf8.encode line.back)

/-- The line with a given name. -/
def text (line : StatLine) (name : Text) : Text :=
  line.front ++ (name ++ line.back)

/-- A record says what is written in a line. -/
structure SameRecord (line : StatLine) (record : StatRecord) : Prop where
  /-- The same process. -/
  pid : record.pid = line.pid
  /-- The same name. -/
  cmd : Library.Utf8.encode record.cmd = line.comm
  /-- The same state. -/
  state : record.state = [line.state]
  /-- The same parent. -/
  ppid : record.ppid = line.ppid
  /-- The field `utime`, the 14th. -/
  userCpu : some record.userCpu = line.rest[14 - 5]?
  /-- The field `stime`, the 15th. -/
  sysCpu : some record.sysCpu = line.rest[15 - 5]?
  /-- The field `starttime`, the 22nd. -/
  stime : some record.stime = line.rest[22 - 5]?

end StatLine

/-- A name that survives. -/
structure Survives (name : Text) : Prop where
  /-- No two spaces are adjacent. -/
  singleSpaces : ¬[' ', ' '] <:+: name
  /-- No space is behind a closing parenthesis. -/
  noClosing : ¬[')', ' '] <:+: name
  /-- The first character is no parenthesis. -/
  head : ∀ c ∈ name.head?, ¬IsParen c
  /-- The last character is no parenthesis. -/
  last : ∀ c ∈ name.getLast?, ¬IsParen c

/-- A log with given lines. -/
def statLog (frames : List (Int × List StatLine)) : Bytes :=
  logBytes (frames.map fun frame => (frame.1, frame.2.map StatLine.bytes))

/-- Nothing is raised, and every line yields one record with what is written. -/
def StatRecovered (frames : List (Int × List StatLine)) : Prop :=
  ∃ read, statRecords (statLog frames) = .ok read ∧
    List.Forall₂ (fun frame block => block.1 = frame.1 ∧
      List.Forall₂ StatLine.SameRecord frame.2 block.2) frames read

/-! ## The tokens of the name -/

/-- The name as it is written. -/
def quoted (name : Text) : Text :=
  '(' :: (name ++ [')'])

/-- Pairs that do not begin with the opening nor end with the closing parenthesis
lie within the name. -/
theorem pair_infix_quoted
    {a b : Char}
    (opening : a ≠ '(')
    (closing : b ≠ ')')
    (name : Text) :
    [a, b] <:+: quoted name ↔ [a, b] <:+: name := by
  have notFirst : ¬[a, b] <+: '(' :: (name ++ [')']) := by
    simp [List.cons_prefix_cons, opening]
  have notLast : ¬[a, b] <:+ name ++ [')'] := by
    rintro ⟨before, isName⟩
    have opened : before ++ [a, b] = (before ++ [a]) ++ [b] := by simp
    rw [opened] at isName
    exact closing (by simpa using (List.append_inj_right' isName rfl))
  rw [quoted, List.infix_cons_iff, List.infix_concat_iff]
  simp [notFirst, notLast]

/-- A token of the name is empty if and only if two spaces are adjacent. -/
theorem nil_mem_splitOn_quoted (name : Text) :
    [] ∈ (quoted name).splitOn ' ' ↔ [' ', ' '] <:+: name := by
  rw [← pair_infix_quoted (by decide) (by decide)]
  refine ⟨fun empty => ?_, Library.Text.nil_mem_splitOn_of_pair_infix⟩
  apply Library.Text.pair_infix_of_nil_mem_splitOn empty
  · simp [quoted]
  · simp [quoted]
  · simp [quoted, List.getLast?_cons]

/-- Stripping the name as it is written. -/
theorem stripChars_quoted {name : Text} :
    stripChars ['(', ')'] (quoted name) = name ↔
      (∀ c ∈ name.head?, ¬IsParen c) ∧ ∀ c ∈ name.getLast?, ¬IsParen c := by
  have ends := Library.Text.stripBy_eq_self (['(', ')'].contains ·) name
  rw [stripChars, quoted, Library.Text.stripBy_cons rfl,
    Library.Text.stripBy_concat rfl, ends]
  simp [IsParen]

/-- A token ends in a closing parenthesis. -/
def Closes (text : Text) : Prop :=
  text.getLast? = some ')'

instance : DecidablePred Closes :=
  fun text => inferInstanceAs (Decidable (text.getLast? = some ')'))

/-- The tokens of the name split at the first one that closes. -/
structure NameTokens (name : Text) (before : List Text) (closing : Text)
    (behind : List Text) : Prop where
  /-- These are the tokens. -/
  tokens : (quoted name).splitOn ' ' = before ++ closing :: behind
  /-- The ones before do not close. -/
  before_opens : ∀ text ∈ before, ¬Closes text
  /-- The one in the middle closes. -/
  closes : Closes closing

/-- There is a token that closes. -/
theorem exists_nameTokens (name : Text) :
    ∃ before closing behind, NameTokens name before closing behind := by
  obtain ⟨rest, last, isSplit⟩ := Library.Text.exists_splitOn_concat
    (show ')' ≠ ' ' by decide) ('(' :: name)
  have member : last ++ [')'] ∈ (quoted name).splitOn ' ' := by
    change _ ∈ (('(' :: name) ++ [')']).splitOn ' '
    rw [isSplit]
    simp
  have found : (((quoted name).splitOn ' ').find? (Closes ·)).isSome := by
    rw [List.find?_isSome]
    exact ⟨_, member, by simp [Closes]⟩
  obtain ⟨closing, isClosing⟩ := Option.isSome_iff_exists.mp found
  obtain ⟨closes, before, behind, isTokens, opens⟩ :=
    List.find?_eq_some_iff_append.mp isClosing
  exact ⟨before, closing, behind, isTokens, by simpa using opens,
    by simpa using closes⟩

namespace NameTokens

variable {name : Text} {before : List Text} {closing : Text} {behind : List Text}

/-- The tokens up to the one that closes, joined. -/
theorem exists_joined (parts : NameTokens name before closing behind) :
    ∃ front, [' '].intercalate (before ++ [closing]) = front ++ [')'] := by
  obtain ⟨front, isClosing⟩ := List.getLast?_eq_some_iff.mp parts.closes
  rw [isClosing]
  by_cases first : before = []
  · exact ⟨front, by simp [first]⟩
  · refine ⟨[' '].intercalate before ++ ' ' :: front, ?_⟩
    rw [Library.Text.intercalate_append first (by simp)]
    simp

/-- Nothing is behind the token that closes if and only if no space is behind a
closing parenthesis. -/
theorem behind_eq_nil (parts : NameTokens name before closing behind) :
    behind = [] ↔ ¬[')', ' '] <:+: name := by
  rw [← pair_infix_quoted (by decide) (by decide)]
  constructor
  · rintro rfl ⟨left, right, isQuoted⟩
    have opened : left ++ [')', ' '] ++ right = (left ++ [')']) ++ ' ' :: right := by
      simp
    have tokens := parts.tokens
    obtain ⟨earlier, last, isSplit⟩ :=
      Library.Text.exists_splitOn_concat (show ')' ≠ ' ' by decide) left
    rw [← isQuoted, opened, List.splitOn_append_cons_self, isSplit,
      ← List.dropLast_append_getLast (List.splitOn_ne_nil ' ' right),
      ← List.append_assoc] at tokens
    obtain ⟨isBefore, -⟩ := List.append_inj' tokens rfl
    exact parts.before_opens (last ++ [')']) (by simp [← isBefore]) (by simp [Closes])
  · intro noPair
    by_contra someBehind
    obtain ⟨front, joined⟩ := parts.exists_joined
    have isQuoted : [' '].intercalate ((quoted name).splitOn ' ') = quoted name :=
    List.intercalate_splitOn ' '
    rw [parts.tokens, List.append_cons,
      Library.Text.intercalate_append (by simp) someBehind, joined] at isQuoted
    exact noPair ⟨front, [' '].intercalate behind, by rw [← isQuoted]; simp⟩

/-- If nothing is behind the token that closes, the joined tokens are the name as
it is written. -/
theorem joined_eq (parts : NameTokens name before closing []) :
    [' '].intercalate (before ++ [closing]) = quoted name := by
  rw [← parts.tokens]
  exact List.intercalate_splitOn ' '

/-- If something is behind the token that closes, the joined tokens are too short
for the name. -/
theorem stripChars_ne
    (parts : NameTokens name before closing behind)
    (someBehind : behind ≠ []) :
    stripChars ['(', ')'] ([' '].intercalate (before ++ [closing])) ≠ name := by
  intro same
  have isQuoted : [' '].intercalate ((quoted name).splitOn ' ') = quoted name :=
    List.intercalate_splitOn ' '
  rw [parts.tokens, List.append_cons,
    Library.Text.intercalate_append (by simp) someBehind] at isQuoted
  obtain ⟨front, joined⟩ := parts.exists_joined
  rw [joined] at same isQuoted
  cases front with
  | nil => simp [quoted] at isQuoted
  | cons c inner =>
      obtain ⟨rfl, isName⟩ : c = '(' ∧
          inner ++ ')' :: ' ' :: [' '].intercalate behind = name ++ [')'] := by
        simpa [quoted] using isQuoted
      have shorter : name.length ≤ inner.length := by
        rw [← same, List.cons_append, stripChars,
          Library.Text.stripBy_cons rfl, Library.Text.stripBy_concat rfl]
        exact Library.Text.length_stripBy_le _ _
      have lengths := congrArg List.length isName
      simp only [List.length_append, List.length_cons, List.length_nil] at lengths
      omega

end NameTokens

/-! ## One line -/

variable {line : StatLine} {name : Text}

/-- A line is UTF-8 if its name is. -/
theorem decode_bytes (line : StatLine) :
    Library.Utf8.decode line.bytes =
      (Library.Utf8.decode line.comm).map line.text := by
  have closing : ∀ left right : Bytes, Library.Utf8.decode (left ++ 41 :: right) =
      (Library.Utf8.decode left).bind fun before =>
        (Library.Utf8.decode right).map fun behind => before ++ ')' :: behind :=
    Library.Utf8.decode_append_cons (c := ')') (by decide)
  have back : Library.Utf8.encode line.back = 41 :: Library.Utf8.encode
      (' ' :: [' '].intercalate line.fields) := by
    rw [StatLine.back, Library.Utf8.encode_cons,
      Library.Utf8.encodeChar_of_lt (by decide)]
    rfl
  rw [StatLine.bytes, Library.Utf8.decode_encode_append, back, closing,
    Library.Utf8.decode_encode]
  cases Library.Utf8.decode line.comm <;> rfl

/-- The fields behind the name are tokens. -/
theorem fields_tokens (wellFormed : line.WellFormed) :
    ∀ field ∈ line.fields, field ≠ [] ∧ ' ' ∉ field := by
  intro field member
  rcases List.mem_cons.mp member with rfl | inRest
  · refine ⟨by simp, fun space => ?_⟩
    have letter := wellFormed.state
    rw [← List.mem_singleton.mp space] at letter
    exact absurd letter (by decide)
  · obtain ⟨number, rfl⟩ : ∃ number, field = decimal number := by
      rcases List.mem_cons.mp inRest with rfl | inNumbers
      · exact ⟨_, rfl⟩
      · obtain ⟨number, -, rfl⟩ := List.mem_map.mp inNumbers
        exact ⟨number, rfl⟩
    exact ⟨Library.Text.decimal_ne_nil number,
      Library.Text.not_mem_decimal rfl (by decide) number⟩

/-- The tokens of a line. -/
theorem splitOn_text (wellFormed : line.WellFormed) (name : Text) :
    (line.text name).splitOn ' ' =
      decimal line.pid :: ((quoted name).splitOn ' ' ++ line.fields) := by
  have opened : line.text name = decimal line.pid ++
      ' ' :: (quoted name ++ ' ' :: [' '].intercalate line.fields) := by
    simp [StatLine.text, StatLine.front, StatLine.back, quoted]
  rw [opened, List.splitOn_append_cons_self_of_not_mem
      (Library.Text.not_mem_decimal rfl (by decide) _),
    List.splitOn_append_cons_self, List.splitOn_intercalate ' '
      (fun field member => (fields_tokens wellFormed field member).2)
      (by simp [StatLine.fields])]

/-- The first token that closes is found, unless a token is empty. -/
theorem closingOffset_tokens
    (wellFormed : line.WellFormed)
    {before : List Text}
    {closing : Text}
    {behind : List Text}
    (parts : NameTokens name before closing behind) :
    closingOffset ((quoted name).splitOn ' ' ++ line.fields) =
      if [' ', ' '] <:+: name then .error .indexError else .ok before.length := by
  have emptyToken : [] ∈ (quoted name).splitOn ' ' ++ line.fields ↔
      [' ', ' '] <:+: name := by
    rw [List.mem_append, nil_mem_splitOn_quoted]
    exact or_iff_left fun member => (fields_tokens wellFormed [] member).1 rfl
  have found : ((quoted name).splitOn ' ' ++ line.fields).findIdx?
      (fun text => text.getLast? = some ')') = some before.length := by
    have opens : before.findIdx? (fun text => text.getLast? = some ')') = none := by
      rw [List.findIdx?_eq_none_iff]
      exact fun text member => decide_eq_false (parts.before_opens text member)
    have closes : decide (closing.getLast? = some ')') = true :=
      decide_eq_true parts.closes
    rw [parts.tokens, List.append_assoc, List.findIdx?_append, opens,
      List.cons_append, List.findIdx?_cons, closes]
    simp
  rw [closingOffset, found]
  by_cases pair : [' ', ' '] <:+: name
  · rw [if_pos (emptyToken.mpr pair), if_pos pair]
  · rw [if_neg (fun member => pair (emptyToken.mp member)), if_neg pair]

/-- A line is not skipped. -/
theorem parseStatLine_text (wellFormed : line.WellFormed) (name : Text) :
    parseStatLine (line.text name) =
      closingOffset ((quoted name).splitOn ' ' ++ line.fields) >>= fun offset =>
        some <$> statFields
          (decimal line.pid :: ((quoted name).splitOn ' ' ++ line.fields)) offset := by
  have nonempty : line.text name ≠ [] := by simp [StatLine.text, StatLine.front]
  have tokens : 0 < ((quoted name).splitOn ' ').length :=
    List.length_pos_iff.mpr (List.splitOn_ne_nil _ _)
  have enough : 20 ≤ line.fields.length := by
    have fields := wellFormed.fields
    simp only [StatLine.fields, List.length_cons, List.length_map]
    omega
  have notSkipped : ¬(line.text name = [] ∨
      (decimal line.pid :: ((quoted name).splitOn ' ' ++ line.fields)).length < 21) := by
    simp only [nonempty, false_or, List.length_cons, List.length_append]
    omega
  rw [parseStatLine, splitOn_text wellFormed]
  simp only [if_neg notSkipped]
  rfl

/-- The name that is read consists of the tokens up to the one that closes. -/
theorem cmd_statFields
    {before : List Text}
    {closing : Text}
    {behind : List Text}
    {first : Text}
    {record : StatRecord}
    (read : statFields (first :: (before ++ closing :: behind)) before.length =
      .ok record) :
    record.cmd =
      stripChars ['(', ')'] ([' '].intercalate (before ++ [closing])) := by
  have name : ((first :: (before ++ closing :: behind)).drop 1).take
      (1 + before.length) = before ++ [closing] := by
    rw [List.drop_one, List.tail_cons, List.append_cons,
      List.take_left' (by simp [Nat.add_comm])]
  simp only [statFields, Library.bind_eq_ok, name] at read
  obtain ⟨_, -, _, -, _, -, _, -, _, -, _, -, same⟩ := read
  exact (Except.ok.inj same) ▸ rfl

/-- If only the fields of the line are behind the name, they are read. -/
theorem statFields_eq
    (wellFormed : line.WellFormed)
    (before : List Text)
    (closing : Text) :
    ∃ record, statFields (decimal line.pid :: (before ++ closing :: line.fields))
        before.length = .ok record ∧
      (Library.Utf8.encode record.cmd = line.comm → line.SameRecord record) := by
  let tokens := decimal line.pid :: (before ++ closing :: line.fields)
  have fieldAt : ∀ k, token tokens (k + 2 + before.length) = token line.fields k := by
    intro k
    have same : tokens[k + 2 + before.length]? = line.fields[k]? := by
      have index : k + 2 + before.length = before.length + (k + 1) + 1 := by omega
      rw [index, List.getElem?_cons_succ,
        List.getElem?_append_right (Nat.le_add_right _ _), Nat.add_sub_cancel_left,
        List.getElem?_cons_succ]
    rw [token, token, same]
  have number : ∀ k < 18, ∃ value, line.rest[k]? = some value ∧
      token tokens (k + 4 + before.length) = .ok (decimal value) := by
    intro k small
    have inside := Nat.lt_of_lt_of_le small wellFormed.fields
    refine ⟨line.rest[k], List.getElem?_eq_getElem inside, ?_⟩
    rw [fieldAt (k + 2), token]
    simp [StatLine.fields, inside]
  obtain ⟨userCpu, isUserCpu,
    (userCpuToken : token tokens (13 + before.length) = .ok _)⟩ :=
      number (14 - 5) (by decide)
  obtain ⟨sysCpu, isSysCpu,
    (sysCpuToken : token tokens (14 + before.length) = .ok _)⟩ :=
      number (15 - 5) (by decide)
  obtain ⟨stime, isStime,
    (stimeToken : token tokens (21 + before.length) = .ok _)⟩ :=
      number (22 - 5) (by decide)
  have stateToken : token tokens (2 + before.length) = .ok [line.state] := by
    rw [← Nat.zero_add 2, fieldAt 0]
    rfl
  have ppidToken : token tokens (3 + before.length) = .ok (decimal line.ppid) := by
    rw [show 3 = 1 + 2 from rfl, fieldAt 1]
    rfl
  have pidToken : token tokens 0 = .ok (decimal line.pid) := rfl
  have ints : ∀ value, int (decimal value) = .ok value := by
    intro value
    rw [int, Library.Text.readInt_decimal]
  refine ⟨
    { pid := line.pid
      cmd := stripChars ['(', ')']
        ([' '].intercalate ((tokens.drop 1).take (1 + before.length)))
      state := [line.state]
      ppid := line.ppid
      userCpu := userCpu
      sysCpu := sysCpu
      stime := stime }, ?_, fun sameName => ?_⟩
  · change statFields tokens before.length = _
    simp only [statFields, pidToken, stateToken, ppidToken, userCpuToken,
      sysCpuToken, stimeToken, ints, bind, Except.bind, pure, Except.pure]
  · exact
      { pid := rfl
        cmd := sameName
        state := rfl
        ppid := rfl
        userCpu := isUserCpu.symm
        sysCpu := isSysCpu.symm
        stime := isStime.symm }

/-- A name that survives is read back. -/
theorem parseStatLine_of_survives
    (wellFormed : line.WellFormed)
    (encoded : Library.Utf8.encode name = line.comm)
    (survives : Survives name) :
    ∃ record, parseStatLine (line.text name) = .ok (some record) ∧
      line.SameRecord record := by
  obtain ⟨before, closing, behind, parts⟩ := exists_nameTokens name
  obtain rfl := parts.behind_eq_nil.mpr survives.noClosing
  obtain ⟨record, read, same⟩ := statFields_eq wellFormed before closing
  have cmd := cmd_statFields read
  refine ⟨record, ?_, same ?_⟩
  · rw [parseStatLine_text wellFormed, closingOffset_tokens wellFormed parts,
      if_neg survives.singleSpaces, parts.tokens, List.append_assoc]
    change some <$> statFields _ _ = _
    rw [List.singleton_append, read]
    rfl
  · rw [cmd, parts.joined_eq, stripChars_quoted.mpr ⟨survives.head, survives.last⟩,
      encoded]

/-- Only a name that survives is read back. -/
theorem survives_of_parseStatLine
    (wellFormed : line.WellFormed)
    {result : Option StatRecord}
    (read : parseStatLine (line.text name) = .ok result) :
    ∃ record, result = some record ∧ (record.cmd = name → Survives name) := by
  obtain ⟨before, closing, behind, parts⟩ := exists_nameTokens name
  rw [parseStatLine_text wellFormed, closingOffset_tokens wellFormed parts] at read
  obtain ⟨offset, isOffset, fields⟩ := Library.bind_eq_ok.mp read
  by_cases pair : [' ', ' '] <:+: name
  · rw [if_pos pair] at isOffset
    exact nomatch isOffset
  · rw [if_neg pair] at isOffset
    obtain rfl := Except.ok.inj isOffset
    obtain ⟨record, isRecord, same⟩ := Library.bind_eq_ok.mp fields
    refine ⟨record, (Except.ok.inj same).symm, fun sameName => ?_⟩
    rw [parts.tokens, List.append_assoc] at isRecord
    have cmd := cmd_statFields isRecord
    rw [sameName] at cmd
    obtain rfl : behind = [] := by
      by_contra someBehind
      exact parts.stripChars_ne someBehind cmd.symm
    rw [parts.joined_eq] at cmd
    obtain ⟨head, last⟩ := stripChars_quoted.mp cmd.symm
    exact ⟨pair, parts.behind_eq_nil.mp rfl, head, last⟩

/-! ## Whole logs -/

/-- The name of a line, if it is UTF-8. -/
def StatLine.commName (line : StatLine) : Text :=
  (Library.Utf8.decode line.comm).getD []

/-- The fields behind the name have no line ends. -/
theorem newline_not_mem_fields (wellFormed : line.WellFormed) :
    ∀ field ∈ line.fields, '\n' ∉ field := by
  intro field member newline
  rcases List.mem_cons.mp member with rfl | inRest
  · have letter := wellFormed.state
    rw [← List.mem_singleton.mp newline] at letter
    exact absurd letter (by decide)
  · rcases List.mem_cons.mp inRest with rfl | inNumbers
    · exact Library.Text.not_mem_decimal (c := '\n') rfl (by decide) _ newline
    · obtain ⟨number, -, rfl⟩ := List.mem_map.mp inNumbers
      exact Library.Text.not_mem_decimal (c := '\n') rfl (by decide) _ newline

/-- A written line can be logged. -/
theorem loggable_bytes (wellFormed : line.WellFormed) : Loggable line.bytes := by
  have noEndFront : '\n' ∉ line.front := by
    simp [StatLine.front, Library.Text.not_mem_decimal (c := '\n') rfl (by decide)]
  have noEndBack : '\n' ∉ line.back := by
    intro member
    rcases List.mem_cons.mp member with isParen | inRest
    · exact absurd isParen (by decide)
    · rcases List.mem_cons.mp inRest with isSpace | inFields
      · exact absurd isSpace (by decide)
      · rcases Library.Text.mem_intercalate inFields with
          isSpace | ⟨field, isField, inField⟩
        · exact absurd isSpace (by decide)
        · exact newline_not_mem_fields wellFormed field isField inField
  constructor
  · unfold StatLine.bytes
    simp [encode_ne_nil (show line.front ≠ [] by simp [StatLine.front])]
  · simp only [StatLine.bytes, List.mem_append, not_or]
    exact ⟨newline_not_mem_encode noEndFront, wellFormed.noEnd,
      newline_not_mem_encode noEndBack⟩

/-- The text behind the name ends in a number. -/
theorem exists_back_eq (line : StatLine) :
    ∃ before number, line.back = before ++ decimal number := by
  obtain ⟨numbers, number, isNumbers⟩ :
      ∃ numbers number, line.ppid :: line.rest = numbers ++ [number] :=
    ⟨_, _, (List.dropLast_append_getLast (List.cons_ne_nil _ _)).symm⟩
  have fields : line.fields = ([line.state] :: numbers.map decimal) ++ [decimal number] := by
    have mapped := congrArg (List.map decimal) isNumbers
    simp only [List.map_cons, List.map_append, List.map_nil] at mapped
    rw [StatLine.fields, mapped]
    rfl
  obtain ⟨before, isFields⟩ := Library.Text.suffix_intercalate ' '
    ([line.state] :: numbers.map decimal) (decimal number)
  refine ⟨')' :: ' ' :: before, number, ?_⟩
  rw [StatLine.back, fields, ← isFields]
  rfl

/-- A written line has no spaces around it. -/
theorem strip_text (line : StatLine) (name : Text) :
    strip (line.text name) = line.text name := by
  rw [strip, Library.Text.stripBy_eq_self]
  constructor
  · intro c isHead
    obtain ⟨first, digits, isDecimal⟩ :=
      List.exists_cons_of_ne_nil (Library.Text.decimal_ne_nil line.pid)
    obtain rfl : first = c := by
      simpa [StatLine.text, StatLine.front, isDecimal] using isHead
    have inNumber : first ∈ decimal line.pid := by simp [isDecimal]
    simp [Library.Text.isSpace_of_mem_decimal inNumber]
  · intro c isLast
    obtain ⟨before, number, isBack⟩ := exists_back_eq line
    rw [StatLine.text, isBack, ← List.append_assoc, ← List.append_assoc,
      List.getLast?_append_of_ne_nil _ (Library.Text.decimal_ne_nil number)] at isLast
    simp [Library.Text.isSpace_of_mem_decimal (List.mem_of_getLast? isLast)]

/-- The lines of a frame whose names are UTF-8. -/
def statFrame (frame : Int × List StatLine) : Block :=
  (frame.1, frame.2.map fun line => line.text line.commName)

/-- The lines of a frame as they are written. -/
def statFrameBytes (frame : Int × List StatLine) : Int × List Bytes :=
  (frame.1, frame.2.map StatLine.bytes)

/-- The records of a log of process statuses are those of its blocks, if they end without an
exception. -/
theorem statRecords_eq_ok {file : Bytes} {read : List (Int × List StatRecord)} :
    statRecords file = .ok read ↔
      ∃ blocks, iterParseTimedBlocks file = (blocks, none) ∧
        blocks.mapM parseStatBlock = .ok read := by
  rw [statRecords]
  generalize iterParseTimedBlocks file = parsed
  obtain ⟨blocks, exception⟩ := parsed
  rw [Library.bind_eq_ok]
  constructor
  · rintro ⟨frames, areFrames, isRead⟩
    cases exception with
    | none =>
        obtain rfl := Except.ok.inj isRead
        exact ⟨blocks, rfl, areFrames⟩
    | some exception => contradiction
  · rintro ⟨_, ⟨⟩, areFrames⟩
    exact ⟨read, areFrames, rfl⟩

section Log

variable {frames : List (Int × List StatLine)}

/-- Every line of the log can be logged. -/
theorem loggable_statLog
    (wellFormed : ∀ frame ∈ frames, ∀ line ∈ frame.2, line.WellFormed) :
    ∀ frame ∈ frames.map statFrameBytes, ∀ line ∈ frame.2, Loggable line := by
  intro frame member bytes inFrame
  obtain ⟨written, inLog, rfl⟩ := List.mem_map.mp member
  obtain ⟨line, inWritten, rfl⟩ := List.mem_map.mp inFrame
  exact loggable_bytes (wellFormed written inLog line inWritten)

/-- If all names are UTF-8, the log is read line by line. -/
theorem statRecords_eq
    (wellFormed : ∀ frame ∈ frames, ∀ line ∈ frame.2, line.WellFormed)
    (decoded : ∀ frame ∈ frames, ∀ line ∈ frame.2,
      Library.Utf8.decode line.comm = some line.commName) :
    statRecords (statLog frames) = (frames.map statFrame).mapM parseStatBlock := by
  have blocks : (frames.map statFrameBytes).mapM decodeFrame =
      some (frames.map statFrame) := by
    rw [List.mapM_map]
    apply Library.mapM_eq_pure
    intro frame member
    have lines : (frame.2.map StatLine.bytes).mapM Library.Utf8.decode =
        some (frame.2.map fun line => line.text line.commName) := by
      rw [List.mapM_map]
      apply Library.mapM_eq_pure
      intro line inFrame
      rw [Function.comp_apply, decode_bytes, decoded frame member line inFrame]
      rfl
    simp only [Function.comp_apply, decodeFrame, statFrameBytes, lines]
    rfl
  have iterated := iterParseTimedBlocks_logBytes (loggable_statLog wellFormed)
  rw [blocks] at iterated
  have stripped : (frames.map statFrame).map (fun block =>
      (block.1, block.2.map strip)) = frames.map statFrame := by
    rw [List.map_map]
    apply List.map_congr_left
    intro frame _
    simp only [Function.comp_apply, statFrame, List.map_map, Prod.mk.injEq, true_and]
    exact List.map_congr_left fun line _ => strip_text line _
  rw [statRecords, statLog, show (frames.map fun frame =>
    (frame.1, frame.2.map StatLine.bytes)) = frames.map statFrameBytes from rfl,
    iterated, stripped]
  simp

/-- A name that is not UTF-8 makes the whole log unreadable. -/
theorem statRecords_error
    (wellFormed : ∀ frame ∈ frames, ∀ line ∈ frame.2, line.WellFormed)
    {frame : Int × List StatLine}
    (inLog : frame ∈ frames)
    (inFrame : line ∈ frame.2)
    (undecoded : Library.Utf8.decode line.comm = none)
    (read : List (Int × List StatRecord)) :
    statRecords (statLog frames) ≠ .ok read := by
  have lineFails : Library.Utf8.decode line.bytes = none := by
    rw [decode_bytes, undecoded]
    rfl
  have inLines : line.bytes ∈ (statFrameBytes frame).2 := List.mem_map_of_mem inFrame
  have frameFails : decodeFrame (statFrameBytes frame) = none := by
    rw [decodeFrame, Library.mapM_eq_none inLines lineFails]
    rfl
  have logFails : (frames.map statFrameBytes).mapM decodeFrame = none :=
    Library.mapM_eq_none (List.mem_map_of_mem inLog) frameFails
  have iterated := iterParseTimedBlocks_logBytes (loggable_statLog wellFormed)
  rw [logFails] at iterated
  have raised : (iterParseTimedBlocks (statLog frames)).2 =
      some .unicodeDecodeError := iterated
  intro isRead
  obtain ⟨blocks, noException, -⟩ := statRecords_eq_ok.mp isRead
  rw [noException] at raised
  contradiction

/-- The records of a frame are those of its lines. -/
theorem forall₂_of_parseStatBlock
    {frame : Int × List StatLine}
    (wellFormed : ∀ line ∈ frame.2, line.WellFormed)
    {block : Int × List StatRecord}
    (read : parseStatBlock (statFrame frame) = .ok block) :
    List.Forall₂ (fun line record =>
      record.cmd = line.commName → Survives line.commName) frame.2 block.2 := by
  unfold parseStatBlock at read
  cases results : (statFrame frame).2.mapM parseStatLine with
  | error exception =>
      rw [results] at read
      exact nomatch read
  | ok records =>
      rw [results] at read
      obtain rfl : (frame.1, records.filterMap id) = block := Except.ok.inj read
      rw [statFrame, List.mapM_map] at results
      apply Library.forall₂_filterMap_id
      refine Library.forall₂_imp_of_mem ?_ (Library.forall₂_of_mapM_eq_ok results)
      intro line inFrame record isRecord
      exact survives_of_parseStatLine (wellFormed line inFrame) isRecord

/-- Every line is recovered if and only if every name survives. -/
theorem statRecovered_iff_survives
    (wellFormed : ∀ frame ∈ frames, ∀ line ∈ frame.2, line.WellFormed) :
    StatRecovered frames ↔
      ∀ frame ∈ frames, ∀ line ∈ frame.2,
        ∃ name, Library.Utf8.encode name = line.comm ∧ Survives name := by
  constructor
  · rintro ⟨read, isRead, related⟩
    have decoded : ∀ frame ∈ frames, ∀ line ∈ frame.2,
        Library.Utf8.decode line.comm = some line.commName := by
      intro frame inLog line inFrame
      cases name : Library.Utf8.decode line.comm with
      | some text => simp [StatLine.commName, name]
      | none =>
          exact absurd isRead (statRecords_error wellFormed inLog inFrame name read)
    rw [statRecords_eq wellFormed decoded, List.mapM_map] at isRead
    intro frame inLog line inFrame
    obtain ⟨block, isBlock, -, same⟩ := Library.exists_of_forall₂
      (Library.forall₂_of_mapM_eq_ok isRead) related inLog
    obtain ⟨record, survives, sameRecord⟩ := Library.exists_of_forall₂
      (forall₂_of_parseStatBlock (wellFormed frame inLog) isBlock) same inFrame
    have encoded := Library.Utf8.decode_eq_some.mp (decoded frame inLog line inFrame)
    exact ⟨line.commName, encoded, survives
      (Library.Utf8.encode_injective (sameRecord.cmd.trans encoded.symm))⟩
  · intro survives
    have names : ∀ frame ∈ frames, ∀ line ∈ frame.2,
        Library.Utf8.encode line.commName = line.comm ∧ Survives line.commName := by
      intro frame inLog line inFrame
      obtain ⟨name, encoded, survivesName⟩ := survives frame inLog line inFrame
      obtain rfl : line.commName = name := by
        rw [StatLine.commName, Library.Utf8.decode_eq_some.mpr encoded]
        rfl
      exact ⟨encoded, survivesName⟩
    rw [StatRecovered, statRecords_eq wellFormed fun frame inLog line inFrame =>
      Library.Utf8.decode_eq_some.mpr (names frame inLog line inFrame).1,
      List.mapM_map]
    apply Library.exists_mapM_eq_ok
    intro frame inLog
    have results : ∃ records,
        (frame.2.map fun line => line.text line.commName).mapM parseStatLine =
          .ok records ∧
        List.Forall₂ (fun line result => ∃ record, result = some record ∧
          line.SameRecord record) frame.2 records := by
      rw [List.mapM_map]
      apply Library.exists_mapM_eq_ok
      intro line inFrame
      obtain ⟨encoded, survivesName⟩ := names frame inLog line inFrame
      obtain ⟨record, isRecord, same⟩ := parseStatLine_of_survives
        (wellFormed frame inLog line inFrame) encoded survivesName
      exact ⟨some record, isRecord, record, rfl, same⟩
    obtain ⟨records, areRecords, areRelated⟩ := results
    refine ⟨(frame.1, records.filterMap id), ?_, rfl,
      Library.forall₂_filterMap_id areRelated⟩
    rw [Function.comp_apply, statFrame, parseStatBlock, areRecords]
    rfl

end Log

/-- A line about the process 7 with a given name. -/
def namedLine (name : Text) : StatLine where
  pid := 7
  comm := Library.Utf8.encode name
  state := 'S'
  ppid := 1
  rest := List.replicate 18 0

/-- A process called `init` is recovered. -/
theorem statRecovered_init :
    StatRecovered [(3, [namedLine ['i', 'n', 'i', 't']])] := by
  refine (statRecovered_iff_survives ?_).mpr ?_
  · simp only [List.mem_singleton, forall_eq]
    exact ⟨by decide, by decide, by decide, by decide, by decide⟩
  · simp only [List.mem_singleton, forall_eq]
    exact ⟨['i', 'n', 'i', 't'], rfl, by decide, by decide, by simp [IsParen],
      by simp [IsParen]⟩

/-- A name with two adjacent spaces raises an exception. -/
theorem not_statRecovered_spaces :
    (namedLine ['a', ' ', ' ', 'b']).WellFormed ∧
      statRecords (statLog [(3, [namedLine ['a', ' ', ' ', 'b']])]) =
        .error .indexError ∧
      ¬StatRecovered [(3, [namedLine ['a', ' ', ' ', 'b']])] := by
  have wellFormed : (namedLine ['a', ' ', ' ', 'b']).WellFormed :=
    ⟨by decide, by decide, by decide, by decide, by decide⟩
  have decoded : Library.Utf8.decode (namedLine ['a', ' ', ' ', 'b']).comm =
      some ['a', ' ', ' ', 'b'] := Library.Utf8.decode_encode _
  have name : (namedLine ['a', ' ', ' ', 'b']).commName = ['a', ' ', ' ', 'b'] := by
    rw [StatLine.commName, decoded]
    rfl
  obtain ⟨before, closing, behind, parts⟩ := exists_nameTokens ['a', ' ', ' ', 'b']
  have raises : parseStatLine ((namedLine ['a', ' ', ' ', 'b']).text
      ['a', ' ', ' ', 'b']) = .error .indexError := by
    rw [parseStatLine_text wellFormed, closingOffset_tokens wellFormed parts,
      if_pos (by decide)]
    rfl
  have fails : statRecords (statLog [(3, [namedLine ['a', ' ', ' ', 'b']])]) =
      .error .indexError := by
    rw [statRecords_eq (by simpa using wellFormed) (by simpa [name] using decoded)]
    simp only [List.map_cons, List.map_nil, statFrame, name, List.mapM_cons,
      parseStatBlock, raises]
    rfl
  refine ⟨wellFormed, fails, ?_⟩
  rintro ⟨read, isRead, -⟩
  rw [fails] at isRead
  exact nomatch isRead

end Parsing
end Bootchart
