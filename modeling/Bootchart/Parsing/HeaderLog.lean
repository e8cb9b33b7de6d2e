import Bootchart.Collector.Header
import Bootchart.Parsing.BlockText
import Bootchart.Parsing.Headers

/-!
# The header, read back

What `dump_header` tells of a machine is what `_parse_headers` reads: the names are the same, and
the values are stripped.
-/

namespace Bootchart
namespace Parsing

open Library (Text Dict cutAtLast)
open Library.Text (decimal isSpace strip unlines)
open Library.Utf8 (encode)
open Collector (Machine dumpHeader)

/-! ## Lines of names and values -/

/-- A line of the header, without its end. -/
def entryLine (entry : Text × Text) : Text :=
  entry.1 ++ " = ".toList ++ entry.2

/-- A name of which `strip` leaves all, even if a space is appended, and which has no sign of
equality. -/
structure IsName (name : Text) : Prop where
  /-- No spaces are stripped. -/
  stripped : strip (name ++ [' ']) = name
  /-- It does not end early. -/
  noEquals : '=' ∉ name
  /-- It takes one line. -/
  noEnd : '\n' ∉ name

/-- A line with a name sets its value, or appends to it. -/
theorem headerLine_entryLine
    {name : Text}
    (isName : IsName name)
    (headers : Headers)
    (last value : Text) :
    headerLine (headers, last) (entryLine (name, value)) =
      (headers.set name ((headers.get? name).getD [] ++ strip value), name) := by
  have opened : entryLine (name, value) = (name ++ [' ']) ++ '=' :: ' ' :: value := by
    simp [entryLine]
  have member : '=' ∈ entryLine (name, value) := by
    rw [opened]
    exact List.mem_append_right _ List.mem_cons_self
  have front : ∀ c ∈ name ++ [' '], decide (c ≠ '=') = true := by
    intro c inFront
    rw [decide_eq_true_eq]
    rintro rfl
    rcases List.mem_append.mp inFront with inName | isBlank
    · exact isName.noEquals inName
    · exact absurd (List.mem_singleton.mp isBlank) (by decide)
  have ends : ∀ c ∈ ('=' :: ' ' :: value).head?, decide (c ≠ '=') = false := by
    rintro c ⟨⟩
    rfl
  have taken : (entryLine (name, value)).takeWhile (· ≠ '=') = name ++ [' '] := by
    rw [opened]
    exact Library.Text.takeWhile_append_eq front ends
  have dropped : (entryLine (name, value)).dropWhile (· ≠ '=') = '=' :: ' ' :: value := by
    rw [opened]
    exact Library.Text.dropWhile_append_eq front ends
  have isValue : strip (('=' :: ' ' :: value).drop 1) = strip value :=
    Library.Text.stripBy_cons rfl value
  rw [headerLine]
  dsimp only
  rw [if_pos member, taken, dropped, isName.stripped, isValue]

/-- A line that is empty changes nothing, if there is a value to go on with. -/
theorem headerLine_nil (headers : Headers) (last value : Text) :
    headerLine (headers.set last value, last) [] = (headers.set last value, last) := by
  have found : (headers.set last value).get? last = some value := by
    rw [Dict.get?_set, if_pos rfl]
  rw [headerLine]
  dsimp only
  rw [if_neg List.not_mem_nil, found, Dict.set_set, Option.getD_some]
  exact congrArg (fun whole => (headers.set last whole, last)) (List.append_nil value)

/-- Lines, split. -/
theorem splitOn_unlines {lines : List Text} (noEnd : ∀ line ∈ lines, '\n' ∉ line) :
    (unlines lines).splitOn '\n' = lines ++ [[]] := by
  have joined := unlines_append_eq_intercalate lines []
  rw [List.append_nil] at joined
  rw [joined]
  refine List.splitOn_intercalate '\n' (fun line member => ?_) (by simp)
  rcases List.mem_append.mp member with inLines | isLast
  · exact noEnd line inLines
  · rw [List.mem_singleton.mp isLast]
    exact List.not_mem_nil

/-- Lines, read. -/
theorem parseHeaders_unlines {lines : List Text} (noEnd : ∀ line ∈ lines, '\n' ∉ line) :
    parseHeaders (encode (unlines lines)) =
      .ok ((lines ++ [[]]).foldl headerLine (Dict.empty, [])).1 := by
  rw [parseHeaders, decodeUtf8, Library.Utf8.decode_encode]
  change Except.ok (((unlines lines).splitOn '\n').foldl headerLine _).1 = _
  rw [splitOn_unlines noEnd]

/-- Lines of distinct names, of which none was there before, set their values. -/
theorem foldl_headerLine
    {entries : List (Text × Text)}
    (areNames : ∀ entry ∈ entries, IsName entry.1)
    (distinct : (entries.map Prod.fst).Nodup)
    {headers : Headers}
    (unset : ∀ entry ∈ entries, headers.get? entry.1 = none)
    (last : Text) :
    (entries.map entryLine).foldl headerLine (headers, last) =
      (entries.foldl (fun headers entry => headers.set entry.1 (strip entry.2)) headers,
        (entries.map Prod.fst).getLastD last) := by
  induction entries generalizing headers last with
  | nil => rfl
  | cons entry entries inductionHypothesis =>
      rw [List.forall_mem_cons] at areNames unset
      rw [List.map_cons, List.nodup_cons] at distinct
      have stillUnset : ∀ other ∈ entries,
          (headers.set entry.1 (strip entry.2)).get? other.1 = none := by
        intro other member
        have differs : other.1 ≠ entry.1 := by
          intro same
          exact distinct.1 (same ▸ List.mem_map_of_mem member)
        rw [Dict.get?_set, if_neg differs, unset.2 other member]
      rw [List.map_cons, List.foldl_cons, headerLine_entryLine areNames.1, unset.1,
        Option.getD_none, List.nil_append,
        inductionHypothesis areNames.2 distinct.2 stillUnset, List.foldl_cons, List.map_cons,
        List.getLastD_cons]

/-! ## Machines -/

/-- What there is to tell of a machine. -/
structure Facts where
  /-- The version of the collector. -/
  version : Text
  /-- The name of the host; it may be anything. -/
  host : Bytes
  /-- The name of its domain. -/
  domain : Bytes
  /-- The time. -/
  time : Text
  /-- The system, its release and version, and the machine. -/
  uname : Text × Text × Text × Text
  /-- The name of the distribution. -/
  release : Text
  /-- It is printed in quotes. -/
  quoted : Bool
  /-- The lines of `/proc/cpuinfo`. -/
  cpuinfo : List Text
  /-- The options of the kernel. -/
  options : Text
  /-- The pid of the process that is forked. -/
  maxpid : Int

namespace Facts

/-- What `lsb_release` prints. -/
def printedRelease (facts : Facts) : Text :=
  if facts.quoted then '"' :: facts.release ++ ['"', '\n'] else facts.release ++ ['\n']

/-- What `dump_header` asks for. -/
def machine (facts : Facts) : Machine where
  version := encode facts.version
  names := some (facts.host, facts.domain)
  time := encode (facts.time ++ ['\n'])
  uname := some (encode facts.uname.1, encode facts.uname.2.1, encode facts.uname.2.2.1,
    encode facts.uname.2.2.2)
  lsb := some (encode facts.printedRelease)
  cpuinfo := some (encode (unlines facts.cpuinfo))
  cmdline := some (encode (facts.options ++ ['\n']))
  maxpid := facts.maxpid

/-- The name that is shown for the host: what is no plain character is a dot. -/
def hostText (facts : Facts) : Text :=
  (Collector.hostBuf (some (facts.host, facts.domain))).map fun byte => Char.ofNat byte.toNat

/-- The lines that tell a model. -/
def modelLines (facts : Facts) : List Text :=
  facts.cpuinfo.filter fun line => Collector.isModelName (encode line)

/-- The lines of the processors. -/
def processors (facts : Facts) : List Text :=
  facts.cpuinfo.filter fun line => Collector.isProcessor (encode line)

/-- What is behind the first colon of a line and a space. -/
def valueOf (line : Text) : Text :=
  (line.dropWhile (· ≠ ':')).drop 2

/-- The model: the last one that is told, or else what is told of the last processor. -/
def model (facts : Facts) : Text :=
  ((facts.modelLines.getLast?.or facts.processors.getLast?).map valueOf).getD []

/-- The names and values in front of the model. -/
def firstEntries (facts : Facts) : List (Text × Text) :=
  [("version".toList, facts.version),
    ("title".toList,
      "Boot chart for ".toList ++ facts.hostText ++ " (".toList ++ facts.time ++ ")".toList),
    ("system.uname".toList, facts.uname.1 ++ ' ' :: facts.uname.2.1 ++
      ' ' :: facts.uname.2.2.1 ++ ' ' :: facts.uname.2.2.2),
    ("system.release".toList, facts.release)]

/-- The names and values from the model on. -/
def lastEntries (facts : Facts) : List (Text × Text) :=
  [("system.cpu".toList, facts.model ++ ' ' :: decimal (facts.processors.length : Nat)),
    ("system.cpu.num".toList, decimal (facts.processors.length : Nat)),
    ("system.kernel.options".toList, facts.options),
    ("system.maxpid".toList, decimal facts.maxpid)]

/-- What is read. -/
def headers (facts : Facts) : Headers :=
  (facts.firstEntries ++ facts.lastEntries).foldl
    (fun headers entry => headers.set entry.1 (strip entry.2)) Dict.empty

/-- What is told takes one line each, and fits into the buffers. -/
structure Tellable (facts : Facts) : Prop where
  /-- The version. -/
  version : '\n' ∉ facts.version
  /-- The time. -/
  time : '\n' ∉ facts.time
  /-- What `uname` tells. -/
  uname : '\n' ∉ facts.uname.1 ∧ '\n' ∉ facts.uname.2.1 ∧ '\n' ∉ facts.uname.2.2.1 ∧
    '\n' ∉ facts.uname.2.2.2
  /-- The name of the distribution, which has no quotes. -/
  release : '\n' ∉ facts.release ∧ '"' ∉ facts.release ∧ Char.ofNat 0 ∉ facts.release ∧
    (encode facts.release).length + 4 ≤ 4096
  /-- The options of the kernel. -/
  options : '\n' ∉ facts.options ∧ Char.ofNat 0 ∉ facts.options ∧
    (encode facts.options).length + 2 ≤ 4096
  /-- The lines of `/proc/cpuinfo`. -/
  lines : ∀ line ∈ facts.cpuinfo, '\n' ∉ line ∧ Char.ofNat 0 ∉ line ∧
    (encode line).length + 2 ≤ 4096
  /-- The values of models and processors are behind a colon and a space. -/
  colons : ∀ line ∈ facts.cpuinfo,
    Collector.isModelName (encode line) ∨ Collector.isProcessor (encode line) →
      ∃ name value, ':' ∉ name ∧ line = name ++ ':' :: ' ' :: value

end Facts

/-! ## What is written -/

section Writing

open Collector (CpuInfo behindColon cpuinfoLine cString fgets isModelName isProcessor readCpuinfo
  releaseOf tellModel tellProcessor unquote)

/-- A line, with its end. -/
theorem encode_line (text : Text) : encode (text ++ ['\n']) = encode text ++ [10] := by
  have newline : encode ['\n'] = [10] := by decide
  rw [Library.Utf8.encode_append, newline]

/-- A text without a zero is a whole string. -/
theorem cString_encode {text : Text} (noNul : Char.ofNat 0 ∉ text) :
    cString (encode text) = encode text := by
  rw [cString, List.takeWhile_eq_self_iff]
  intro byte member
  rw [decide_eq_true_eq]
  rintro rfl
  exact noNul ((Library.Utf8.mem_encode (c := Char.ofNat 0) (by decide)).mp member)

/-- A line is read whole. -/
theorem fgets_encode
    {text : Text}
    (noEnd : '\n' ∉ text)
    (noNul : Char.ofNat 0 ∉ text)
    (fits : (encode text).length + 2 ≤ 4096) :
    fgets 4096 (encode (text ++ ['\n'])) = some (encode (text ++ ['\n'])) := by
  have noEndByte : (10 : UInt8) ∉ encode text := fun member =>
    noEnd ((Library.Utf8.mem_encode (c := '\n') (by decide)).mp member)
  have fitsInBuffer : ([] : Bytes).length + (encode text).length + 2 ≤ 4096 := by
    rw [List.length_nil, Nat.zero_add]
    exact fits
  have noNulInLine : Char.ofNat 0 ∉ text ++ ['\n'] := by
    rw [List.mem_append, List.mem_singleton, not_or]
    exact ⟨noNul, by decide⟩
  have isPiece := Library.pieces_append noEndByte fitsInBuffer []
  rw [fgets, encode_line, isPiece, List.head?_cons, Option.map_some, List.nil_append,
    ← encode_line, cString_encode noNulInLine]

/-- Without quotes nothing is taken off. -/
theorem unquote_of_not_mem {release : Bytes} (noQuote : 34 ∉ release) :
    unquote release = release := by
  unfold unquote
  dsimp only
  split
  next => exact absurd List.mem_cons_self noQuote
  next => exact Library.cutAtLast_of_not_mem noQuote

/-- Quotes are taken off, with what is behind them. -/
theorem unquote_quoted (release : Bytes) : unquote (34 :: (release ++ [34, 10])) = release := by
  have isLast : (34 :: (release ++ [34, 10])).getLast? = some 10 := by
    rw [← List.cons_append, List.getLast?_append]
    rfl
  have noQuote : (34 : UInt8) ∉ [10, 10] := by decide
  unfold unquote
  dsimp only
  rw [isLast]
  change cutAtLast 34 (release ++ [34, 10] ++ [10]) = release
  rw [List.append_assoc]
  exact Library.cutAtLast_append noQuote release

/-- The line ends behind the name of the distribution. -/
def releaseEnds (facts : Facts) : List Text :=
  if facts.quoted then [] else [[]]

/-- The name of the distribution is told, and without quotes a line end more. -/
theorem releaseOf_printedRelease {facts : Facts} (tellable : facts.Tellable) :
    releaseOf (some (encode facts.printedRelease)) ++ [10] =
      encode (facts.release ++ '\n' :: unlines (releaseEnds facts)) := by
  obtain ⟨noEnd, noQuote, noNul, fits⟩ := tellable.release
  rw [releaseOf, Option.bind_some, Facts.printedRelease, releaseEnds]
  cases facts.quoted with
  | true =>
      have noEndInQuotes : '\n' ∉ '"' :: facts.release ++ ['"'] := by
        simp [noEnd]
      have noNulInQuotes : Char.ofNat 0 ∉ '"' :: facts.release ++ ['"'] := by
        simp [noNul]
      have quote : encode ['"'] = [34] := by decide
      have opened : encode ('"' :: facts.release ++ ['"']) =
          34 :: (encode facts.release ++ [34]) := by
        rw [List.cons_append, ← List.singleton_append, Library.Utf8.encode_append,
          Library.Utf8.encode_append, quote]
        rfl
      have fitsInQuotes : (encode ('"' :: facts.release ++ ['"'])).length + 2 ≤ 4096 := by
        rw [opened, List.length_cons, List.length_append, List.length_singleton]
        omega
      have line := fgets_encode noEndInQuotes noNulInQuotes fitsInQuotes
      have isPrinted : '"' :: facts.release ++ ['"', '\n'] =
          '"' :: facts.release ++ ['"'] ++ ['\n'] := by simp
      rw [if_pos rfl, if_pos rfl, isPrinted, line]
      change unquote (encode ('"' :: facts.release ++ ['"'] ++ ['\n'])) ++ [10] = _
      rw [encode_line, opened, List.cons_append, List.append_assoc]
      change unquote (34 :: (encode facts.release ++ [34, 10])) ++ [10] = _
      rw [unquote_quoted]
      exact (encode_line facts.release).symm
  | false =>
      have line := fgets_encode noEnd noNul (by omega)
      have noQuoteByte : (34 : UInt8) ∉ encode (facts.release ++ ['\n']) := by
        intro member
        have isQuote := (Library.Utf8.mem_encode (c := '"') (by decide)).mp member
        simp [noQuote] at isQuote
      have twoEnds : facts.release ++ '\n' :: unlines [[]] =
          facts.release ++ ['\n'] ++ ['\n'] := by simp
      rw [if_neg Bool.false_ne_true, if_neg Bool.false_ne_true, line, twoEnds]
      change unquote (encode (facts.release ++ ['\n'])) ++ [10] = _
      rw [unquote_of_not_mem noQuoteByte]
      exact (encode_line _).symm

/-- A beginning of a line that has no line end is one of the line without its end. -/
theorem isPrefixOf_line {start : Bytes} (noEnd : 10 ∉ start) (line : Bytes) :
    start.isPrefixOf (line ++ [10]) = start.isPrefixOf line := by
  rw [Bool.eq_iff_iff, List.isPrefixOf_iff_prefix, List.isPrefixOf_iff_prefix,
    List.prefix_concat_iff]
  constructor
  · rintro (rfl | isPrefix)
    · exact absurd (List.mem_append_right _ List.mem_cons_self) noEnd
    · exact isPrefix
  · exact Or.inr

/-- Whether a line tells a model does not depend on its end. -/
theorem isModelName_line (line : Bytes) : isModelName (line ++ [10]) = isModelName line :=
  isPrefixOf_line (by decide) line

/-- Nor does it whether it is the line of a processor. -/
theorem isProcessor_line (line : Bytes) : isProcessor (line ++ [10]) = isProcessor line := by
  rw [isProcessor, List.map_append]
  exact isPrefixOf_line (by decide) _

/-- What is behind the first colon of a line and a space. -/
theorem valueOf_line {name : Text} (noColon : ':' ∉ name) (value : Text) :
    Facts.valueOf (name ++ ':' :: ' ' :: value) = value := by
  have front : ∀ c ∈ name, decide (c ≠ ':') = true := by
    intro c member
    rw [decide_eq_true_eq]
    rintro rfl
    exact noColon member
  have ends : ∀ c ∈ (':' :: ' ' :: value).head?, decide (c ≠ ':') = false := by
    rintro c ⟨⟩
    rfl
  rw [Facts.valueOf, Library.Text.dropWhile_append_eq front ends]
  rfl

/-- The same in the bytes of a line. -/
theorem behindColon_line {name : Text} (noColon : ':' ∉ name) (value : Text) :
    behindColon (encode (name ++ ':' :: ' ' :: value) ++ [10]) = some (encode value ++ [10]) := by
  have colon : encode [':', ' '] = [58, 32] := by decide
  have noColonByte : (58 : UInt8) ∉ encode name := fun member =>
    noColon ((Library.Utf8.mem_encode (c := ':') (by decide)).mp member)
  have opened : encode (name ++ ':' :: ' ' :: value) ++ [10] =
      encode name ++ [58, 32] ++ (encode value ++ [10]) := by
    have parts : name ++ ':' :: ' ' :: value = name ++ ([':', ' '] ++ value) := rfl
    rw [parts, Library.Utf8.encode_append, Library.Utf8.encode_append, colon,
      List.append_assoc, List.append_assoc, List.append_assoc]
  rw [behindColon, opened, Library.findPart_append noColonByte]
  rfl

/-- The colon of a line. -/
theorem colon_mem_line (name value : Text) :
    (58 : UInt8) ∈ encode (name ++ ':' :: ' ' :: value) ++ [10] := by
  apply List.mem_append_left
  apply (Library.Utf8.mem_encode (c := ':') (by decide)).mpr
  exact List.mem_append_right _ List.mem_cons_self

/-- What has been found when some lines were read. -/
structure FoundIn (lines : List Text) (info : CpuInfo) : Prop where
  /-- The model is that of the last line that tells one. -/
  cpuModel : info.cpuModel = (((lines.filter fun line => isModelName (encode line)).getLast?).map
    fun line => encode (Facts.valueOf line) ++ [10]).getD []
  /-- The other one is that of the last processor. -/
  cpuModelAlt : info.cpuModelAlt =
    (((lines.filter fun line => isProcessor (encode line)).getLast?).map
      fun line => encode (Facts.valueOf line) ++ [10]).getD []
  /-- The processors are counted. -/
  cpus : info.cpus = (lines.filter fun line => isProcessor (encode line)).length

/-- The last one of some lines, with a line more. -/
theorem getLast?_filter_append
    (keep : Text → Bool)
    (lines : List Text)
    (line : Text) :
    ((lines ++ [line]).filter keep).getLast? =
      if keep line then some line else (lines.filter keep).getLast? := by
  rw [List.filter_append]
  by_cases kept : keep line = true
  · rw [List.filter_cons_of_pos kept, List.filter_nil, List.getLast?_concat, if_pos kept]
  · rw [List.filter_cons_of_neg kept, List.filter_nil, List.append_nil, if_neg kept]

/-- A line more. -/
theorem FoundIn.next
    {lines : List Text}
    {info : CpuInfo}
    (found : FoundIn lines info)
    {line : Text}
    (colon : isModelName (encode line) ∨ isProcessor (encode line) →
      ∃ name value, ':' ∉ name ∧ line = name ++ ':' :: ' ' :: value) :
    ∃ next, cpuinfoLine info (encode line ++ [10]) = some next ∧
      FoundIn (lines ++ [line]) next := by
  let model := encode (Facts.valueOf line) ++ [10]
  have tells : isModelName (encode line) ∨ isProcessor (encode line) →
      58 ∈ encode line ++ [10] ∧ behindColon (encode line ++ [10]) = some model := by
    intro isTold
    obtain ⟨name, value, noColon, rfl⟩ := colon isTold
    refine ⟨colon_mem_line name value, ?_⟩
    rw [behindColon_line noColon]
    simp only [model, valueOf_line noColon]
  let named := if isModelName (encode line) then { info with cpuModel := model } else info
  have first : tellModel info (encode line ++ [10]) = some named := by
    rw [tellModel, isModelName_line]
    by_cases isModel : isModelName (encode line) = true
    · obtain ⟨isThere, isBehind⟩ := tells (Or.inl isModel)
      rw [if_pos ⟨isModel, isThere⟩, isBehind]
      simp only [named, if_pos isModel]
      rfl
    · rw [if_neg fun both => isModel both.1]
      simp only [named, if_neg isModel]
  refine ⟨if isProcessor (encode line) then
    { named with cpuModelAlt := model, cpus := named.cpus + 1 } else named, ?_, ?_⟩
  · rw [cpuinfoLine, first]
    change tellProcessor named (encode line ++ [10]) = _
    rw [tellProcessor, isProcessor_line]
    by_cases isProc : isProcessor (encode line) = true
    · rw [if_pos isProc, if_pos isProc, (tells (Or.inr isProc)).2]
      rfl
    · rw [if_neg isProc, if_neg isProc]
  · constructor
    case cpuModel =>
      rw [getLast?_filter_append]
      by_cases isModel : isModelName (encode line) = true
      · simp only [named, if_pos isModel]
        split <;> rfl
      · simp only [named, if_neg isModel, ← found.cpuModel]
        split <;> rfl
    case cpuModelAlt =>
      rw [getLast?_filter_append]
      by_cases isProc : isProcessor (encode line) = true
      · rw [if_pos isProc, if_pos isProc]
        rfl
      · rw [if_neg isProc, if_neg isProc, ← found.cpuModelAlt]
        simp only [named]
        split <;> rfl
    case cpus =>
      rw [List.filter_append, List.length_append, ← found.cpus]
      by_cases isProc : isProcessor (encode line) = true
      · rw [if_pos isProc, List.filter_singleton]
        simp only [isProc, named]
        split <;> rfl
      · rw [if_neg isProc, List.filter_singleton]
        simp only [isProc, named]
        split <;> rfl

/-- All lines. -/
theorem exists_foldlM_cpuinfoLine
    {lines : List Text}
    (colons : ∀ line ∈ lines, isModelName (encode line) ∨ isProcessor (encode line) →
      ∃ name value, ':' ∉ name ∧ line = name ++ ':' :: ' ' :: value) :
    ∃ info, (lines.map fun line => encode line ++ [10]).foldlM cpuinfoLine
        { cpuModel := [], cpuModelAlt := [], cpus := 0 } = some info ∧ FoundIn lines info := by
  induction lines using List.reverseRecOn with
  | nil => exact ⟨_, rfl, rfl, rfl, rfl⟩
  | append_singleton lines line inductionHypothesis =>
      rw [List.forall_mem_append, List.forall_mem_singleton] at colons
      obtain ⟨info, read, found⟩ := inductionHypothesis colons.1
      obtain ⟨next, isNext, foundNext⟩ := found.next colons.2
      refine ⟨next, ?_, foundNext⟩
      rw [List.map_append, List.foldlM_append, read]
      change (cpuinfoLine info (encode line ++ [10]) >>= pure) = some next
      rw [isNext]
      rfl

/-- A value is told without the end of its line. -/
theorem cutAtLast_line (line : Text) :
    cutAtLast 10 (encode (Facts.valueOf line) ++ [10]) = encode (Facts.valueOf line) :=
  Library.cutAtLast_append List.not_mem_nil _

/-- `/proc/cpuinfo` is read. -/
theorem exists_readCpuinfo {facts : Facts} (tellable : facts.Tellable) :
    ∃ info, readCpuinfo facts.machine.cpuinfo = some info ∧
      info.model = encode facts.model ∧ info.cpus = facts.processors.length := by
  obtain ⟨info, read, found⟩ := exists_foldlM_cpuinfoLine tellable.colons
  refine ⟨info, ?_, ?_, found.cpus⟩
  · have areLines : facts.machine.cpuinfo.toList.flatMap (Library.pieces 10 4096 []) =
        (facts.cpuinfo.map encode).map fun line => line ++ [10] := by
      change List.flatMap _ [encode (unlines facts.cpuinfo)] = _
      rw [List.flatMap_singleton, encode_unlines]
      apply Library.pieces_flatMap
      · intro bytes member
        obtain ⟨line, inLines, rfl⟩ := List.mem_map.mp member
        intro isEnd
        exact (tellable.lines line inLines).1
          ((Library.Utf8.mem_encode (c := '\n') (by decide)).mp isEnd)
      · intro bytes member
        obtain ⟨line, inLines, rfl⟩ := List.mem_map.mp member
        exact (tellable.lines line inLines).2.2
    have areStrings : ((facts.cpuinfo.map encode).map fun line => line ++ [10]).map cString =
        facts.cpuinfo.map fun line => encode line ++ [10] := by
      rw [List.map_map, List.map_map]
      apply List.map_congr_left
      intro line member
      have noNul : Char.ofNat 0 ∉ line ++ ['\n'] := by
        rw [List.mem_append, List.mem_singleton, not_or]
        exact ⟨(tellable.lines line member).2.1, by decide⟩
      rw [Function.comp_apply, Function.comp_apply, ← encode_line, cString_encode noNul]
    rw [readCpuinfo, areLines, areStrings, read]
  · rw [CpuInfo.model, found.cpuModel, found.cpuModelAlt, Facts.model, Facts.modelLines,
      Facts.processors]
    cases (facts.cpuinfo.filter fun line => isModelName (encode line)).getLast? with
    | some line =>
        have nonempty : encode (Facts.valueOf line) ++ [10] ≠ [] :=
          List.append_ne_nil_of_right_ne_nil _ (List.cons_ne_nil _ _)
        rw [Option.map_some, Option.getD_some, if_neg nonempty, cutAtLast_line]
        rfl
    | none =>
        rw [Option.map_none, Option.getD_none, if_pos rfl, Option.none_or]
        cases (facts.cpuinfo.filter fun line => isProcessor (encode line)).getLast? with
        | some line => exact cutAtLast_line line
        | none => rfl

/-- A name of a host consists of plain characters. -/
theorem lt_of_mem_rewriteAscii
    {string : Bytes}
    {byte : UInt8}
    (member : byte ∈ Collector.rewriteAscii string) : byte.toNat < 128 ∧ byte ≠ 10 := by
  obtain ⟨original, -, rfl⟩ := List.mem_map.mp member
  cases isGraph : Collector.isGraph original with
  | true =>
      rw [if_neg (by simp)]
      rw [Collector.isGraph, Bool.and_eq_true, decide_eq_true_eq, decide_eq_true_eq,
        UInt8.le_iff_toNat_le, UInt8.le_iff_toNat_le] at isGraph
      have bounds : (33 : UInt8).toNat = 33 ∧ (126 : UInt8).toNat = 126 := ⟨rfl, rfl⟩
      refine ⟨by omega, ?_⟩
      rintro rfl
      exact absurd isGraph.1 (by decide)
  | false =>
      cases isBlank : Collector.isBlank original with
      | true =>
          rw [if_neg (by simp)]
          rw [Collector.isBlank, Bool.or_eq_true, decide_eq_true_eq, decide_eq_true_eq] at isBlank
          rcases isBlank with rfl | rfl
          · decide
          · decide
      | false =>
          rw [if_pos (by decide)]
          decide

/-- The name of the host as bytes. -/
theorem encode_hostText (facts : Facts) :
    encode facts.hostText = Collector.hostBuf (some (facts.host, facts.domain)) := by
  have isCode : ∀ byte ∈ Collector.hostBuf (some (facts.host, facts.domain)),
      (Char.ofNat byte.toNat).toNat = byte.toNat := by
    intro byte member
    have small := (lt_of_mem_rewriteAscii member).1
    have isValid : byte.toNat.isValidChar := Or.inl (by omega)
    rw [Char.ofNat, dif_pos isValid]
    rfl
  have ascii : ∀ c ∈ facts.hostText, c.toNat < 128 := by
    intro c member
    obtain ⟨byte, inName, rfl⟩ := List.mem_map.mp member
    rw [isCode byte inName]
    exact (lt_of_mem_rewriteAscii inName).1
  rw [Library.Utf8.encode_eq_map ascii, Facts.hostText, List.map_map]
  apply (List.map_congr_left ?_).trans (List.map_id _)
  intro byte member
  rw [Function.comp_apply, isCode byte member]
  exact UInt8.ofNat_toNat

/-- It takes one line. -/
theorem newline_not_mem_hostText (facts : Facts) : '\n' ∉ facts.hostText := by
  intro member
  have isByte := (Library.Utf8.mem_encode (c := '\n') (by decide)).mpr member
  rw [encode_hostText] at isByte
  exact (lt_of_mem_rewriteAscii isByte).2 rfl

/-- The lines of the header. -/
def headerLines (facts : Facts) : List Text :=
  facts.firstEntries.map entryLine ++ releaseEnds facts ++ facts.lastEntries.map entryLine

/-- A line with its end. -/
theorem headerText_eq (name value : Text) :
    Collector.headerText name (encode value ++ [10]) =
      encode (entryLine (name, value)) ++ [10] := by
  rw [Collector.headerText, entryLine, Library.Utf8.encode_append, Library.Utf8.encode_append,
    List.append_assoc, List.append_assoc, List.append_assoc]

/-- Lines with their ends. -/
theorem encode_entries (entries : List (Text × Text)) :
    encode (unlines (entries.map entryLine)) =
      entries.flatMap fun entry => Collector.headerText entry.1 (encode entry.2 ++ [10]) := by
  rw [encode_unlines, List.map_map, List.flatMap_map]
  congr 1
  funext entry
  exact (headerText_eq entry.1 entry.2).symm

/-- Words with spaces between them. -/
theorem encode_append_space (first second : Text) :
    encode (first ++ ' ' :: second) = encode first ++ 32 :: encode second := by
  have space : String.utf8EncodeChar ' ' = [32] := Library.Utf8.encodeChar_of_lt (by decide)
  rw [Library.Utf8.encode_append, Library.Utf8.encode_cons, space]
  rfl

/-- What is written are these lines. -/
theorem dumpHeader_machine {facts : Facts} (tellable : facts.Tellable) :
    dumpHeader facts.machine = some (encode (unlines (headerLines facts))) := by
  obtain ⟨info, read, isModel, areCpus⟩ := exists_readCpuinfo tellable
  have options : fgets 4096 (encode (facts.options ++ ['\n'])) =
      some (encode facts.options ++ [10]) := by
    rw [fgets_encode tellable.options.1 tellable.options.2.1 tellable.options.2.2, encode_line]
  have time : cutAtLast 10 (encode (facts.time ++ ['\n'])) = encode facts.time := by
    rw [encode_line]
    exact Library.cutAtLast_append List.not_mem_nil _
  have ends : encode ")\n".toList = encode ")".toList ++ [10] := encode_line ")".toList
  have title : encode "Boot chart for ".toList ++
      Collector.hostBuf (some (facts.host, facts.domain)) ++ encode " (".toList ++
        cutAtLast 10 (encode (facts.time ++ ['\n'])) ++ encode ")\n".toList =
      encode ("Boot chart for ".toList ++ facts.hostText ++ " (".toList ++ facts.time ++
        ")".toList) ++ [10] := by
    rw [time, ends, ← encode_hostText]
    simp only [Library.Utf8.encode_append, List.append_assoc]
  have uname : encode facts.uname.1 ++ 32 :: encode facts.uname.2.1 ++
      32 :: encode facts.uname.2.2.1 ++ 32 :: encode facts.uname.2.2.2 ++ [10] =
      encode (facts.uname.1 ++ ' ' :: facts.uname.2.1 ++ ' ' :: facts.uname.2.2.1 ++
        ' ' :: facts.uname.2.2.2) ++ [10] := by
    simp only [encode_append_space]
  have release : Collector.headerText "system.release".toList
      (releaseOf facts.machine.lsb ++ [10]) =
      Collector.headerText "system.release".toList (encode facts.release ++ [10]) ++
        encode (unlines (releaseEnds facts)) := by
    have opened : facts.release ++ '\n' :: unlines (releaseEnds facts) =
        facts.release ++ ['\n'] ++ unlines (releaseEnds facts) := by simp
    change Collector.headerText _ (releaseOf (some (encode facts.printedRelease)) ++ [10]) = _
    rw [releaseOf_printedRelease tellable, opened, Library.Utf8.encode_append, encode_line,
      Collector.headerText, Collector.headerText]
    simp only [List.append_assoc]
  have cpu : info.model ++ 32 :: Collector.decimal info.cpus ++ [10] =
      encode (facts.model ++ ' ' :: decimal (facts.processors.length : Nat)) ++ [10] := by
    rw [isModel, areCpus, encode_append_space]
    rfl
  rw [dumpHeader, read, headerLines, unlines_append, unlines_append, Library.Utf8.encode_append,
    Library.Utf8.encode_append, encode_entries, encode_entries]
  dsimp only [Facts.machine] at release ⊢
  rw [options, title, uname, release]
  simp only [Option.map_some, Option.bind_eq_bind, Option.bind_some]
  rw [cpu, areCpus]
  apply congrArg some
  simp only [Facts.firstEntries, Facts.lastEntries, List.flatMap_cons, List.flatMap_nil,
    List.append_assoc, List.append_nil]
  rfl

end Writing

/-! ## What is read -/

/-- The names are names. -/
theorem isName_of_mem {facts : Facts} {entry : Text × Text}
    (member : entry ∈ facts.firstEntries ++ facts.lastEntries) : IsName entry.1 := by
  have named : entry.1 ∈ (facts.firstEntries ++ facts.lastEntries).map Prod.fst :=
    List.mem_map_of_mem member
  have all : ∀ name ∈ ["version".toList, "title".toList, "system.uname".toList,
      "system.release".toList, "system.cpu".toList, "system.cpu.num".toList,
      "system.kernel.options".toList, "system.maxpid".toList],
      strip (name ++ [' ']) = name ∧ '=' ∉ name ∧ '\n' ∉ name := by
    decide +kernel
  obtain ⟨stripped, noEquals, noEnd⟩ := all entry.1 named
  exact ⟨stripped, noEquals, noEnd⟩

/-- They are distinct. -/
theorem nodup_names (facts : Facts) :
    ((facts.firstEntries ++ facts.lastEntries).map Prod.fst).Nodup := by
  change ["version".toList, "title".toList, "system.uname".toList,
      "system.release".toList, "system.cpu".toList, "system.cpu.num".toList,
      "system.kernel.options".toList, "system.maxpid".toList].Nodup
  decide +kernel

/-- The value of a line is a part of it. -/
theorem newline_not_mem_valueOf {line : Text} (noEnd : '\n' ∉ line) :
    '\n' ∉ Facts.valueOf line := by
  intro member
  exact noEnd ((List.dropWhile_sublist _).mem (List.mem_of_mem_drop member))

/-- The model takes one line. -/
theorem newline_not_mem_model {facts : Facts} (tellable : facts.Tellable) :
    '\n' ∉ facts.model := by
  have ofLine : ∀ line, line ∈ facts.modelLines ∨ line ∈ facts.processors →
      '\n' ∉ Facts.valueOf line := by
    rintro line (isModel | isProcessor)
    · exact newline_not_mem_valueOf (tellable.lines line (List.mem_of_mem_filter isModel)).1
    · exact newline_not_mem_valueOf (tellable.lines line (List.mem_of_mem_filter isProcessor)).1
  rw [Facts.model]
  cases told : facts.modelLines.getLast? with
  | some line => exact ofLine line (Or.inl (List.mem_of_getLast? told))
  | none =>
      cases alternative : facts.processors.getLast? with
      | some line => exact ofLine line (Or.inr (List.mem_of_getLast? alternative))
      | none => exact List.not_mem_nil

/-- Neither names nor values have line ends. -/
theorem newline_not_mem_entryLine
    {entry : Text × Text}
    (noEndInName : '\n' ∉ entry.1)
    (noEndInValue : '\n' ∉ entry.2) : '\n' ∉ entryLine entry := by
  rw [entryLine, List.append_assoc, List.mem_append, List.mem_append]
  rintro (inName | inSign | inValue)
  · exact noEndInName inName
  · exact absurd inSign (by decide)
  · exact noEndInValue inValue

/-- The values take one line each. -/
theorem newline_not_mem_values {facts : Facts} (tellable : facts.Tellable) :
    ∀ value ∈ (facts.firstEntries ++ facts.lastEntries).map Prod.snd, '\n' ∉ value := by
  have noEnd : ∀ number : Int, '\n' ∉ decimal number := fun number =>
    Library.Text.not_mem_decimal (by decide) (by decide) number
  have model := newline_not_mem_model tellable
  have host := newline_not_mem_hostText facts
  obtain ⟨system, release, version, machine⟩ := tellable.uname
  intro value member
  simp only [Facts.firstEntries, Facts.lastEntries, List.cons_append, List.nil_append,
    List.map_cons, List.map_nil, List.mem_cons, List.not_mem_nil, or_false] at member
  rcases member with rfl | rfl | rfl | rfl | rfl | rfl | rfl | rfl
  · exact tellable.version
  · simp [host, tellable.time]
  · simp [system, release, version, machine]
  · exact tellable.release.1
  · simp [model, noEnd]
  · exact noEnd _
  · exact tellable.options.1
  · exact noEnd _

/-- Each line of the header is one. -/
theorem newline_not_mem_headerLines {facts : Facts} (tellable : facts.Tellable) :
    ∀ line ∈ headerLines facts, '\n' ∉ line := by
  have ofEntry : ∀ entry ∈ facts.firstEntries ++ facts.lastEntries,
      '\n' ∉ entryLine entry := by
    intro entry member
    apply newline_not_mem_entryLine (isName_of_mem member).noEnd
    exact newline_not_mem_values tellable entry.2 (List.mem_map_of_mem member)
  intro line member
  rw [headerLines, List.mem_append, List.mem_append, List.mem_map, List.mem_map] at member
  rcases member with (⟨entry, isEntry, rfl⟩ | isEnd) | ⟨entry, isEntry, rfl⟩
  · exact ofEntry entry (List.mem_append_left _ isEntry)
  · rw [releaseEnds] at isEnd
    split at isEnd
    · exact absurd isEnd List.not_mem_nil
    · rw [List.mem_singleton.mp isEnd]
      exact List.not_mem_nil
  · exact ofEntry entry (List.mem_append_right _ isEntry)

/-- What has been read when the release is. -/
def firstHeaders (facts : Facts) : Headers :=
  facts.firstEntries.foldl (fun headers entry => headers.set entry.1 (strip entry.2)) Dict.empty

/-- A line end behind the release changes nothing. -/
theorem foldl_releaseEnds (facts : Facts) :
    (releaseEnds facts).foldl headerLine (firstHeaders facts, "system.release".toList) =
      (firstHeaders facts, "system.release".toList) := by
  rw [releaseEnds]
  split
  · rfl
  · exact headerLine_nil _ "system.release".toList (strip facts.release)

/-- The lines, read. -/
theorem foldl_headerLines (facts : Facts) :
    ((headerLines facts ++ [[]]).foldl headerLine (Dict.empty, [])).1 = facts.headers := by
  have distinct := nodup_names facts
  rw [List.map_append, List.nodup_append] at distinct
  obtain ⟨distinctFirst, distinctLast, disjoint⟩ := distinct
  have areFirst : ∀ entry ∈ facts.firstEntries, IsName entry.1 := fun entry member =>
    isName_of_mem (List.mem_append_left _ member)
  have areLast : ∀ entry ∈ facts.lastEntries, IsName entry.1 := fun entry member =>
    isName_of_mem (List.mem_append_right _ member)
  have unset : ∀ entry ∈ facts.lastEntries, (firstHeaders facts).get? entry.1 = none := by
    intro entry member
    have fresh : entry.1 ∉ facts.firstEntries.map Prod.fst := fun isFirst =>
      disjoint entry.1 isFirst entry.1 (List.mem_map_of_mem member) rfl
    exact Dict.get?_foldl_set_of_not_mem fresh Dict.empty
  have first : (facts.firstEntries.map entryLine).foldl headerLine (Dict.empty, []) =
      (firstHeaders facts, "system.release".toList) :=
    foldl_headerLine areFirst distinctFirst (fun _ _ => rfl) []
  have last : (facts.lastEntries.map entryLine).foldl headerLine
      (firstHeaders facts, "system.release".toList) =
      (facts.headers, "system.maxpid".toList) := by
    rw [foldl_headerLine areLast distinctLast unset, Facts.headers, List.foldl_append]
    rfl
  rw [headerLines, List.foldl_append, List.foldl_append, List.foldl_append, first,
    foldl_releaseEnds, last]
  exact congrArg Prod.fst
    (headerLine_nil _ "system.maxpid".toList (strip (decimal facts.maxpid)))

/-- The value of each name is what was told, stripped. -/
theorem get?_headers {facts : Facts} {entry : Text × Text}
    (member : entry ∈ facts.firstEntries ++ facts.lastEntries) :
    facts.headers.get? entry.1 = some (strip entry.2) :=
  Dict.get?_foldl_set (nodup_names facts) member Dict.empty

/-- The number of processors is read. -/
theorem getNumCpus_headers (facts : Facts) :
    getNumCpus (some facts.headers) = .ok (max (facts.processors.length : Nat) 1) := by
  have told : facts.headers.get? "system.cpu.num".toList =
      some (decimal (facts.processors.length : Nat)) := by
    have member : ("system.cpu.num".toList, decimal (facts.processors.length : Nat)) ∈
        facts.firstEntries ++ facts.lastEntries := by
      simp [Facts.lastEntries]
    rw [get?_headers member, Library.Text.strip_decimal]
  obtain ⟨digit, rest, isNumber⟩ := List.exists_cons_of_ne_nil
    (Library.Text.decimal_ne_nil (facts.processors.length : Nat))
  rw [getNumCpus, told, Option.getD_some, isNumber]
  change (int (digit :: rest)).map (max · 1) = _
  rw [← isNumber, int, Library.Text.readInt_decimal]
  rfl

/-- The header that is written of a machine is read: each value is what was told, stripped, and the
processors are those of `/proc/cpuinfo`, or one. -/
theorem parseHeaders_dumpHeader {facts : Facts} (tellable : facts.Tellable) :
    ∃ file headers, dumpHeader facts.machine = some file ∧
      parseHeaders file = .ok headers ∧
      (∀ entry ∈ facts.firstEntries ++ facts.lastEntries,
        headers.get? entry.1 = some (strip entry.2)) ∧
      getNumCpus (some headers) = .ok (max (facts.processors.length : Nat) 1) := by
  refine ⟨_, facts.headers, dumpHeader_machine tellable, ?_, fun _ => get?_headers,
    getNumCpus_headers facts⟩
  rw [parseHeaders_unlines (newline_not_mem_headerLines tellable), foldl_headerLines]

/-- A machine with two processors, whose distribution has a name in quotes. -/
def twoProcessors : Facts where
  version := "0.14.9".toList
  host := encode "böx".toList
  domain := encode "home".toList
  time := "Mon Jan  2 15:04:05 2012".toList
  uname := ("Linux".toList, "3.2.0".toList, "#1 SMP".toList, "x86_64".toList)
  release := "openSUSE 12.1".toList
  quoted := true
  cpuinfo := ["processor\t: 0".toList, "model name\t: Core = 2".toList, [],
    "processor\t: 1".toList, "model name\t: Core = 2".toList, []]
  options := "initrd=/boot/initrd quiet".toList
  maxpid := 815

/-- It can be told. -/
theorem tellable_twoProcessors : twoProcessors.Tellable where
  version := by decide +kernel
  time := by decide +kernel
  uname := by decide +kernel
  release := by decide +kernel
  options := by decide +kernel
  lines := by decide +kernel
  colons := by
    intro line member isTold
    rcases List.mem_cons.mp member with rfl | member
    · exact ⟨"processor\t".toList, "0".toList, by decide +kernel, rfl⟩
    rcases List.mem_cons.mp member with rfl | member
    · exact ⟨"model name\t".toList, "Core = 2".toList, by decide +kernel, rfl⟩
    rcases List.mem_cons.mp member with rfl | member
    · exact absurd isTold (by decide +kernel)
    rcases List.mem_cons.mp member with rfl | member
    · exact ⟨"processor\t".toList, "1".toList, by decide +kernel, rfl⟩
    rcases List.mem_cons.mp member with rfl | member
    · exact ⟨"model name\t".toList, "Core = 2".toList, by decide +kernel, rfl⟩
    · rw [List.mem_singleton.mp member] at isTold
      exact absurd isTold (by decide +kernel)

/-- The header of this machine. -/
theorem parseHeaders_dumpHeader_twoProcessors :
    ∃ file headers, dumpHeader twoProcessors.machine = some file ∧
      parseHeaders file = .ok headers ∧
      (∀ entry ∈ twoProcessors.firstEntries ++ twoProcessors.lastEntries,
        headers.get? entry.1 = some (strip entry.2)) ∧
      getNumCpus (some headers) = .ok (max (twoProcessors.processors.length : Nat) 1) :=
  parseHeaders_dumpHeader tellable_twoProcessors

example : twoProcessors.hostText = "b..x.home".toList ∧
    twoProcessors.model = "Core = 2".toList ∧ twoProcessors.processors.length = 2 := by
  decide +kernel

end Parsing
end Bootchart
