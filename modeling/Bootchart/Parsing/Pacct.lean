import Bootchart.Library.LittleEndian
import Bootchart.Parsing.ParentMap

/-!
# Process accounting

`_parse_pacct` was written for an interpreter whose files are read as texts. There an entry of what
was read is a text with one character, and nothing read is the empty text. Under Python 3 an entry
of bytes is a number, and no bytes are equal to a text. The loop is modelled for both.
-/

namespace Bootchart
namespace Parsing

open Library (Dict leBytes leValue length_leBytes)

/-- What `file.read` returns. -/
inductive Interpreter
  /-- Texts. -/
  | python2
  /-- Bytes. -/
  | python3
  deriving DecidableEq

/-- `byts == ""`. -/
def equalsEmptyText : Interpreter → Bytes → Bool
  | .python2, byts => byts.isEmpty
  | .python3, _ => false

/-- `ord(byts[index])`. -/
def ordAt (interpreter : Interpreter) (byts : Bytes) (index : Nat) : Except Exception Nat :=
  match byts[index]? with
  | none => .error .indexError
  | some byte =>
      match interpreter with
      | .python2 => .ok byte.toNat
      | .python3 => .error .typeError

/-- `_read_le_int32`: the number, and the file behind it. -/
def readLeInt32From (interpreter : Interpreter) (file : Bytes) :
    Except Exception (Int × Bytes) := do
  let byts := file.take 4
  let first ← ordAt interpreter byts 0
  let second ← ordAt interpreter byts 1
  let third ← ordAt interpreter byts 2
  let fourth ← ordAt interpreter byts 3
  return (((first ||| (second <<< 8) ||| (third <<< 16) ||| (fourth <<< 24) : Nat) : Int),
    file.drop 4)

/-- What an iteration of the loop leads to. -/
inductive PacctOutcome
  /-- The function returns. -/
  | returned (result : Option ParentMap)
  /-- The loop goes on with the rest of the file. -/
  | goesOn (parentMap : ParentMap) (rest : Bytes)

/-- One iteration of the loop of `_parse_pacct`. -/
def pacctIteration (interpreter : Interpreter) (parentMap : ParentMap) (file : Bytes) :
    Except Exception PacctOutcome :=
  if equalsEmptyText interpreter (file.take 1) then .ok (.returned (some parentMap))
  else
    match file.drop 1 with
    -- `ord` takes a single character
    | [] => .error .typeError
    | version :: rest =>
        if version.toNat < 3 then .ok (.returned none)
        else do
          let (pid, rest) ← readLeInt32From interpreter (rest.drop 14)
          let (ppid, rest) ← readLeInt32From interpreter rest
          return .goesOn (parentMap.set pid ppid) ((rest.drop (4 + 4 + 16)).drop 16)

/-- A number is read from the front of what is left. -/
theorem readLeInt32From_snd {interpreter : Interpreter} {file rest : Bytes} {number : Int}
    (read : readLeInt32From interpreter file = .ok (number, rest)) :
    rest = file.drop 4 := by
  simp only [readLeInt32From, bind, Except.bind, pure, Except.pure] at read
  split at read
  · exact absurd read nofun
  · split at read
    · exact absurd read nofun
    · split at read
      · exact absurd read nofun
      · split at read
        · exact absurd read nofun
        · exact (congrArg Prod.snd (Except.ok.inj read)).symm

/-- The loop goes on with a shorter file. -/
theorem length_of_goesOn {interpreter : Interpreter} {parentMap next : ParentMap}
    {file rest : Bytes}
    (iterated : pacctIteration interpreter parentMap file = .ok (.goesOn next rest)) :
    rest.length < file.length := by
  unfold pacctIteration at iterated
  split at iterated
  · exact absurd iterated (by simp)
  · split at iterated
    · exact absurd iterated (by simp)
    next version behind isRest =>
      have shorter : behind.length < file.length := by
        have lengths := congrArg List.length isRest
        rw [List.length_drop, List.length_cons] at lengths
        omega
      split at iterated
      · exact absurd iterated (by simp)
      · cases first : readLeInt32From interpreter (behind.drop 14) with
        | error error =>
            rw [first] at iterated
            simp only [bind, Except.bind, reduceCtorEq] at iterated
        | ok pid =>
            obtain ⟨pid, afterPid⟩ := pid
            cases second : readLeInt32From interpreter afterPid with
            | error error =>
                rw [first] at iterated
                simp only [bind, Except.bind, second, reduceCtorEq] at iterated
            | ok ppid =>
                obtain ⟨ppid, afterPpid⟩ := ppid
                rw [first] at iterated
                simp only [bind, Except.bind, second, pure, Except.pure, Except.ok.injEq,
                  PacctOutcome.goesOn.injEq] at iterated
                rw [← iterated.2, readLeInt32From_snd second, readLeInt32From_snd first]
                simp only [List.length_drop]
                omega

/-- The loop of `_parse_pacct`. -/
def parsePacctFrom (interpreter : Interpreter) (parentMap : ParentMap) (file : Bytes) :
    Except Exception (Option ParentMap) :=
  match _iterated : pacctIteration interpreter parentMap file with
  | .error error => .error error
  | .ok (.returned result) => .ok result
  | .ok (.goesOn next rest) => parsePacctFrom interpreter next rest
termination_by file.length
decreasing_by exact length_of_goesOn _iterated

/-- An iteration that leads on. -/
theorem parsePacctFrom_of_goesOn {interpreter : Interpreter} {parentMap next : ParentMap}
    {file rest : Bytes}
    (iterated : pacctIteration interpreter parentMap file = .ok (.goesOn next rest)) :
    parsePacctFrom interpreter parentMap file = parsePacctFrom interpreter next rest := by
  rw [parsePacctFrom]
  split
  next error isError => exact absurd (isError.symm.trans iterated) nofun
  next result isReturn => exact absurd (isReturn.symm.trans iterated) (by simp)
  next other behind goesOn =>
    have same := goesOn.symm.trans iterated
    simp only [Except.ok.injEq, PacctOutcome.goesOn.injEq] at same
    rw [same.1, same.2]

/-! ## Bytes -/

/-- Numbers are not read from bytes. -/
theorem readLeInt32From_python3 (file : Bytes) :
    ∃ error, readLeInt32From .python3 file = .error error ∧ readLeInt32 file = .error error := by
  cases file with
  | nil => exact ⟨.indexError, rfl, rfl⟩
  | cons byte bytes => exact ⟨.typeError, rfl, rfl⟩

/-- With bytes the first iteration is the last. -/
theorem pacctIteration_python3 (parentMap : ParentMap) (file : Bytes) :
    pacctIteration .python3 parentMap file =
      (pacctRecord parentMap file).map fun outcome => .returned outcome.1 := by
  rw [pacctIteration, pacctRecord, equalsEmptyText, if_neg Bool.false_ne_true]
  cases file.drop 1 with
  | nil => rfl
  | cons version rest =>
      dsimp only
      by_cases old : version.toNat < 3
      · rw [if_pos old, if_pos old]
        rfl
      · obtain ⟨error, fromError, isError⟩ := readLeInt32From_python3 (rest.drop 14)
        rw [if_neg old, if_neg old, fromError, isError]
        rfl

/-- The loop over bytes is the first record. -/
theorem parsePacctFrom_python3 (file : Bytes) :
    parsePacctFrom .python3 (Dict.empty.set 0 0) file = parsePacct file := by
  have iteration := pacctIteration_python3 (Dict.empty.set 0 0) file
  rw [parsePacctFrom, parsePacct]
  cases record : pacctRecord (Dict.empty.set 0 0) file with
  | error error =>
      rw [record] at iteration
      split
      next isError =>
        rw [isError] at iteration
        exact congrArg Except.error (Except.error.inj iteration)
      next isReturn => exact absurd (isReturn.symm.trans iteration) nofun
      next goesOn => exact absurd (goesOn.symm.trans iteration) nofun
  | ok outcome =>
      rw [record] at iteration
      split
      next isError => exact absurd (isError.symm.trans iteration) nofun
      next isReturn =>
        rw [isReturn] at iteration
        simp only [Except.map, Except.ok.injEq, PacctOutcome.returned.injEq] at iteration
        rw [iteration]
        rfl
      next goesOn =>
        rw [goesOn] at iteration
        exact absurd iteration (by simp [Except.map])

/-! ## Records -/

/-- A version-3 record. Its fields before and behind the two numbers are of no interest. -/
structure AcctV3 where
  /-- `ac_flag`. -/
  flag : UInt8
  /-- `ac_tty`, `ac_exitcode`, `ac_uid` and `ac_gid`. -/
  before : Bytes
  /-- `ac_pid`. -/
  pid : BitVec 32
  /-- `ac_ppid`. -/
  ppid : BitVec 32
  /-- The times, the counters and `ac_comm`. -/
  behind : Bytes
  /-- Two bytes and three times four. -/
  length_before : before.length = 2 + 4 + 4 + 4
  /-- Two times four bytes, eight times two, and sixteen. -/
  length_behind : behind.length = 4 + 4 + 8 * 2 + 16

/-- The bytes of a record. -/
def AcctV3.bytes (record : AcctV3) : Bytes :=
  record.flag :: 3 :: (record.before ++ (leBytes 4 record.pid.toNat ++
    (leBytes 4 record.ppid.toNat ++ record.behind)))

/-- The two numbers stand behind the first sixteen bytes. -/
theorem AcctV3.drop_before (record : AcctV3) (rest : Bytes) :
    (record.before ++ (leBytes 4 record.pid.toNat ++
        (leBytes 4 record.ppid.toNat ++ record.behind)) ++ rest).drop 14 =
      leBytes 4 record.pid.toNat ++
        (leBytes 4 record.ppid.toNat ++ (record.behind ++ rest)) := by
  rw [List.append_assoc, List.drop_left' record.length_before]
  simp only [List.append_assoc]

/-- A record takes 64 bytes. -/
theorem AcctV3.length_bytes (record : AcctV3) : record.bytes.length = 64 := by
  simp only [bytes, List.length_cons, List.length_append, length_leBytes, record.length_before,
    record.length_behind]

/-- The map of some records: a later one replaces an earlier one of the same process. -/
def acctParents (records : List AcctV3) : ParentMap :=
  records.foldl (fun parentMap record => parentMap.set record.pid.toNat record.ppid.toNat)
    (Dict.empty.set 0 0)

/-- What the map of some records is: the parents of their last records, and zero for zero. -/
theorem get?_acctParents (records : List AcctV3) (child : Int) :
    (acctParents records).get? child =
      match (records.filter fun record => (record.pid.toNat : Int) = child).getLast? with
      | some record => some (record.ppid.toNat : Int)
      | none => if child = 0 then some 0 else none := by
  induction records using List.reverseRecOn with
  | nil =>
      rw [acctParents, List.foldl_nil, Dict.get?_set]
      rfl
  | append_singleton records record inductionHypothesis =>
      rw [acctParents, List.foldl_append, List.foldl_cons, List.foldl_nil, Dict.get?_set,
        List.filter_append]
      by_cases same : child = record.pid.toNat
      · have isLast : [record].filter (fun record => (record.pid.toNat : Int) = child) =
            [record] := by
          simp [same]
        rw [if_pos same, isLast, List.getLast?_concat]
      · have different : (record.pid.toNat : Int) ≠ child := fun equal => same equal.symm
        have notLast : [record].filter (fun record => (record.pid.toNat : Int) = child) = [] := by
          simp [different]
        rw [if_neg same, notLast, List.append_nil]
        exact inductionHypothesis

/-- The function returns the map of some records. -/
def ReturnsParents (interpreter : Interpreter) (records : List AcctV3) : Prop :=
  parsePacctFrom interpreter (Dict.empty.set 0 0) (records.flatMap AcctV3.bytes) =
    .ok (some (acctParents records))

/-! ### Texts -/

/-- A number is read from a text. -/
theorem readLeInt32From_python2 {number : Nat} (small : number < 2 ^ 32) (rest : Bytes) :
    readLeInt32From .python2 (leBytes 4 number ++ rest) = .ok ((number : Int), rest) := by
  have value : leValue (leBytes 4 number) = number := Library.leValue_leBytes small
  obtain ⟨first, second, third, fourth, isBytes⟩ : ∃ first second third fourth,
      leBytes 4 number = [first, second, third, fourth] :=
    ⟨_, _, _, _, rfl⟩
  rw [isBytes] at value ⊢
  rw [← value, ← Library.or_shiftLeft_eq_leValue]
  rfl

/-- An iteration over a text that begins with a record. -/
theorem pacctIteration_python2 (parentMap : ParentMap) (record : AcctV3) (rest : Bytes) :
    pacctIteration .python2 parentMap (record.bytes ++ rest) =
      .ok (.goesOn (parentMap.set record.pid.toNat record.ppid.toNat) rest) := by
  have behind : ((record.behind ++ rest).drop (4 + 4 + 16)).drop 16 = rest := by
    rw [List.drop_drop, List.drop_left' record.length_behind]
  rw [pacctIteration, AcctV3.bytes, List.cons_append, List.cons_append, List.take_succ_cons,
    if_neg (by simp [equalsEmptyText]), List.drop_succ_cons, List.drop_zero]
  dsimp only
  rw [if_neg (by decide), record.drop_before, readLeInt32From_python2 record.pid.isLt]
  simp only [bind, Except.bind, pure, Except.pure]
  rw [readLeInt32From_python2 record.ppid.isLt]
  simp only [behind]

/-- Texts are read as they were meant to be: the layout is right, and the loop ends with the
file. -/
theorem returnsParents_python2 (records : List AcctV3) : ReturnsParents .python2 records := by
  have loop : ∀ parentMap, parsePacctFrom .python2 parentMap (records.flatMap AcctV3.bytes) =
      .ok (some (records.foldl
        (fun parentMap record => parentMap.set record.pid.toNat record.ppid.toNat) parentMap)) := by
    induction records with
    | nil =>
        intro parentMap
        rw [parsePacctFrom]
        rfl
    | cons record records inductionHypothesis =>
        intro parentMap
        rw [List.flatMap_cons, parsePacctFrom_of_goesOn (pacctIteration_python2 _ record _),
          inductionHypothesis, List.foldl_cons]
  exact loop _

/-! ### Bytes -/

/-- Every sequence of records raises. -/
theorem parsePacct_records (records : List AcctV3) :
    parsePacct (records.flatMap AcctV3.bytes) = .error .typeError := by
  cases records with
  | nil => rfl
  | cons record records =>
      have isNumber : ∃ byte bytes, (record.before ++ (leBytes 4 record.pid.toNat ++
          (leBytes 4 record.ppid.toNat ++ record.behind)) ++
            records.flatMap AcctV3.bytes).drop 14 = byte :: bytes := by
        rw [record.drop_before]
        exact ⟨_, _, rfl⟩
      obtain ⟨byte, bytes, isNumber⟩ := isNumber
      rw [List.flatMap_cons, parsePacct, pacctRecord, AcctV3.bytes, List.cons_append,
        List.cons_append, List.drop_succ_cons, List.drop_zero]
      dsimp only
      rw [if_neg (by decide), isNumber]
      rfl

/-- Bytes are never read as they were meant to be. -/
theorem not_returnsParents_python3 (records : List AcctV3) :
    ¬ReturnsParents .python3 records := by
  rw [ReturnsParents, parsePacctFrom_python3, parsePacct_records]
  exact nofun

/-- Neither is the single record of a process 2 with parent 1. -/
theorem not_returnsParents_single :
    ¬ReturnsParents .python3 [{
      flag := 0
      before := List.replicate 14 0
      pid := 2
      ppid := 1
      behind := List.replicate 40 0
      length_before := rfl
      length_behind := rfl }] := by
  rw [ReturnsParents, parsePacctFrom_python3]
  exact nofun

end Parsing
end Bootchart
