import Bootchart.Library.Dict
import Bootchart.Parsing.TimedBlocks

/-!
# The header

`_parse_headers` reads lines of names and values; a line without a name goes on with
the value before it. `get_num_cpus` finds the number of processors in them.
-/

namespace Bootchart
namespace Parsing

open Library (Text Dict)
open Library.Text (strip leadingDigits)

/-- The values by name. -/
abbrev Headers := Dict Text Text

/-- The nested function `parse`: the headers and the last name after a line. -/
def headerLine (acc : Headers × Text) (line : Text) : Headers × Text :=
  let (headers, last) := acc
  let (last, value) :=
    if '=' ∈ line then
      (strip (line.takeWhile (· ≠ '=')), strip ((line.dropWhile (· ≠ '=')).drop 1))
    else (last, strip line)
  (headers.set last ((headers.get? last).getD [] ++ value), last)

/-- `_parse_headers`. -/
def parseHeaders (file : Bytes) : Except Exception Headers := do
  let text ← decodeUtf8 file
  return ((text.splitOn '\n').foldl headerLine (Dict.empty, [])).1

/-- The match of `.*\((\d+)\)`: the last digits in parentheses. -/
def lastParenthesized : Text → Option Text
  | [] => none
  | c :: rest =>
      (lastParenthesized rest).or
        (if c = '(' then
          match leadingDigits rest with
          | some (digits, ')' :: _) => some digits
          | _ => none
        else none)

/-- `get_num_cpus`. -/
def getNumCpus (headers : Option Headers) : Except Exception Int :=
  match headers with
  | none => .ok 1
  | some headers =>
      match (headers.get? "system.cpu.num".toList).getD [] with
      | c :: rest => (int (c :: rest)).map (max · 1)
      | [] =>
          match (headers.get? "system.cpu".toList).bind lastParenthesized with
          | none => .ok 1
          | some digits => (int digits).map (max · 1)

/-- There is at least one processor. -/
theorem one_le_numCpu
    {headers : Option Headers}
    {numCpu : Int}
    (known : getNumCpus headers = .ok numCpu) :
    1 ≤ numCpu := by
  have atLeastOne : ∀ text, (int text).map (max · 1) = .ok numCpu → 1 ≤ numCpu := by
    intro text isNumber
    cases number : int text with
    | error exception => simp [number, Except.map] at isNumber
    | ok value =>
        rw [number] at isNumber
        obtain rfl := Except.ok.inj isNumber
        exact Int.le_max_right value 1
  unfold getNumCpus at known
  split at known
  · exact Int.le_of_eq (Except.ok.inj known)
  · split at known
    · exact atLeastOne _ known
    · split at known
      · exact Int.le_of_eq (Except.ok.inj known)
      · exact atLeastOne _ known

end Parsing
end Bootchart
