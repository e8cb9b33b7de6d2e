import Bootchart.Library.Dict
import Bootchart.Parsing.TimedBlocks

/-!
# The logs of parents

`_parse_paternity_log` reads lines of a child and its parent; a later line about
the same child replaces an earlier one. `_parse_pacct` is meant to read the
records of process accounting, but it takes the bytes of a file for texts.
-/

namespace Bootchart
namespace Parsing

open Library (Text Dict)

/-- Parents by child. -/
abbrev ParentMap := Dict Int Int

/-- One line of the log. -/
def paternityLine (parentMap : ParentMap) (line : Text) : Except Exception ParentMap :=
  if line = [] then .ok parentMap
  else
    match line.splitOn ' ' with
    | child :: parent :: _ => do
        let ppid ← int parent
        let pid ← int child
        return parentMap.set pid ppid
    | _ => .ok parentMap

/-- `_parse_paternity_log`. -/
def parsePaternityLog (file : Bytes) : Except Exception ParentMap := do
  let text ← decodeUtf8 file
  (text.splitOn '\n').foldlM paternityLine (Dict.empty.set 0 0)

/-- `_read_le_int32`: `ord(byts[0])` raises, as `byts[0]` is a number already. -/
def readLeInt32 : Bytes → Except Exception (Int × Bytes)
  | [] => .error .indexError
  | _ :: _ => .error .typeError

/-- The map `_parse_pacct` has built when it meets the end of a file: there is no
such end, as `file.read(1)` is never the text `""`. The second byte of a record is
its version. -/
def pacctRecord (parentMap : ParentMap) (file : Bytes) :
    Except Exception (Option ParentMap × Bytes) :=
  match file.drop 1 with
  | [] => .error .typeError
  | version :: rest =>
      if version.toNat < 3 then .ok (none, rest)
      else do
        let (pid, rest) ← readLeInt32 (rest.drop 14)
        let (ppid, rest) ← readLeInt32 rest
        return (some (parentMap.set pid ppid), rest.drop (4 + 4 + 16 + 16))

/-- `_parse_pacct`: the first record either ends it or raises. -/
def parsePacct (file : Bytes) : Except Exception (Option ParentMap) := do
  let (parentMap, _) ← pacctRecord (Dict.empty.set 0 0) file
  return parentMap

end Parsing
end Bootchart
