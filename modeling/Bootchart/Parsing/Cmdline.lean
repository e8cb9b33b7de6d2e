import Bootchart.Library.Dict
import Bootchart.Parsing.TimedBlocks

/-!
# The log of command lines

`_parse_cmdline_log` reads blocks of three lines: the pid, the executable and the
arguments, each ended by a zero byte.
-/

namespace Bootchart
namespace Parsing

open Library (Text Dict)
open Library.Text (paragraphs)

/-- What the log says about a process. -/
structure Cmdline where
  /-- Its executable. -/
  exe : Text
  /-- Its arguments. -/
  args : List Text
  deriving DecidableEq

/-- One block of the log. -/
def cmdlineBlock (cmdLines : Dict Int Cmdline) (block : Text) :
    Except Exception (Dict Int Cmdline) :=
  match block.splitOn '\n' with
  | pid :: exe :: args :: _ => do
      let pid ← int pid
      return cmdLines.set pid
        { exe := exe.dropWhile (· = ':')
          args := ((args.dropWhile (· = ':')).splitOn '\x00').dropLast }
  | _ => .ok cmdLines

/-- `_parse_cmdline_log`. -/
def parseCmdlineLog (file : Bytes) : Except Exception (Dict Int Cmdline) := do
  let text ← decodeUtf8 file
  (paragraphs text).foldlM cmdlineBlock Dict.empty

end Parsing
end Bootchart
