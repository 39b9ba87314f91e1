import PointsTo.Text.Lower
import PointsTo.Text.Quoted

/-!
# Log lines

A log line is `level=<level> msg=<text>`; the text is quoted unless it is made of letters, digits
and a few marks only. Lines above the chosen level are left out.
-/

namespace PointsTo.Cli

/-- The levels, the most urgent first. -/
inductive Level
  | panic | fatal | error | warning | info | debug | trace
  deriving DecidableEq, Repr

namespace Level

/-- The rank of a level. -/
def rank : Level → Nat
  | panic => 0
  | fatal => 1
  | error => 2
  | warning => 3
  | info => 4
  | debug => 5
  | trace => 6

/-- The name of a level. -/
def name : Level → String
  | panic => "panic"
  | fatal => "fatal"
  | error => "error"
  | warning => "warning"
  | info => "info"
  | debug => "debug"
  | trace => "trace"

/-- The level of a name, in capitals or not. -/
def ofName? (s : String) : Option Level :=
  let s := Text.lower s
  if s = "warn" then some warning
  else [panic, fatal, error, warning, info, debug, trace].find? fun l => l.name = s

end Level

/-- Whether a character may stand in a text without quotes. -/
def isBare (c : Char) : Bool := c.isAlphanum || c ∈ ['-', '.', '_', '/', '@', '^', '+']

/-- A log line. -/
def logLine (l : Level) (text : String) : String :=
  "level=" ++ l.name ++ " msg=" ++ (if text.toList.all isBare then text
    else Text.quote text) ++ "\n"

end PointsTo.Cli
