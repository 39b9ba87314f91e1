import PointsTo.Config
import PointsTo.Text.Blank
import PointsTo.Text.Split

/-!
# INI

An INI text has sections with keys and values. A section is a table, and what stands in front of the
first one is a table too, so every setting at the outermost level is a table. A value may go on over
several lines.
-/

namespace PointsTo.Ini

/-- What a line is part of. -/
inductive Place
  /-- The line starts something. -/
  | start
  /-- The line goes on with a value, because the last one ends with a backslash. -/
  | continued
  /-- The line goes on with a value in quotes. -/
  | quoted (mark : List Char)
  deriving DecidableEq, Repr

/-- The lines of a text with their line ends. -/
def fullLines (cs : List Char) : List (List Char) :=
  let ps := Text.pieces '\n' cs
  ps.dropLast.map (· ++ ['\n']) ++ (ps.getLast?.filter fun p => !p.isEmpty).toList

/-- The mark of quotes over several lines. -/
def triple : List Char := "\"\"\"".toList

/-- Whether a text occurs in a line. -/
def occurs (mark line : List Char) : Bool := (Text.cut mark line).isSome

/-- The quotes at the start of a line that stand around its key, if there are any. -/
def keyMark? (line : List Char) : Option (List Char) :=
  if triple.isPrefixOf line && 6 < (String.ofList line).utf8ByteSize then some triple
  else (line.head?.filter fun c => c = '"' || c = '\x60').map fun c => [c]

/-- The key of a line, and what stands behind the sign that ends it. -/
def key? (line : List Char) : Option (List Char × List Char) := do
  let isSign (c : Char) := c = '=' || c = ':'
  let (key, value) ← match keyMark? line with
    | some mark => do
      let (key, rest) ← Text.cut mark (line.drop mark.length)
      some (key, rest.dropWhile fun c => !isSign c)
    | none => some (line.span fun c => !isSign c)
  if value.isEmpty || (Text.trim key).isEmpty then none else some (Text.trim key, value.drop 1)

/-- What the line behind a value is part of. -/
def afterValue (value : List Char) : Place :=
  let value := Text.trimLeft value
  let mark :=
    if triple.isPrefixOf value && 3 < value.length then triple
    else value.take 1 |>.filter (· = '\x60')
  if mark.isEmpty then if (Text.trimRight value).getLast? = some '\\' then .continued else .start
  else if occurs mark (value.drop mark.length) then .start
  else .quoted mark

/-- Reads lines. `name` is the name of the section, and the answer has a table for each section with
a key. -/
def lines? (name : List Char) : Place → List (List Char) → Option Config
  | .quoted _, [] => none
  | _, [] => some []
  | .quoted mark, line :: rest =>
    lines? name (if occurs mark line then .start else .quoted mark) rest
  | .continued, line :: rest =>
    lines? name (if (Text.trimRight line).getLast? = some '\\' then .continued else .start) rest
  | .start, line :: rest =>
    match Text.trimLeft line with
    | [] | '#' :: _ | ';' :: _ => lines? name .start rest
    | '[' :: cs =>
      match (cs.reverse.dropWhile (· ≠ ']')).reverse with
      | [] | [']'] => none
      | head => lines? head.dropLast .start rest
    | cs => do
      let (_, value) ← key? cs
      let path := (Text.pieces '.' name).map String.ofList
      return (Config.setting? path .collection).toList ++ (← lines? name (afterValue value) rest)

/-- The config of an INI text, which may start with a byte order mark. -/
def config? (text : String) : Option Config :=
  let cs := text.toList
  lines? "DEFAULT".toList .start (fullLines (if cs.head? = some '\ufeff' then cs.drop 1 else cs))

end PointsTo.Ini
