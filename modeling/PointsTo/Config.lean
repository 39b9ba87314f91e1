import PointsTo.Text.Lower
import PointsTo.RawText
import PointsTo.Yaml.Datum

/-!
# Configs

A config gives values to settings by name. Whatever format it was written in, only the settings
themselves count here, so a list or a table is not looked into.
-/

namespace PointsTo

/-- A value of a config. -/
inductive ConfigValue
  | datum (d : Yaml.Datum)
  /-- A text with bytes that belong to no character. -/
  | raw (t : RawText)
  /-- A list or a table. -/
  | collection
  deriving DecidableEq, Repr

namespace ConfigValue

/-- A text as a value. -/
def ofText (s : String) : ConfigValue := datum (.text s)

/-- Bytes as a value. -/
def ofRaw (t : RawText) : ConfigValue :=
  match t.string? with
  | some s => ofText s
  | none => raw t

/-- The integer that a text stands for; one that stands for none counts as zero. -/
def textInteger (s : String) : Int :=
  match Text.readInteger (Text.dropZeroFraction s) with
  | .ok n => n
  | .error _ => 0

/-- An integer of 64 bits without a sign, read as one with a sign. -/
def wrapped (n : Int) : Int := if Int.pow 2 63 ≤ n then n - Int.pow 2 64 else n

/-- The integer that is left of a binary number without its fraction. One that does not fit in 64
bits counts as the least integer. -/
def truncated (x : Binary64) : Int :=
  match x.whole? with
  | some n => if -Int.pow 2 63 ≤ n ∧ n < Int.pow 2 63 then n else -Int.pow 2 63
  | none => -Int.pow 2 63

/-- The value as an integer. -/
def integer : ConfigValue → Int
  | datum (.int n) => wrapped n
  | datum (.bool b) => if b then 1 else 0
  | datum (.binary x) => truncated x
  | datum (.text s) => textInteger s
  | _ => 0

/-- The value as a text. -/
def shown : ConfigValue → RawText
  | datum (.int n) => .ofString (toString n)
  | datum (.bool b) => .ofString (if b then "true" else "false")
  | datum (.binary x) => .ofString x.plainText
  | datum (.time t) => .ofString t.text
  | datum (.text s) => .ofString s
  | raw t => t
  | _ => .ofString ""

end ConfigValue

/-- Values by name, of which the first one for a name counts. A name may stand there without a
value. -/
abbrev Config := List (String × Option ConfigValue)

namespace Config

/-- What a value at a path of names sets at the outermost level: itself, or a table that it belongs
to. -/
def setting? (path : List String) (v : ConfigValue) : Option (String × Option ConfigValue) :=
  match path with
  | [] => none
  | [name] => some (name, some v)
  | name :: _ => some (name, some .collection)

/-- The config with its names in small letters. A name that was written in capitals comes before the
same name in small letters. -/
def lower (c : Config) : Config :=
  let (small, capital) := c.partition fun f => Text.lower f.1 == f.1
  (capital ++ small).map fun f => (Text.lower f.1, f.2)

end Config

end PointsTo
