import PointsTo.Config
import PointsTo.Text.Hex
import PointsTo.Text.Split

/-!
# Properties

A properties text has a key and a value on each line, with a blank, an equals sign or a colon in
between. A backslash at the end of a line goes on with the value on the next one. In a value,
`${key}` stands for the value of another key or of an environment variable.
-/

namespace PointsTo.Properties

/-- Whether a character separates words on a line. -/
def isBlank (c : Char) : Bool := c == ' ' || c == '\t' || c == '\x0c'

/-- Whether a character ends a line. -/
def isLineEnd (c : Char) : Bool := c == '\n' || c == '\r'

/-- Whether a character ends a key. -/
def endsKey (c : Char) : Bool := isBlank c || isLineEnd c || c == '=' || c == ':'

/-- The character that one behind a backslash stands for. -/
def escaped : Char → Char
  | 'f' => '\x0c'
  | 'n' => '\n'
  | 'r' => '\r'
  | 't' => '\t'
  | c => c

/-! ## Entries -/

/-- Reads a key, given in reverse so far, up to the character that ends it. -/
def key? : (acc : List Char) → List Char → Option (String × List Char)
  | acc, [] => some (String.ofList acc.reverse, [])
  | acc, '\\' :: 'u' :: a :: b :: c :: d :: rest =>
    match Text.hexNumber? [a, b, c, d] with
    | some n => key? (Text.charOf n :: acc) rest
    | none => none
  | acc, '\\' :: c :: rest => if c = 'u' then none else key? (escaped c :: acc) rest
  | acc, c :: rest =>
    if endsKey c then some (String.ofList acc.reverse, c :: rest)
    else if c = '\\' then none
    else key? (c :: acc) rest

/-- Reads a value, given in reverse so far, to the end of its last line. At the start of a line that
goes on with the value, blanks are left out. -/
def value? : (start : Bool) → (acc : List Char) → List Char → Option (String × List Char)
  | _, acc, [] => some (String.ofList acc.reverse, [])
  | _, acc, '\\' :: 'u' :: a :: b :: c :: d :: rest =>
    match Text.hexNumber? [a, b, c, d] with
    | some n => value? false (Text.charOf n :: acc) rest
    | none => none
  | _, acc, '\\' :: c :: rest =>
    if isLineEnd c then value? true acc rest
    else if c = 'u' then none
    else value? false (escaped c :: acc) rest
  | start, acc, c :: rest =>
    if isLineEnd c then some (String.ofList acc.reverse, rest)
    else if c = '\\' then none
    else if start && isBlank c then value? true acc rest
    else value? false (c :: acc) rest

/-- What follows the sign between a key and its value, which may be missing. -/
def afterSign (cs : List Char) : List Char :=
  match cs.dropWhile isBlank with
  | c :: rest => if c = '=' ∨ c = ':' then rest.dropWhile isBlank else c :: rest
  | [] => []

/-- Reads at most `n` entries and comments. A line that starts with the sign has no key, which is
refused. -/
def entries? : Nat → List Char → Option (List (String × String))
  | 0, _ => none
  | n + 1, cs =>
    match cs.dropWhile fun c => isBlank c || isLineEnd c with
    | [] => some []
    | c :: rest =>
      if c = '#' ∨ c = '!' then entries? n (rest.dropWhile fun c => !isLineEnd c)
      else do
        let (key, rest) ← key? [] (c :: rest)
        if key = "" then none
        let (value, rest) ← value? false [] (afterSign rest)
        return (key, value) :: (← entries? n rest)

/-! ## References -/

/-- How many references may stand inside one another. -/
def maxDepth : Nat := 64

/-- Replaces the references in a value. `keys` are the keys whose values are being looked up, which
may not be referred to, and `value` gives the value of a key. -/
def expand? (value : String → String) : Nat → (keys : List String) → List Char → Option (List Char)
  | 0, _, _ => none
  | n + 1, keys, cs =>
    if maxDepth < keys.length then none
    else
      match Text.cut ['$', '\x7b'] cs with
      | none => some cs
      | some (before, rest) => do
        let (key, after) ← Text.cut ['\x7d'] rest
        let key := String.ofList key
        if key ∈ keys then none
        let inner ← expand? value n (key :: keys) (value key).toList
        expand? value n keys (before ++ inner ++ after)

/-- The entries of a text with their references replaced. Each key stands where it first stood, with
its last value. A null character ends the text. -/
def read? (env : List (String × String)) (text : String) : Option (List (String × String)) := do
  let entries ← entries? (text.length + 1) (text.toList.takeWhile (· ≠ '\x00'))
  let latest := entries.reverse
  let value key := ((latest.lookup key).or (env.reverse.lookup key)).getD ""
  let keys := (entries.map fun e => e.1).eraseDups
  keys.mapM fun key =>
    (expand? value (2 * text.length + maxDepth + 2) [key] (value key).toList).map
      fun v => (key, String.ofList v)

/-- The config of a properties text; a key with points is a path of names. -/
def config? (env : List (String × String)) (text : String) : Option Config := do
  let entries ← read? env text
  return entries.reverse.filterMap fun (key, value) =>
    let path := (Text.pieces '.' key.toList).map String.ofList
    Config.setting? (path.dropLast ++ (path.getLast?.map Text.lower).toList) (.ofText value)

end PointsTo.Properties
