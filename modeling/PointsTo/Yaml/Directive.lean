import PointsTo.Text.Integer
import PointsTo.Yaml.Cursor

/-!
# Directives of YAML

A line in front of a document that starts with a percent sign is a directive. One gives the version
of the language, the other a shorthand for tags; there are no more.
-/

namespace PointsTo.Yaml

/-- What a directive says. Of a shorthand for tags only its name matters here, since tags are not
read. -/
inductive Directive
  | version (major minor : Nat)
  | tagShorthand (handle : String)
  deriving DecidableEq, Repr

namespace Directive

/-- Whether a character may stand in a name. -/
def isNameChar (c : Char) : Bool := c.isAlphanum || c == '_' || c == '-'

/-- Reads a row of characters that satisfy a condition, given in reverse so far. -/
def word (p : Char → Bool) : Nat → (acc : List Char) → Cursor → Option (String × Cursor)
  | 0, _, _ => none
  | n + 1, acc, c =>
    match c.rest with
    | x :: _ =>
      if p x then do word p n (x :: acc) (← c.step.need 1) else some (String.ofList acc.reverse, c)
    | [] => some (String.ofList acc.reverse, c)

/-- Reads a row of blanks. -/
def blanks (c : Cursor) : Option Cursor := do
  (← c.need 1).skipWhile isSpace (c.bound + 1)

/-! ## Versions -/

/-- Reads a part of a version, which has one or two digits. -/
def versionPart (c : Cursor) : Option (Nat × Cursor) := do
  let (digits, c) ← word Char.isDigit (c.bound + 1) [] (← c.need 1)
  if digits.isEmpty || 2 < digits.length then none
  return (digits.toList.foldl (fun n d => 10 * n + (d.toNat - '0'.toNat)) 0, c)

/-- Reads a version. -/
def versionNumber (c : Cursor) : Option (Directive × Cursor) := do
  let (major, c) ← versionPart (← blanks c)
  if c.rest.head? ≠ some '.' then none
  let (minor, c) ← versionPart c.step
  return (version major minor, c)

/-! ## Shorthands for tags -/

/-- Reads the name of a shorthand: a mark, or a name between two of them. -/
def handle (c : Cursor) : Option (String × Cursor) := do
  let c ← c.need 1
  if c.rest.head? ≠ some '!' then none
  let (name, c) ← word isNameChar (c.bound + 1) [] (← c.step.need 1)
  if c.rest.head? = some '!' then return ("!" ++ name ++ "!", c.step)
  else if name.isEmpty then return ("!", c)
  else none

/-- The marks that may stand in what a shorthand stands for, besides the characters of names. -/
def uriMarks : List Char :=
  [';', '/', '?', ':', '@', '&', '=', '+', '$', '.', ',', '!', '~', '*', '\'', '(', ')', '[', ']']

/-- The byte that is written as a percent sign and two hex digits. -/
def octet? : List Char → Option Nat
  | '%' :: a :: b :: _ => do
    let high ← Text.digitValue? a
    let low ← Text.digitValue? b
    return 16 * high + low
  | _ => none

/-- The number of bytes of a character whose first byte is given. -/
def width? (octet : Nat) : Option Nat :=
  if octet < 0x80 then some 1
  else if octet / 0x20 = 0x6 then some 2
  else if octet / 0x10 = 0xe then some 3
  else if octet / 0x8 = 0x1e then some 4
  else none

/-- Steps over the further bytes of a character that is written byte by byte. -/
def furtherOctets : Nat → Cursor → Option Cursor
  | 0, c => some c
  | n + 1, c => do
    let c ← c.need 3
    let octet ← octet? c.rest
    if octet / 0x40 ≠ 2 then none
    furtherOctets n (c.steps 3)

/-- Steps over what a shorthand stands for. -/
def uri : Nat → (started : Bool) → Cursor → Option Cursor
  | 0, _, _ => none
  | n + 1, started, c =>
    match c.rest with
    | x :: _ =>
      if x == '%' then do
        let c ← c.need 3
        let width ← width? (← octet? c.rest)
        uri n true (← (← furtherOctets (width - 1) (c.steps 3)).need 1)
      else if isNameChar x || x ∈ uriMarks then do uri n true (← c.step.need 1)
      else if started then some c
      else none
    | [] => if started then some c else none

/-- Reads a shorthand and what it stands for. -/
def shorthand (c : Cursor) : Option (Directive × Cursor) := do
  let (handle, c) ← handle (← blanks c)
  let c ← c.need 1
  if !c.rest.head?.any isSpace then none
  let c ← (← uri (c.bound + 1) false (← blanks c)).need 1
  if !startsBlank c.rest then none
  return (tagShorthand handle, c)

/-! ## Lines -/

/-- Reads a directive behind its percent sign, to the start of the next line. -/
def read? (c : Cursor) : Option (Directive × Cursor) := do
  let (name, c) ← word isNameChar (c.bound + 1) [] (← c.need 1)
  if name.isEmpty || !startsBlank c.rest then none
  let (d, c) ←
    if name == "YAML" then versionNumber c else if name == "TAG" then shorthand c else none
  let c ← blanks c
  let c ← if c.rest.head? == some '#' then c.toLineEnd else some c
  if c.atBreak then return (d, (← c.need 2).nextLine)
  else if c.rest.isEmpty then return (d, c)
  else none

end Directive

end PointsTo.Yaml
