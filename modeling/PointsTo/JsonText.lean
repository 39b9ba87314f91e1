import PointsTo.Number.Binary64
import PointsTo.Text.Hex

/-!
# JSON texts

`JsonValue.read?` reads a whole text as one JSON value. Numbers are read as binary numbers of 64
bits; a text with a number that is too large is no JSON value, nor is one with more than `maxDepth`
arrays and objects inside one another. A field of an object may stand there several times.
-/

namespace PointsTo

/-- A JSON value. -/
inductive JsonValue
  | null
  | bool (b : Bool)
  | number (x : Binary64)
  | text (s : String)
  | array (items : List JsonValue)
  | object (fields : List (String × JsonValue))

namespace JsonValue

/-- What follows the blanks at the start of a text. -/
def skipBlanks (cs : List Char) : List Char := cs.dropWhile fun c => c ∈ [' ', '\t', '\n', '\r']

/-! ## Numbers -/

/-- Whether a word has the form of a number: no plus sign and no needless zero in front, and digits
on both sides of a point. -/
def isNumeral (cs : List Char) : Bool :=
  let cs := if cs.head? = some '-' then cs.drop 1 else cs
  let (whole, rest) := cs.span Char.isDigit
  let (fraction, rest) := match rest with
    | '.' :: r => r.span Char.isDigit
    | r => (['0'], r)
  !whole.isEmpty && (whole.length == 1 || whole.head? != some '0') && !fraction.isEmpty &&
    (exponent? rest).isSome

/-- The number at the start of a text, and what follows. -/
def number? (cs : List Char) : Option (JsonValue × List Char) :=
  let (word, rest) := cs.span fun c => c.isDigit || c ∈ ['+', '-', '.', 'e', 'E']
  if isNumeral word then (Binary64.ofText? word).map fun x => (number x, rest) else none

/-! ## Texts -/

/-- The character that a letter behind a backslash stands for. -/
def escaped? : Char → Option Char
  | '"' => some '"'
  | '\\' => some '\\'
  | '/' => some '/'
  | 'b' => some '\x08'
  | 'f' => some '\x0c'
  | 'n' => some '\n'
  | 'r' => some '\r'
  | 't' => some '\t'
  | _ => none

/-- Whether a number is the first half of a character that is written in two. -/
def isHighHalf (n : Nat) : Bool := 0xd800 ≤ n && n < 0xdc00

/-- Whether a number is the second half of a character that is written in two. -/
def isLowHalf (n : Nat) : Bool := 0xdc00 ≤ n && n < 0xe000

/-- The characters of numbers, of which two halves in a row are one character. A half that stands
alone is replaced. -/
def joinHalves : List Nat → List Char
  | h :: l :: rest =>
    if isHighHalf h && isLowHalf l then
      Char.ofNat (0x10000 + 0x400 * (h - 0xd800) + (l - 0xdc00)) :: joinHalves rest
    else Text.charOf h :: joinHalves (l :: rest)
  | [n] => [Text.charOf n]
  | [] => []

/-- Reads a text behind its opening quote. -/
def text? : (acc : List Nat) → List Char → Option (String × List Char)
  | _, [] => none
  | acc, '"' :: rest => some (String.ofList (joinHalves acc.reverse), rest)
  | acc, '\\' :: 'u' :: a :: b :: c :: d :: rest =>
    match Text.hexNumber? [a, b, c, d] with
    | some n => text? (n :: acc) rest
    | none => none
  | acc, '\\' :: c :: rest =>
    match escaped? c with
    | some x => text? (x.toNat :: acc) rest
    | none => none
  | acc, c :: rest => if c.toNat < 0x20 ∨ c = '\\' then none else text? (c.toNat :: acc) rest

/-! ## Values -/

/-- How many arrays and objects may stand inside one another. -/
def maxDepth : Nat := 10000

mutual

/-- Reads a value with at most `depth` arrays and objects inside one another, in at most `n`
steps. -/
def value? : (n depth : Nat) → List Char → Option (JsonValue × List Char)
  | 0, _, _ => none
  | n + 1, depth, cs =>
    match skipBlanks cs, depth with
    | 'n' :: 'u' :: 'l' :: 'l' :: rest, _ => some (null, rest)
    | 't' :: 'r' :: 'u' :: 'e' :: rest, _ => some (bool true, rest)
    | 'f' :: 'a' :: 'l' :: 's' :: 'e' :: rest, _ => some (bool false, rest)
    | '"' :: rest, _ => (text? [] rest).map fun (s, rest) => (text s, rest)
    | '[' :: rest, depth + 1 =>
      match skipBlanks rest with
      | ']' :: rest => some (array [], rest)
      | rest => items? n depth [] rest
    | '{' :: rest, depth + 1 =>
      match skipBlanks rest with
      | '}' :: rest => some (object [], rest)
      | rest => fields? n depth [] rest
    | cs, _ => number? cs

/-- Reads items up to the end of their array. -/
def items? : (n depth : Nat) → (done : List JsonValue) → List Char → Option (JsonValue × List Char)
  | 0, _, _, _ => none
  | n + 1, depth, done, cs => do
    let (v, rest) ← value? n depth cs
    match skipBlanks rest with
    | ',' :: rest => items? n depth (v :: done) rest
    | ']' :: rest => some (array (v :: done).reverse, rest)
    | _ => none

/-- Reads fields up to the end of their object. -/
def fields? : (n depth : Nat) → (done : List (String × JsonValue)) → List Char →
    Option (JsonValue × List Char)
  | 0, _, _, _ => none
  | n + 1, depth, done, cs => do
    match skipBlanks cs with
    | '"' :: rest =>
      let (name, rest) ← text? [] rest
      match skipBlanks rest with
      | ':' :: rest =>
        let (v, rest) ← value? n depth rest
        match skipBlanks rest with
        | ',' :: rest => fields? n depth ((name, v) :: done) rest
        | '}' :: rest => some (object ((name, v) :: done).reverse, rest)
        | _ => none
      | _ => none
    | _ => none

end

/-- The value that a whole text stands for. -/
def read? (s : String) : Option JsonValue := do
  let cs := s.toList
  let (v, rest) ← value? (2 * cs.length + 1) maxDepth cs
  if (skipBlanks rest).isEmpty then some v else none

end JsonValue

end PointsTo
