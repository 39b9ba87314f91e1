import PointsTo.Number.Shortest
import PointsTo.Text.Integer
import PointsTo.Timestamp
import PointsTo.Yaml.Node

/-!
# What scalars stand for

A scalar in quotes is a text. A plain scalar may stand for nothing, a truth value, an integer, a
number with a fraction or an exponent, or a point in time; otherwise it is a text too. Its first
character tells which of these come into question.
-/

namespace PointsTo.Yaml

/-- What a scalar stands for. -/
inductive Datum
  | null
  | bool (b : Bool)
  /-- An integer of 64 bits with or without a sign. -/
  | int (n : Int)
  | binary (x : Binary64)
  | time (t : Timestamp)
  | text (s : String)
  deriving DecidableEq, Repr

namespace Datum

/-- The plain words that stand for something of their own. -/
def ofWord? (s : String) : Option Datum :=
  if s ∈ Node.nullWords then some null
  else if s ∈ ["true", "True", "TRUE"] then some (bool true)
  else if s ∈ ["false", "False", "FALSE"] then some (bool false)
  else if s ∈ [".nan", ".NaN", ".NAN"] then some (binary .nan)
  else if s ∈ [".inf", ".Inf", ".INF", "+.inf", "+.Inf", "+.INF"] then
    some (binary (.infinite false))
  else if s ∈ ["-.inf", "-.Inf", "-.INF"] then some (binary (.infinite true))
  else none

/-- Digits in base two or eight behind their mark, with a sign before the mark or behind it. -/
def marked? (mark : Char) (base : Nat) (cs : List Char) : Option Int :=
  match cs with
  | '0' :: m :: r =>
    if m = mark then
      ((Text.readSigned (Text.readInBase base) r).toOption).or
        ((Text.readInBase base r).toOption.map fun (n : Nat) => (n : Int))
    else none
  | '-' :: '0' :: m :: r =>
    if m = mark then (Text.readSigned (Text.readInBase base) ('-' :: r)).toOption else none
  | _ => none

/-- The integer that a text without underscores stands for. -/
def integer? (cs : List Char) : Option Int :=
  (Text.readSigned Text.readNatural cs).toOption.or
    ((Text.readNatural cs).toOption.map fun (n : Nat) => (n : Int))

/-- What a text stands for that starts with a digit or a sign. Underscores in numbers do not
count. -/
def ofNumeral? (cs : List Char) : Option Datum :=
  let digits := cs.filter fun c => c ≠ '_'
  ((Timestamp.read? cs).map time).or <|
  ((integer? digits).map int).or <|
  ((Binary64.ofText? digits).map binary).or <|
  ((marked? 'b' 2 digits).map int).or <|
  ((marked? 'o' 8 digits).map int)

/-- Whether every underscore stands between digits. -/
def underscoresBetweenDigits : (digit : Bool) → List Char → Bool
  | _, [] => true
  | digit, '_' :: c :: cs => digit && c.isDigit && underscoresBetweenDigits true cs
  | _, ['_'] => false
  | _, c :: cs => underscoresBetweenDigits c.isDigit cs

/-- The number that a text stands for that starts with a point. -/
def ofFraction? (cs : List Char) : Option Datum :=
  if underscoresBetweenDigits false cs then
    (Binary64.ofText? (cs.filter fun c => c ≠ '_')).map binary
  else none

/-- What a scalar stands for. -/
def ofScalar (plain : Bool) (s : String) : Datum :=
  if !plain then text s
  else
    match ofWord? s with
    | some d => d
    | none =>
      match s.toList with
      | [] => null
      | c :: cs =>
        (if c.isDigit || c = '+' || c = '-' then ofNumeral? (c :: cs)
          else if c = '.' then ofFraction? (c :: cs)
          else none).getD (text s)

end Datum

end PointsTo.Yaml
