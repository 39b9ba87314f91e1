import PointsTo.Text.Quoted

/-!
# Written integers

An integer is written with an optional sign, an optional base mark (`0x`, `0o`, `0b`, or a leading
`0` for octal) and digits, between which single underscores may stand. It must fit in 64 bits.
-/

namespace PointsTo.Text

/-- Why a text is no integer. -/
inductive IntegerError
  | invalid
  | outOfRange
  deriving DecidableEq, Repr

/-- What is said about a text that is no integer. -/
def IntegerError.message : IntegerError → String
  | invalid => "invalid syntax"
  | outOfRange => "value out of range"

/-- The value of a digit in bases up to sixteen. -/
def digitValue? (c : Char) : Option Nat :=
  if '0' ≤ c ∧ c ≤ '9' then some (c.toNat - '0'.toNat)
  else if 'a' ≤ c ∧ c ≤ 'f' then some (c.toNat - 'a'.toNat + 10)
  else if 'A' ≤ c ∧ c ≤ 'F' then some (c.toNat - 'A'.toNat + 10)
  else none

/-- The base of a written number, and the digits behind its base mark. -/
def splitBase : List Char → Nat × List Char
  | '0' :: m :: d :: r =>
    if m = 'x' ∨ m = 'X' then (16, d :: r)
    else if m = 'o' ∨ m = 'O' then (8, d :: r)
    else if m = 'b' ∨ m = 'B' then (2, d :: r)
    else (8, m :: d :: r)
  | '0' :: r => (8, r)
  | cs => (10, cs)

/-- Reads digits onto a value. -/
def readDigits (base : Nat) : Nat → List Char → Except IntegerError Nat
  | v, [] => .ok v
  | v, c :: cs =>
    if c = '_' then readDigits base v cs
    else
      match digitValue? c with
      | none => .error .invalid
      | some d =>
        if base ≤ d then .error .invalid
        else if Nat.pow 2 64 ≤ v * base + d then .error .outOfRange
        else readDigits base (v * base + d) cs

/-- Whether every underscore stands between digits; `digit` says whether a digit came just
before. -/
def separated : (digit : Bool) → List Char → Bool
  | digit, [] => digit
  | digit, c :: cs => if c = '_' then digit && separated false cs else separated true cs

/-- Reads a number without a sign. -/
def readNatural (cs : List Char) : Except IntegerError Nat :=
  if cs.isEmpty then .error .invalid
  else
    let (base, digits) := splitBase cs
    let marked := digits.length < cs.length
    match readDigits base 0 digits with
    | .error e => .error e
    | .ok v => if '_' ∈ digits ∧ !separated marked digits then .error .invalid else .ok v

/-- Reads an integer whose digits are read by `magnitude`. -/
def readSigned (magnitude : List Char → Except IntegerError Nat) (cs : List Char) :
    Except IntegerError Int :=
  let (negative, cs) := match cs with
    | '-' :: r => (true, r)
    | '+' :: r => (false, r)
    | cs => (false, cs)
  match magnitude cs with
  | .error e => .error e
  | .ok v =>
    if negative then if Nat.pow 2 63 < v then .error .outOfRange else .ok (-(v : Int))
    else if Nat.pow 2 63 ≤ v then .error .outOfRange
    else .ok v

/-- Reads an integer. -/
def readInteger (s : String) : Except IntegerError Int := readSigned readNatural s.toList

/-- Reads digits in a given base. -/
def readInBase (base : Nat) (cs : List Char) : Except IntegerError Nat :=
  if cs.isEmpty ∨ '_' ∈ cs then .error .invalid else readDigits base 0 cs

/-- What is left of a text, given in reverse, when the zeros and points at its end are dropped up to
the first point that stands in front of a zero. -/
def withoutZeroFraction? : (zero : Bool) → List Char → Option (List Char)
  | zero, c :: cs =>
    if c = '0' then withoutZeroFraction? true cs
    else if c = '.' then if zero then some cs else withoutZeroFraction? zero cs
    else none
  | _, [] => none

/-- Drops a fraction that has zeros only. -/
def dropZeroFraction (s : String) : String :=
  match withoutZeroFraction? false s.toList.reverse with
  | some front => String.ofList front.reverse
  | none => s

/-- The truth value of a word. -/
def readBool? (s : String) : Option Bool :=
  if s ∈ ["1", "t", "T", "TRUE", "true", "True"] then some true
  else if s ∈ ["0", "f", "F", "FALSE", "false", "False"] then some false
  else none

end PointsTo.Text
