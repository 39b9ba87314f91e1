/-!
# Binary numbers of 64 bits

A `Binary64` is a number `m · 2 ^ q` with a mantissa of at most 53 bits, an infinity, or no number.
A decimal is read as the nearest such number; between two that are equally near, the one with the
even mantissa counts.
-/

namespace PointsTo

/-- A decimal `digits · 10 ^ exp`. -/
structure Decimal where
  digits : Nat
  exp : Int
  deriving DecidableEq, Repr

/-- A binary number of 64 bits. -/
inductive Binary64
  | nan
  | infinite (negative : Bool)
  /-- The number `m · 2 ^ q`, or its opposite. -/
  | finite (negative : Bool) (m : Nat) (q : Int)
  deriving DecidableEq, Repr

/-- A quotient rounded to the nearest integer, a half to the even one. -/
def roundDiv (num den : Nat) : Nat :=
  let quotient := num / den
  let twice := 2 * (num % den)
  if den < twice || (den == twice && quotient % 2 == 1) then quotient + 1 else quotient

/-- The exponent of the largest power of two that is not above a quotient of positive numbers. -/
def floorLog2 (num den : Nat) : Int :=
  let l : Int := (num.log2 : Int) - den.log2
  if den * Nat.pow 2 l.toNat ≤ num * Nat.pow 2 (-l).toNat then l else l - 1

namespace Binary64

/-- The number of bits of a mantissa. -/
def precision : Nat := 53

/-- The least exponent. -/
def minExp : Int := -1074

/-- The greatest exponent. -/
def maxExp : Int := 971

/-- The mantissa and exponent nearest to a quotient of positive numbers. The exponent has no upper
limit. -/
def nearest (num den : Nat) : Nat × Int :=
  let q := max (floorLog2 num den - (precision - 1)) minExp
  let m := roundDiv (num * Nat.pow 2 (-q).toNat) (den * Nat.pow 2 q.toNat)
  if m = Nat.pow 2 precision then (Nat.pow 2 (precision - 1), q + 1) else (m, q)

/-- The number nearest to a decimal, or `none` if the decimal is too large. Decimals far outside the
range are told by the number of their digits. -/
def ofDecimal? (negative : Bool) (d : Decimal) : Option Binary64 :=
  let magnitude : Int := (Nat.toDigits 10 d.digits).length + d.exp
  if d.digits = 0 ∨ magnitude < -400 then some (.finite negative 0 minExp)
  else if 400 < magnitude then none
  else
    let (m, q) := nearest (d.digits * Nat.pow 10 d.exp.toNat) (Nat.pow 10 (-d.exp).toNat)
    if maxExp < q then none else some (.finite negative m q)

/-- The number without its fraction; `none` if it is infinite or no number. -/
def whole? : Binary64 → Option Int
  | finite negative m q =>
    let n := m * Nat.pow 2 q.toNat / Nat.pow 2 (-q).toNat
    some (if negative then -(n : Int) else n)
  | _ => none

end Binary64

/-! ## Written decimals -/

/-- The number that decimal digits stand for. -/
def digitsValue (ds : List Char) : Nat := ds.foldl (fun v d => 10 * v + (d.toNat - '0'.toNat)) 0

/-- Whether a sign in front of a text is a minus, and what follows the sign. -/
def takeSign : List Char → Bool × List Char
  | '-' :: r => (true, r)
  | '+' :: r => (false, r)
  | cs => (false, cs)

/-- The exponent that a whole text stands for, with the letter in front of it. -/
def exponent? : List Char → Option Int
  | [] => some 0
  | e :: r =>
    if e = 'e' ∨ e = 'E' then
      let (negative, ds) := takeSign r
      if ds.isEmpty || !ds.all Char.isDigit then none
      else some (if negative then -(digitsValue ds : Int) else digitsValue ds)
    else none

/-- The decimal that a whole text stands for: a sign, digits with a point somewhere, and an
exponent, of which only one digit has to be there. -/
def decimal? (cs : List Char) : Option (Bool × Decimal) := do
  let (negative, cs) := takeSign cs
  let (whole, rest) := cs.span Char.isDigit
  let (fraction, rest) := match rest with
    | '.' :: r => r.span Char.isDigit
    | r => ([], r)
  if whole.isEmpty && fraction.isEmpty then none
  let exp ← exponent? rest
  return (negative, ⟨digitsValue (whole ++ fraction), exp - fraction.length⟩)

/-- The binary number that a whole text stands for, if it is not too large. -/
def Binary64.ofText? (cs : List Char) : Option Binary64 := do
  let (negative, d) ← decimal? cs
  ofDecimal? negative d

end PointsTo
