import PointsTo.Number.Binary64

/-!
# Shortest decimals

A binary number is written with the fewest digits that are read back as it; of two such decimals the
nearer one counts, and of two equally near ones the even one. The digits are written without an
exponent.
-/

namespace PointsTo

/-- Compares `a · 10 ^ i` with `b · 2 ^ j`. -/
def compareScaled (a : Nat) (i : Int) (b : Nat) (j : Int) : Ordering :=
  compare (a * Nat.pow 10 i.toNat * Nat.pow 2 (-j).toNat)
    (b * Nat.pow 2 j.toNat * Nat.pow 10 (-i).toNat)

/-- The least `k` such that a positive quotient is below `10 ^ k`. -/
def decimalScale (num den : Nat) : Int :=
  if den ≤ num then (Nat.toDigits 10 (num / den)).length
  else 1 - ((Nat.toDigits 10 ((den - 1) / num)).length : Int)

namespace Binary64

/-- Whether a decimal is read as `m · 2 ^ q`: it lies between the middles to the neighbours, which
belong to the number with the even mantissa. Below a power of two the neighbour is nearer. -/
def readsBack (m : Nat) (q : Int) (d : Decimal) : Bool :=
  let low := if m = Nat.pow 2 (precision - 1) ∧ minExp < q then 4 * m - 1 else 4 * m - 2
  let fromLow := compareScaled d.digits d.exp low (q - 2)
  let fromHigh := compareScaled d.digits d.exp (4 * m + 2) (q - 2)
  let even := m % 2 == 0
  (fromLow == .gt || (even && fromLow == .eq)) && (fromHigh == .lt || (even && fromHigh == .eq))

/-- The best decimal with the exponent `exp` that is read as `m · 2 ^ q`, if there is one. -/
def onGrid? (m : Nat) (q exp : Int) : Option Decimal :=
  let num := m * Nat.pow 2 q.toNat * Nat.pow 10 (-exp).toNat
  let den := Nat.pow 2 (-q).toNat * Nat.pow 10 exp.toNat
  let below : Decimal := ⟨num / den, exp⟩
  let above : Decimal := ⟨num / den + 1, exp⟩
  match readsBack m q below, readsBack m q above with
  | true, true => some ⟨roundDiv num den, exp⟩
  | true, false => some below
  | false, true => some above
  | false, false => none

/-- The shortest decimal that is read as `m · 2 ^ q`. Seventeen digits are always enough. -/
def shortest (m : Nat) (q : Int) : Decimal :=
  let scale := decimalScale (m * Nat.pow 2 q.toNat) (Nat.pow 2 (-q).toNat)
  ((List.range 17).findSome? fun (n : Nat) => onGrid? m q (scale - (n + 1))).getD
    ⟨m * Nat.pow 2 q.toNat * Nat.pow 5 (-q).toNat, -(-q).toNat⟩

end Binary64

/-- A decimal written without an exponent. -/
def Decimal.plainText (d : Decimal) : String :=
  let ds := Nat.toDigits 10 d.digits
  if 0 ≤ d.exp then String.ofList (ds ++ List.replicate d.exp.toNat '0')
  else
    let places := (-d.exp).toNat
    let ds := List.replicate (places + 1 - ds.length) '0' ++ ds
    let whole := ds.take (ds.length - places)
    let fraction := ((ds.drop (ds.length - places)).reverse.dropWhile fun c => c = '0').reverse
    String.ofList (if fraction.isEmpty then whole else whole ++ '.' :: fraction)

/-- A binary number written with the fewest digits and without an exponent. -/
def Binary64.plainText : Binary64 → String
  | nan => "NaN"
  | infinite negative => if negative then "-Inf" else "+Inf"
  | finite negative m q =>
    let s := if m = 0 then "0" else (shortest m q).plainText
    if negative then "-" ++ s else s

end PointsTo
