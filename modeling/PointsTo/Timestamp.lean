/-!
# Points in time

A point in time is written as a date, `2001-12-14`, or as a date and a time of day. Between them
stand blanks, or a `T` if a time zone follows: `2001-12-14T21:59:43.1-05:00`. Months, days, hours,
minutes and seconds have one or two digits.
-/

namespace PointsTo

/-- A point in time as it is written. -/
structure Timestamp where
  year : Nat
  month : Nat
  day : Nat
  hour : Nat := 0
  minute : Nat := 0
  second : Nat := 0
  nanosecond : Nat := 0
  /-- How many minutes the time zone is ahead. -/
  offset : Int := 0
  deriving DecidableEq, Repr

namespace Timestamp

/-! ## Reading -/

/-- The value of a digit. -/
def digit? (c : Char) : Option Nat := if c.isDigit then some (c.toNat - '0'.toNat) else none

/-- A number of one or two digits, and what follows. -/
def shortNumber? : List Char → Option (Nat × List Char)
  | a :: b :: r => do
    let x ← digit? a
    match digit? b with
    | some y => some (10 * x + y, r)
    | none => some (x, b :: r)
  | [a] => (digit? a).map fun x => (x, [])
  | [] => none

/-- A number of one or two digits below a limit, and what follows. -/
def below? (limit : Nat) (cs : List Char) : Option (Nat × List Char) :=
  (shortNumber? cs).filter fun p => p.1 < limit

/-- What follows a character. -/
def after? (x : Char) : List Char → Option (List Char)
  | y :: r => if x = y then some r else none
  | [] => none

/-- The number of days of a month. -/
def daysIn (year month : Nat) : Nat :=
  if month = 2 then if year % 4 = 0 ∧ (year % 100 ≠ 0 ∨ year % 400 = 0) then 29 else 28
  else if month ∈ [4, 6, 9, 11] then 30
  else 31

/-- A date, and what follows. -/
def date? (cs : List Char) : Option (Timestamp × List Char) := do
  let (ds, r) := cs.span Char.isDigit
  if ds.length ≠ 4 then none
  let year := ds.foldl (fun v d => 10 * v + (d.toNat - '0'.toNat)) 0
  let (month, r) ← shortNumber? (← after? '-' r)
  let (day, r) ← shortNumber? (← after? '-' r)
  if month = 0 ∨ 12 < month ∨ day = 0 ∨ daysIn year month < day then none
  return ({ year, month, day }, r)

/-- The nanoseconds of a fraction of a second, which may be missing, and what follows. Digits beyond
the ninth are dropped. -/
def fraction (cs : List Char) : Nat × List Char :=
  match cs with
  | x :: r =>
    let (ds, rest) := r.span Char.isDigit
    if (x = '.' ∨ x = ',') ∧ !ds.isEmpty then
      (((ds ++ List.replicate 9 '0').take 9).foldl (fun v d => 10 * v + (d.toNat - '0'.toNat)) 0,
        rest)
    else (0, cs)
  | [] => (0, [])

/-- Adds a time of day to a date. -/
def timeOfDay? (t : Timestamp) (cs : List Char) : Option (Timestamp × List Char) := do
  let (hour, r) ← below? 24 cs
  let (minute, r) ← below? 60 (← after? ':' r)
  let (second, r) ← below? 60 (← after? ':' r)
  let (nanosecond, r) := fraction r
  return ({ t with hour, minute, second, nanosecond }, r)

/-- The time zone that a whole text stands for: `Z`, or hours and minutes of two digits each. -/
def zone? : List Char → Option Int
  | ['Z'] => some 0
  | [sign, a, b, ':', c, d] => do
    let hours := 10 * (← digit? a) + (← digit? b)
    let minutes := 10 * (← digit? c) + (← digit? d)
    if 24 < hours ∨ 60 < minutes then none
    let offset : Int := 60 * hours + minutes
    if sign = '+' then some offset else if sign = '-' then some (-offset) else none
  | _ => none

/-- The point in time that a whole text stands for. -/
def read? (cs : List Char) : Option Timestamp := do
  let (t, r) ← date? cs
  match r with
  | [] => some t
  | x :: r =>
    if x = 'T' ∨ x = 't' then
      let (t, r) ← t.timeOfDay? r
      let offset ← zone? r
      return { t with offset }
    else if x = ' ' then
      let (t, r) ← t.timeOfDay? (r.dropWhile fun c => c = ' ')
      if r.isEmpty then some t else none
    else none

/-- The point in time, with a second too many counted as the first one of the next minute. -/
def carried (t : Timestamp) : Timestamp :=
  let minutes := t.minute + t.second / 60
  let hours := t.hour + minutes / 60
  let t := { t with second := t.second % 60, minute := minutes % 60, hour := hours % 24 }
  if hours < 24 then t
  else if t.day < daysIn t.year t.month then { t with day := t.day + 1 }
  else if t.month < 12 then { t with month := t.month + 1, day := 1 }
  else { t with year := t.year + 1, month := 1, day := 1 }

/-! ## Writing -/

/-- A number with a least number of digits. -/
def padded (width n : Nat) : String :=
  let ds := Nat.toDigits 10 n
  String.ofList (List.replicate (width - ds.length) '0' ++ ds)

/-- The time zone as a sign, hours and minutes. -/
def zoneText (offset : Int) : String :=
  let minutes := offset.natAbs
  (if offset < 0 then "-" else "+") ++ padded 2 (minutes / 60) ++ padded 2 (minutes % 60)

/-- The point in time with its time zone, which is named twice if it has no name. -/
def text (t : Timestamp) : String :=
  let places := ((padded 9 t.nanosecond).toList.reverse.dropWhile fun c => c = '0').reverse
  let fraction := if places.isEmpty then "" else String.ofList ('.' :: places)
  padded 4 t.year ++ "-" ++ padded 2 t.month ++ "-" ++ padded 2 t.day ++ " " ++ padded 2
    t.hour ++ ":" ++
    padded 2 t.minute ++ ":" ++ padded 2 t.second ++ fraction ++ " " ++ zoneText t.offset ++ " " ++
    (if t.offset = 0 then "UTC" else zoneText t.offset)

end Timestamp

end PointsTo
