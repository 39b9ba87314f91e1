import PointsTo.Config
import PointsTo.Text.Hex

/-!
# TOML

A TOML text has a key and a value, or the header of a table, on each line. A key may be a path of
names. What the keys of a header or a pair name may not be named again, by the rules of `Tables`.
-/

namespace PointsTo.Toml

/-! ## Tables -/

/-- What a path of names stands for. -/
inductive Kind
  | value
  | table
  /-- A list of tables, to which every header adds one. -/
  | tables
  deriving DecidableEq, Repr

/-- What is known about a path of names. -/
structure Entry where
  kind : Kind
  /-- Whether a table is complete, so that it may not be opened or added to any more. -/
  complete : Bool := false
  /-- Whether a table came about by a key inside the table that is open now. -/
  fresh : Bool := false
  deriving DecidableEq, Repr

/-- What is known about paths of names, the latest first. -/
abbrev Tables := List (List String × Entry)

namespace Tables

/-- Adds a value under a key, seen from the table at `base`. The tables on the way are made if they
are not there. -/
def assign (base : List String) : (key : List String) → Tables → Option Tables
  | [], _ => none
  | [name], t =>
    let path := base ++ [name]
    if (t.lookup path).isSome then none else some ((path, { kind := .value }) :: t)
  | name :: rest, t =>
    let path := base ++ [name]
    match t.lookup path with
    | none => assign path rest ((path, { kind := .table, fresh := true }) :: t)
    | some e => if e.kind = .table ∧ !e.complete then assign path rest t else none

/-- Completes the tables that keys made inside the table at `base`. -/
def leave (base : List String) (t : Tables) : Tables :=
  t.map fun (path, e) =>
    if e.fresh && base.isPrefixOf path && path.length ≠ base.length then
      (path, { e with complete := true, fresh := false })
    else (path, e)

/-- Opens the table of a header, seen from the table at `base`; `many` says that the header adds a
table to a list. -/
def openTable (many : Bool) (base : List String) : (key : List String) → Tables → Option Tables
  | [], _ => none
  | [name], t =>
    let path := base ++ [name]
    match t.lookup path with
    | none => some ((path, { kind := if many then .tables else .table, complete := true }) :: t)
    | some e =>
      if many then
        if e.kind = .tables then
          some (t.filter fun f => !path.isPrefixOf f.1 || f.1.length = path.length)
        else none
      else if e.kind = .table ∧ !e.complete then
        some ((path, { e with complete := true }) :: t.filter fun f => f.1 ≠ path)
      else none
  | name :: rest, t =>
    let path := base ++ [name]
    match t.lookup path with
    | none => openTable many path rest ((path, { kind := .table }) :: t)
    | some e => if e.kind = .value then none else openTable many path rest t

end Tables

/-! ## Blanks and comments -/

/-- What follows the blanks on a line. -/
def skipSpaces (cs : List Char) : List Char := cs.dropWhile fun c => c == ' ' || c == '\t'

/-- Whether a character may stand in comments and on a line of a text. -/
def isAllowed (c : Char) : Bool := c == '\t' || (0x20 ≤ c.toNat && c.toNat ≠ 0x7f)

/-- What follows a comment, which may be missing, on the line. -/
def skipComment? (cs : List Char) : Option (List Char) :=
  match cs with
  | '#' :: rest =>
    match rest.dropWhile isAllowed with
    | [] => some []
    | '\n' :: rest => some ('\n' :: rest)
    | '\r' :: '\n' :: rest => some ('\n' :: rest)
    | _ => none
  | cs => some cs

/-- What follows a line end. -/
def lineEnd? : List Char → Option (List Char)
  | '\n' :: rest => some rest
  | '\r' :: '\n' :: rest => some rest
  | _ => none

/-- What follows at most `n` lines of blanks and comments. -/
def skipLines? : Nat → List Char → Option (List Char)
  | 0, cs => some cs
  | n + 1, cs => do
    let cs ← skipComment? (skipSpaces cs)
    match cs with
    | '\n' :: _ | '\r' :: _ => skipLines? n (← lineEnd? cs)
    | cs => some cs

/-! ## Texts -/

/-- Reads a text in single quotes behind the opening one. -/
def literal? : (acc : List Char) → List Char → Option (String × List Char)
  | _, [] => none
  | acc, '\'' :: rest => some (String.ofList acc.reverse, rest)
  | acc, c :: rest => if isAllowed c then literal? (c :: acc) rest else none

/-- The character that a letter behind a backslash stands for. -/
def escaped? : Char → Option Char
  | '"' => some '"'
  | '\\' => some '\\'
  | 'b' => some '\x08'
  | 'e' => some '\x1b'
  | 'f' => some '\x0c'
  | 'n' => some '\n'
  | 'r' => some '\r'
  | 't' => some '\t'
  | _ => none

/-- Reads a text in double quotes behind the opening one. -/
def basic? : (acc : List Char) → List Char → Option (String × List Char)
  | _, [] => none
  | acc, '"' :: rest => some (String.ofList acc.reverse, rest)
  | acc, '\\' :: 'u' :: a :: b :: c :: d :: rest =>
    match Text.hexChar? [a, b, c, d] with
    | some x => basic? (x :: acc) rest
    | none => none
  | acc, '\\' :: 'U' :: a :: b :: c :: d :: e :: f :: g :: h :: rest =>
    match Text.hexChar? [a, b, c, d, e, f, g, h] with
    | some x => basic? (x :: acc) rest
    | none => none
  | acc, '\\' :: c :: rest =>
    match escaped? c with
    | some x => basic? (x :: acc) rest
    | none => none
  | acc, c :: rest => if isAllowed c && c ≠ '\\' then basic? (c :: acc) rest else none

/-- Whether a line ends behind blanks. -/
def endsLine (cs : List Char) : Bool :=
  match skipSpaces cs with
  | '\n' :: _ | '\r' :: '\n' :: _ => true
  | _ => false

/-- The end of a text over several lines behind three quotes. Up to two more quotes belong to the
text. -/
def closing? (quote : Char) (acc : List Char) (cs : List Char) : Option (String × List Char) :=
  let more := (cs.takeWhile (· = quote)).length
  if 2 < more then none
  else some (String.ofList (List.replicate more quote ++ acc).reverse, cs.drop more)

/-- Reads a text over several lines in single quotes behind the opening ones. -/
def literalLines? : (acc : List Char) → List Char → Option (String × List Char)
  | _, [] => none
  | acc, '\'' :: '\'' :: '\'' :: rest => closing? '\'' acc rest
  | acc, '\r' :: '\n' :: rest => literalLines? ('\n' :: '\r' :: acc) rest
  | acc, c :: rest => if isAllowed c || c = '\n' then literalLines? (c :: acc) rest else none

/-- Reads a text over several lines in double quotes behind the opening ones. Behind a backslash at
the end of a line, blanks and line ends are left out; `joining` says that this is going on. -/
def basicLines? : (joining : Bool) → (acc : List Char) → List Char → Option (String × List Char)
  | _, _, [] => none
  | _, acc, '"' :: '"' :: '"' :: rest => closing? '"' acc rest
  | _, acc, '\\' :: 'u' :: a :: b :: c :: d :: rest =>
    match Text.hexChar? [a, b, c, d] with
    | some x => basicLines? false (x :: acc) rest
    | none => none
  | _, acc, '\\' :: 'U' :: a :: b :: c :: d :: e :: f :: g :: h :: rest =>
    match Text.hexChar? [a, b, c, d, e, f, g, h] with
    | some x => basicLines? false (x :: acc) rest
    | none => none
  | _, acc, '\\' :: c :: rest =>
    if endsLine (c :: rest) then basicLines? true acc rest
    else
      match escaped? c with
      | some x => basicLines? false (x :: acc) rest
      | none => none
  | joining, acc, '\r' :: '\n' :: rest =>
    if joining then basicLines? true acc rest else basicLines? false ('\n' :: '\r' :: acc) rest
  | joining, acc, c :: rest =>
    if joining && (c = ' ' || c = '\t' || c = '\n') then basicLines? true acc rest
    else if (isAllowed c && c ≠ '\\') || c = '\n' then basicLines? false (c :: acc) rest
    else none

/-- Drops a line end at the start of a text. -/
def dropLineEnd (cs : List Char) : List Char := (lineEnd? cs).getD cs

/-! ## Keys -/

/-- Whether a character may stand in a name without quotes. -/
def isNameChar (c : Char) : Bool := c.isAlphanum || c = '-' || c = '_'

/-- Reads a name. -/
def name? (cs : List Char) : Option (String × List Char) :=
  match cs with
  | '\'' :: rest => literal? [] rest
  | '"' :: rest => basic? [] rest
  | cs =>
    let (name, rest) := cs.span isNameChar
    if name.isEmpty then none else some (String.ofList name, rest)

/-- Reads a key: at most `n` names with points in between. -/
def key? : Nat → List Char → Option (List String × List Char)
  | 0, _ => none
  | n + 1, cs => do
    let (name, rest) ← name? cs
    match skipSpaces rest with
    | '.' :: rest =>
      let (names, rest) ← key? n (skipSpaces rest)
      return (name :: names, rest)
    | rest => return ([name], rest)

/-! ## Numbers -/

/-- The digits of a number without the underscores, each of which stands between two digits. -/
def digits? : List Char → Option (List Char)
  | a :: '_' :: b :: rest => if a = '_' ∨ b = '_' then none else (digits? (b :: rest)).map (a :: ·)
  | ['_'] | [_, '_'] => none
  | a :: rest => if a = '_' then none else (digits? rest).map (a :: ·)
  | [] => some []

/-- The integer that digits in a given base stand for. -/
def inBase? (base : Nat) (ds : List Char) : Option Int := do
  (Text.readSigned (Text.readInBase base) (← digits? ds)).toOption

/-- The integer that a whole word stands for. -/
def integer? (cs : List Char) : Option Int :=
  match cs with
  | '0' :: 'x' :: d :: ds => inBase? 16 (d :: ds)
  | '0' :: 'o' :: d :: ds => inBase? 8 (d :: ds)
  | '0' :: 'b' :: d :: ds => inBase? 2 (d :: ds)
  | cs => do
    let (negative, ds) := takeSign cs
    let ds ← digits? ds
    if !ds.all Char.isDigit || (ds.length ≠ 1 && ds.head? == some '0') then none
    (Text.readSigned (Text.readInBase 10) (if negative then '-' :: ds else ds)).toOption

/-- Whether every point stands between digits; `digit` says whether a digit came just before. -/
def pointsBetweenDigits : (digit : Bool) → List Char → Bool
  | _, [] => true
  | digit, '.' :: cs => digit && cs.head?.any Char.isDigit && pointsBetweenDigits false cs
  | _, c :: cs => pointsBetweenDigits c.isDigit cs

/-- The binary number that a whole word stands for. -/
def binary? (cs : List Char) : Option Binary64 :=
  let (negative, ds) := takeSign cs
  if ds == "inf".toList then some (.infinite negative)
  else if ds == "nan".toList then some .nan
  else
    let needlessZero := match ds.filter fun c => c ≠ '_' with
      | '0' :: d :: _ => d.isDigit
      | _ => false
    if Yaml.Datum.underscoresBetweenDigits false cs && pointsBetweenDigits false cs &&
        !needlessZero then
      Binary64.ofText? (cs.filter fun c => c ≠ '_')
    else none

/-- The length of the word of a number at the start of a text, as far as its characters tell. Behind
a zero and a base mark the digits of that base follow, and behind any other zero only a fraction or
an exponent. -/
def numberLength (cs : List Char) : Nat :=
  let decimal := (cs.takeWhile fun c => c.isDigit || c ∈ ['+', '-', '_', '.', 'e', 'E']).length
  match cs with
  | '0' :: m :: ds =>
    if m = 'x' then 2 + (ds.takeWhile fun c => c = '_' || (Text.digitValue? c).isSome).length
    else if m = 'o' then 2 + (ds.takeWhile fun c => c = '_' || ('0' ≤ c && c ≤ '7')).length
    else if m = 'b' then 2 + (ds.takeWhile fun c => c = '_' || c = '0' || c = '1').length
    else if m ∈ ['.', 'e', 'E'] then decimal
    else 1
  | _ =>
    if ["inf".toList, "nan".toList].any fun w => w.isPrefixOf (cs.drop decimal) then decimal + 3
    else decimal

/-- Whether the word of a number stands for a binary number, as far as its characters tell. -/
def isBinary (word : List Char) : Bool :=
  match word with
  | '0' :: m :: _ => m ∈ ['.', 'e', 'E']
  | word => word.any fun c => c ∈ ['.', 'e', 'E', 'n']

/-- Reads a number. -/
def number? (cs : List Char) : Option (Yaml.Datum × List Char) :=
  let word := cs.take (numberLength cs)
  let d := if isBinary word then (binary? word).map .binary else (integer? word).map .int
  d.map fun d => (d, cs.drop word.length)

/-! ## Dates and times -/

/-- The number that digits stand for, if there are just so many. -/
def fixed? (width : Nat) (cs : List Char) : Option (Nat × List Char) :=
  let ds := cs.take width
  if ds.length = width && ds.all Char.isDigit then some (digitsValue ds, cs.drop width) else none

/-- Reads a date. -/
def date? (cs : List Char) : Option (Timestamp × List Char) := do
  let (year, r) ← fixed? 4 cs
  let (month, r) ← fixed? 2 (← Timestamp.after? '-' r)
  let (day, r) ← fixed? 2 (← Timestamp.after? '-' r)
  if month = 0 || 12 < month || day = 0 || Timestamp.daysIn year month < day then none
  return ({ year, month, day }, r)

/-- Reads a time of day onto a date, with the digits of its fraction of a second as they are
written. -/
def time? (t : Timestamp) (cs : List Char) : Option (Timestamp × List Char × List Char) := do
  let (hour, r) ← fixed? 2 cs
  let (minute, r) ← fixed? 2 (← Timestamp.after? ':' r)
  let (second, r) ← fixed? 2 (← Timestamp.after? ':' r)
  if 23 < hour || 59 < minute || 60 < second then none
  let t := { t with hour, minute, second }
  match r with
  | '.' :: r =>
    let (ds, rest) := r.span Char.isDigit
    if ds.isEmpty then none
    return ({ t with nanosecond := digitsValue ((ds ++ List.replicate 9 '0').take 9) },
      ds.take 9, rest)
  | r => return (t, [], r)

/-- The time zone that a whole text stands for. -/
def zone? (cs : List Char) : Option Int := do
  match cs with
  | ['Z'] | ['z'] => return 0
  | sign :: r =>
    let (hours, r) ← fixed? 2 r
    let (minutes, r) ← fixed? 2 (← Timestamp.after? ':' r)
    if !r.isEmpty || 23 < hours || 59 < minutes then none
    let offset : Int := 60 * hours + minutes
    if sign = '+' then return offset else if sign = '-' then return -offset else none
  | [] => none

/-- A date as a text. -/
def dateText (t : Timestamp) : String :=
  Timestamp.padded 4 t.year ++ "-" ++ Timestamp.padded 2 t.month ++ "-" ++ Timestamp.padded 2 t.day

/-- A time of day as a text, with the given digits of a fraction of a second. -/
def timeText (t : Timestamp) (fraction : List Char) : String :=
  Timestamp.padded 2 t.hour ++ ":" ++ Timestamp.padded 2 t.minute ++ ":" ++
    Timestamp.padded 2 t.second ++
    (if fraction.isEmpty then "" else String.ofList ('.' :: fraction))

/-- What a whole word stands for that starts like a date or a time of day. Without a time zone it is
no point in time, and counts as a text. -/
def moment? (cs : List Char) : Option Yaml.Datum :=
  match date? cs with
  | none => do
    let (t, fraction, rest) ← time? ⟨0, 0, 0, 0, 0, 0, 0, 0⟩ cs
    if rest.isEmpty then return .text (timeText t fraction) else none
  | some (t, []) => some (.text (dateText t))
  | some (t, c :: rest) => do
    if c ∉ ['T', 't', ' '] then none
    let (t, fraction, rest) ← time? t rest
    if rest.isEmpty then return .text (dateText t ++ "T" ++ timeText t fraction)
    else return .time ({ t with offset := ← zone? rest }).carried

/-- Whether a text starts like a date or a time of day. -/
def startsMoment (cs : List Char) : Bool :=
  let digits := (cs.takeWhile Char.isDigit).length
  (digits = 2 && (cs.drop 2).head? == some ':') || (digits = 4 && (cs.drop 4).head? == some '-')

/-- Reads a date, a time of day or both. -/
def dateTime? (cs : List Char) : Option (Yaml.Datum × List Char) :=
  let (word, rest) := cs.span fun c => c.isDigit || c ∈ ['-', '+', ':', '.', 'T', 't', 'Z', 'z']
  let (word, rest) := match rest with
    | ' ' :: r =>
      if r.head?.any Char.isDigit then
        let (more, rest) :=
          r.span fun c => c.isDigit || c ∈ ['-', '+', ':', '.', 'T', 't', 'Z', 'z']
        (word ++ ' ' :: more, rest)
      else (word, rest)
    | _ => (word, rest)
  (moment? word).map fun d => (d, rest)

/-! ## Values -/

mutual

/-- Reads a value in at most `n` steps. -/
def value? : Nat → List Char → Option (ConfigValue × List Char)
  | 0, _ => none
  | n + 1, cs =>
    match cs with
    | '"' :: '"' :: '"' :: rest =>
      (basicLines? false [] (dropLineEnd rest)).map fun (s, r) => (.ofText s, r)
    | '"' :: rest => (basic? [] rest).map fun (s, r) => (.ofText s, r)
    | '\'' :: '\'' :: '\'' :: rest =>
      (literalLines? [] (dropLineEnd rest)).map fun (s, r) => (.ofText s, r)
    | '\'' :: rest => (literal? [] rest).map fun (s, r) => (.ofText s, r)
    | 't' :: 'r' :: 'u' :: 'e' :: rest => some (.datum (.bool true), rest)
    | 'f' :: 'a' :: 'l' :: 's' :: 'e' :: rest => some (.datum (.bool false), rest)
    | '[' :: rest => items? n true rest
    | '{' :: rest => pairs? n [] rest
    | cs => (if startsMoment cs then dateTime? cs else number? cs).map fun (d, r) => (.datum d, r)

/-- Reads the items of a list up to its end. -/
def items? : Nat → (first : Bool) → List Char → Option (ConfigValue × List Char)
  | 0, _, _ => none
  | n + 1, first, cs => do
    match ← skipLines? (n + 1) cs with
    | [] => none
    | ']' :: rest => return (.collection, rest)
    | c :: rest =>
      let cs ←
        if c = ',' then if first then none else skipLines? (n + 1) rest
        else if first then some (c :: rest)
        else none
      match cs with
      | ']' :: rest => return (.collection, rest)
      | cs =>
        let (_, rest) ← value? n cs
        items? n false rest

/-- Reads the pairs of a table in braces up to its end. `t` are the keys so far. -/
def pairs? : Nat → (t : Tables) → List Char → Option (ConfigValue × List Char)
  | 0, _, _ => none
  | n + 1, t, cs => do
    match skipSpaces cs with
    | '}' :: rest => return (.collection, rest)
    | cs =>
      let cs ← if t.isEmpty then some cs else (Timestamp.after? ',' cs).map skipSpaces
      let (key, _, rest) ← pair? n cs
      pairs? n (← t.assign [] key) rest

/-- Reads a key and a value. -/
def pair? : Nat → List Char → Option (List String × ConfigValue × List Char)
  | 0, _ => none
  | n + 1, cs => do
    let (key, rest) ← key? (n + 1) cs
    let (v, rest) ← value? n (skipSpaces (← Timestamp.after? '=' rest))
    return (key, v, rest)

end

/-! ## Texts -/

/-- A text that is being read: the tables so far, the one that is open, and the settings, the latest
first. -/
structure State where
  tables : Tables := []
  current : List String := []
  config : Config := []

/-- Reads the header of a table behind its opening bracket or brackets. -/
def State.header? (many : Bool) (cs : List Char) (s : State) : Option (State × List Char) := do
  let (key, rest) ← key? (cs.length + 1) (skipSpaces cs)
  let rest ← Timestamp.after? ']' rest
  let rest ← if many then Timestamp.after? ']' rest else some rest
  let tables ← (s.tables.leave s.current).openTable many [] key
  return ({
    tables
    current := key
    config := (Config.setting? key .collection).toList ++ s.config }, rest)

/-- Reads a pair. -/
def State.pair? (cs : List Char) (s : State) : Option (State × List Char) := do
  let (key, v, rest) ← Toml.pair? (2 * cs.length + 2) cs
  let tables ← s.tables.assign s.current key
  return ({ s with tables, config := (Config.setting? (s.current ++ key) v).toList ++ s.config },
    rest)

/-- Reads at most `n` lines. -/
def lines? : Nat → State → List Char → Option State
  | 0, _, _ => none
  | n + 1, s, cs => do
    let cs := skipSpaces cs
    let (s, cs) ← match cs with
      | [] | '#' :: _ | '\n' :: _ | '\r' :: _ => some (s, cs)
      | '[' :: '[' :: rest => s.header? true rest
      | '[' :: rest => s.header? false rest
      | cs => s.pair? cs
    match ← skipComment? (skipSpaces cs) with
    | [] => return s
    | cs => lines? n s (← lineEnd? cs)

/-- The config of a TOML text. -/
def config? (text : String) : Option Config :=
  (lines? (text.length + 1) {} text.toList).map State.config

end PointsTo.Toml
