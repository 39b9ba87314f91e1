import PointsTo.Text.Hex
import PointsTo.Text.Letter
import PointsTo.RawText

/-!
# Tokens of HCL

HCL has two notations, its own and that of JSON. Their tokens are much the same. This module reads
both.

A number is kept as it is written, because what it stands for depends on where it stands.
-/

namespace PointsTo.Hcl

/-- A value that has no parts. -/
inductive Literal
  /-- A number without a fraction or an exponent, as it is written. -/
  | whole (cs : List Char)
  /-- A number with a fraction or an exponent, as it is written. -/
  | decimal (cs : List Char)
  | bool (b : Bool)
  | text (t : RawText)
  deriving DecidableEq, Repr

/-- A token. A quoted text may be a key as well as a value. -/
inductive Token
  | name (s : String)
  | quoted (t : RawText)
  | literal (l : Literal)
  | mark (c : Char)
  | finish
  deriving DecidableEq, Repr

/-! ## Characters -/

/-- Whether a character starts a name. -/
def startsName (c : Char) : Bool := Text.isLetter c || c = '_'

/-- Whether a character separates tokens. -/
def isBlank (c : Char) : Bool := c ∈ [' ', '\t', '\n', '\r']

/-! ## Numbers -/

/-- The exponent at the start of a text, behind its letter, and what follows. Where the digits
should be, any character counts as part of it. -/
def exponent (cs : List Char) : List Char × List Char :=
  let (sign, cs) := match cs with
    | c :: r => if c = '+' ∨ c = '-' then ([c], r) else ([], c :: r)
    | [] => ([], [])
  let (ds, r) := cs.span Char.isDigit
  if ds.isEmpty then (sign ++ r.take 1, r.drop 1) else (sign ++ ds, r)

/-- The fraction at the start of a text, behind its point, with an exponent if there is one, and
what follows. -/
def fraction (cs : List Char) : List Char × List Char :=
  let (ds, r) := cs.span Char.isDigit
  match r with
  | e :: r' =>
    if e = 'e' ∨ e = 'E' then
      let (x, rest) := exponent r'
      (ds ++ e :: x, rest)
    else (ds, r)
  | [] => (ds, [])

/-- The number with a fraction or an exponent that starts with the digits `ds` and goes on with
`cs`, if it is one, and what follows. -/
def decimal? (ds cs : List Char) : Option (Literal × List Char) :=
  match cs with
  | c :: r =>
    if c = '.' then
      let (x, rest) := fraction r
      some (.decimal (ds ++ c :: x), rest)
    else if c = 'e' ∨ c = 'E' then
      let (x, rest) := exponent r
      some (.decimal (ds ++ c :: x), rest)
    else none
  | [] => none

/-- Reads a number without digits in front of its point, behind the point. An exponent is cut off
behind its letter. -/
def bareFraction (cs : List Char) : Literal × List Char :=
  let (ds, r) := cs.span Char.isDigit
  match r with
  | e :: r' =>
    if e = 'e' ∨ e = 'E' then (.decimal ('.' :: ds ++ [e]), r') else (.decimal ('.' :: ds), r)
  | [] => (.decimal ('.' :: ds), [])

/-- Reads a number that starts with a digit. Behind a zero the digits are octal, but a first digit
behind it is not looked at. -/
def number? (cs : List Char) : Option (Literal × List Char) :=
  let plain :=
    let (ds, r) := cs.span Char.isDigit
    match decimal? ds r with
    | some d => some d
    | none =>
      if ds.head? = some '0' ∧ (ds.drop 2).any fun d => d = '8' || d = '9' then none
        else some (.whole ds, r)
  match cs with
  | '0' :: m :: r =>
    if m = 'x' ∨ m = 'X' then
      let (ds, rest) := r.span fun c => (Text.digitValue? c).isSome
      if ds.isEmpty then none else some (.whole ('0' :: m :: ds), rest)
    else plain
  | _ => plain

/-- Reads a number that starts with a digit, in JSON. A whole number has no needless zero in front,
and a zero may not end the text. -/
def jsonNumber? (cs : List Char) : Option (Literal × List Char) :=
  let (ds, r) := cs.span Char.isDigit
  match decimal? ds r with
  | some d => some d
  | none =>
    if r.head? = some '\x00' ∨ (ds.head? = some '0' ∧ (1 < ds.length ∨ r.isEmpty)) then none
    else some (.whole ds, r)

/-- A number with a minus sign in front. -/
def Literal.negated : Literal → Literal
  | .whole cs => .whole ('-' :: cs)
  | .decimal cs => .decimal ('-' :: cs)
  | l => l

/-! ## Quoted texts -/

/-- The byte that a letter behind a backslash stands for. -/
def letterByte? : Char → Option UInt8
  | 'a' => some 0x07
  | 'b' => some 0x08
  | 'f' => some 0x0c
  | 'n' => some 0x0a
  | 'r' => some 0x0d
  | 't' => some 0x09
  | 'v' => some 0x0b
  | '\\' => some 0x5c
  | '"' => some 0x22
  | _ => none

/-- The number that `n` octal digits at the start of a text stand for. -/
def octal? (n : Nat) (cs : List Char) : Option Nat :=
  let ds := cs.take n
  if ds.length = n && ds.all fun d => '0' ≤ d && d ≤ '7' then
    some (ds.foldl (fun v d => 8 * v + (d.toNat - '0'.toNat)) 0)
  else none

/-- The number that `n` hex digits at the start of a text stand for. -/
def hex? (n : Nat) (cs : List Char) : Option Nat :=
  let ds := cs.take n
  if ds.length < n then none else Text.hexNumber? ds

/-- The bytes of the character of a number. Half a character is replaced. Of a number beyond all
characters, which must have the highest of 32 bits, the last byte is left. -/
def charBytes? (n : Nat) : Option (List UInt8) :=
  if Nat.pow 2 31 ≤ n then some [UInt8.ofNat n]
  else if 0x10ffff < n then none
  else some (String.utf8EncodeChar (Text.charOf n))

/-- The bytes of the character of a number in JSON, where it must be one. -/
def jsonCharBytes? (n : Nat) : Option (List UInt8) :=
  if n.isValidChar then some (String.utf8EncodeChar (Char.ofNat n)) else none

/-- What the text behind a backslash stands for, and how many characters it has; `ofNumber?` gives
the bytes of the character of a number. -/
def escape? (ofNumber? : Nat → Option (List UInt8)) (cs : List Char) : Option (List UInt8 × Nat) :=
  match cs with
  | 'x' :: r => (hex? 2 r).map fun n => ([UInt8.ofNat n], 3)
  | 'u' :: r => do return (← ofNumber? (← hex? 4 r), 5)
  | 'U' :: r => do return (← ofNumber? (← hex? 8 r), 9)
  | c :: _ =>
    match letterByte? c with
    | some b => some ([b], 1)
    | none => (octal? 3 cs).bind fun n => if n < 256 then some ([UInt8.ofNat n], 3) else none
  | [] => none

/-- Reads a quoted text behind its opening quote; `acc` are its bytes so far in reverse, and `skip`
characters of an escape are still to be passed. Inside `${` and the brace that closes it, everything
stands for itself, and quotes and line ends may stand there, but not the character for what cannot
be read; `braces` are open. -/
def quoted? : (skip braces : Nat) → (acc : List UInt8) → List Char → Option (RawText × List Char)
  | _, _, _, [] => none
  | k + 1, braces, acc, _ :: r => quoted? k braces acc r
  | 0, braces, acc, c :: r =>
    let add := (String.utf8EncodeChar c).reverse ++ acc
    if c = '\\' then
      match escape? charBytes? r with
      | some (bytes, k) =>
        let bytes := if braces = 0 then bytes else (c :: r.take k).flatMap String.utf8EncodeChar
        quoted? k braces (bytes.reverse ++ acc) r
      | none => none
    else if braces = 0 then
      if c = '"' then some (⟨acc.reverse⟩, r)
      else if c = '\n' then none
      else if c = '$' ∧ r.head? = some '\x7b' then quoted? 1 1 (0x7b :: add) r
      else quoted? 0 0 add r
    else if c = '\ufffd' then none
    else
      let braces := if c = '\x7b' then braces + 1 else if c = '\x7d' then braces - 1 else braces
      quoted? 0 braces add r

/-- Reads a quoted text of JSON behind its opening quote; `acc` are its bytes so far in reverse, and
`skip` characters of an escape are still to be passed. -/
def jsonQuoted? : (skip : Nat) → (acc : List UInt8) → List Char → Option (RawText × List Char)
  | _, _, [] => none
  | k + 1, acc, _ :: r => jsonQuoted? k acc r
  | 0, acc, c :: r =>
    if c = '"' then some (⟨acc.reverse⟩, r)
    else if c = '\\' then
      match escape? jsonCharBytes? r with
      | some (bytes, k) => jsonQuoted? k (bytes.reverse ++ acc) r
      | none => none
    else if c = '\n' ∨ c = '\x00' then none
    else jsonQuoted? 0 ((String.utf8EncodeChar c).reverse ++ acc) r

/-! ## Documents in place of quoted texts -/

/-- Whether a line ends a document with a given anchor: blanks, the anchor and carriage returns. -/
def endsDocument (anchor line : List Char) : Bool :=
  let rest := line.dropWhile fun c => c = ' ' || (0x09 ≤ c.toNat && c.toNat ≤ 0x0d)
  anchor.isPrefixOf rest && (rest.drop anchor.length).all (· = '\r')

/-- Reads the lines of a document through the one that ends it, which has at least `width` bytes.
The answer is the text of these lines, and what follows. -/
def documentLines? (anchor : List Char) (width : Nat) : Nat → (acc : List Char) → List Char →
    Option (List Char × List Char)
  | 0, _, _ => none
  | n + 1, acc, cs =>
    let (line, rest) := cs.span (· ≠ '\n')
    match rest with
    | [] => none
    | _ :: rest =>
      let acc := '\n' :: (line.reverse ++ acc)
      if width ≤ (String.ofList line).utf8ByteSize && endsDocument anchor line then
        some (acc.reverse, rest)
      else documentLines? anchor width n acc rest

/-- The lines of a row of bytes. -/
def byteLines (bytes : List UInt8) : List (List UInt8) :=
  bytes.foldr
    (fun b lines => match lines with
      | line :: rest => if b = 0x0a then [] :: line :: rest else (b :: line) :: rest
      | [] => [[b]])
    [[]]

/-- Whether a byte is a blank on a line. -/
def isBlankByte (b : UInt8) : Bool := b = 0x20 || b = 0x09

/-- What an indented document stands for. `body` are the bytes of its lines and of the blanks in
front of the closing anchor. If all lines start with these blanks they are left out, else only the
last ones are. -/
def unindented (body : List UInt8) : List UInt8 :=
  let lines := byteLines body
  let blanks := lines.getLast?.getD []
  if lines.all fun line => blanks.isPrefixOf line then
    [(0x0a : UInt8)].intercalate (lines.dropLast.map (fun line => line.drop blanks.length) ++ [[]])
  else (body.dropLast.reverse.dropWhile isBlankByte).reverse

/-- Reads a document behind its first mark. -/
def document? (cs : List Char) : Option (RawText × List Char) := do
  let cs ← match cs with
    | '<' :: r => some r
    | _ => none
  let (dash, cs) := match cs with
    | '-' :: r => (true, r)
    | _ => (false, cs)
  let (anchor, cs) := cs.span fun c => startsName c || Text.isDigit c
  let (anchor, cs) := match cs with
    | '\r' :: '\n' :: r => (anchor ++ ['\r'], '\n' :: r)
    | _ => (anchor, cs)
  if anchor.isEmpty then none
  match cs with
  | '\n' :: r =>
    let width := (String.ofList anchor).utf8ByteSize
    let (text, rest) ← documentLines? anchor (if dash then width + 1 else width) (r.length + 1) [] r
    let bytes := text.flatMap String.utf8EncodeChar
    let body := bytes.take (bytes.length - (width + 1))
    return (⟨if dash then unindented body else body⟩, rest)
  | _ => none

/-! ## Tokens -/

/-- What may stand between tokens. -/
inductive Gap
  | blanks
  /-- A comment to the end of its line. -/
  | line
  /-- A comment that has an end of its own. -/
  | enclosed
  deriving DecidableEq, Repr

/-- What follows blanks, line ends and comments. -/
def skipGap? : Gap → List Char → Option (List Char)
  | .enclosed, [] => none
  | _, [] => some []
  | .line, c :: r => skipGap? (if c = '\n' then .blanks else .line) r
  | .enclosed, '*' :: '/' :: r => skipGap? .blanks r
  | .enclosed, _ :: r => skipGap? .enclosed r
  | .blanks, '#' :: r => skipGap? .line r
  | .blanks, '/' :: '/' :: r => skipGap? .line r
  | .blanks, '/' :: '*' :: r => skipGap? .enclosed r
  | .blanks, c :: r =>
    if isBlank c then skipGap? .blanks r else if c = '/' then none else some (c :: r)

/-- Reads the next token. -/
def token? (cs : List Char) : Option (Token × List Char) := do
  match ← skipGap? .blanks cs with
  | [] => return (.finish, [])
  | c :: rest =>
    let digit := rest.head?.any Char.isDigit
    if startsName c then
      let (name, rest) :=
        (c :: rest).span fun c => startsName c || Text.isDigit c || c = '-' || c = '.'
      let name := String.ofList name
      return (if name ∈ ["true", "false"] then .literal (.bool (name == "true"))
        else .name name, rest)
    else if c.isDigit then
      let (l, rest) ← number? (c :: rest)
      return (.literal l, rest)
    else if c = '-' && digit then
      let (l, rest) ← number? rest
      return (.literal l.negated, rest)
    else if c = '.' && digit then
      let (l, rest) := bareFraction rest
      return (.literal l, rest)
    else if c = '"' then
      let (t, rest) ← quoted? 0 0 [] rest
      return (.quoted t, rest)
    else if c = '<' then
      let (t, rest) ← document? rest
      return (.literal (.text t), rest)
    else if c ∈ ['[', ']', '\x7b', '\x7d', ',', '=', '.', '+', '-'] then return (.mark c, rest)
    else none

/-- Reads the next token of JSON. A null character ends the text, and the word for nothing is an
empty text. -/
def jsonToken? (cs : List Char) : Option (Token × List Char) := do
  match cs.dropWhile isBlank with
  | [] => return (.finish, [])
  | c :: rest =>
    let digit := rest.head?.any Char.isDigit
    if c = '\x00' then return (.finish, rest)
    else if startsName c then
      let (word, rest) := (c :: rest).span fun c => startsName c || Text.isDigit c || c = '-'
      if rest.head? = some '\x00' then none
      else if word = "true".toList then return (.literal (.bool true), rest)
      else if word = "false".toList then return (.literal (.bool false), rest)
      else if word = "null".toList then return (.literal (.text ⟨[]⟩), rest)
      else none
    else if c.isDigit then
      let (l, rest) ← jsonNumber? (c :: rest)
      return (.literal l, rest)
    else if c = '-' && digit then
      let (l, rest) ← jsonNumber? rest
      return (.literal l.negated, rest)
    else if c = '.' && digit then
      let (l, rest) := bareFraction rest
      return (.literal l, rest)
    else if c = '"' then
      let (t, rest) ← jsonQuoted? 0 [] rest
      return (.quoted t, rest)
    else if c ∈ ['[', ']', '\x7b', '\x7d', ',', ':', '.'] then return (.mark c, rest)
    else none

end PointsTo.Hcl
