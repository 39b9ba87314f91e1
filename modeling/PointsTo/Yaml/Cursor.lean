/-!
# Places in a YAML text

A text is read from front to back with a `Cursor`, which knows what is left of the text and where it
stands. The text is taken in by blocks, as far as characters in front of the cursor are needed
(`Cursor.need`), so an ill-formed block behind what is read does no harm.

This module also says which characters separate words and end lines, and how comments are stepped
over.
-/

namespace PointsTo.Yaml

/-! ## Characters -/

/-- Whether a character ends a line. -/
def isBreak (c : Char) : Bool :=
  c == '\n' || c == '\r' || c.toNat == 0x85 || c.toNat == 0x2028 || c.toNat == 0x2029

/-- Whether a character separates words on a line. -/
def isSpace (c : Char) : Bool := c == ' ' || c == '\t'

/-- Whether a text is over, or starts with a character that separates. -/
def startsBlank : List Char → Bool
  | [] => true
  | c :: _ => isSpace c || isBreak c

/-- Whether a character may stand in a text. -/
def isAllowed (c : Char) : Bool :=
  let n := c.toNat
  n == 0x09 || n == 0x0a || n == 0x0d || (0x20 ≤ n && n ≤ 0x7e) || n == 0x85 ||
    (0xa0 ≤ n && n ≤ 0xd7ff) || (0xe000 ≤ n && n ≤ 0xfffd) || 0x10000 ≤ n

/-- The mark that may stand at the start of a text and says nothing. -/
def byteOrderMark : Char := Char.ofNat 0xfeff

/-! ## Blocks -/

/-- The greatest number of bytes of a block. -/
def blockSize : Nat := 512

/-- Cuts a text into blocks of whole characters. The current block is given in reverse, and `room`
bytes are left in it. -/
def blocksFrom (room : Nat) (current : List Char) : List Char → List (List Char)
  | [] => if current.isEmpty then [] else [current.reverse]
  | c :: cs =>
    if c.utf8Size ≤ room then blocksFrom (room - c.utf8Size) (c :: current) cs
    else current.reverse :: blocksFrom (blockSize - c.utf8Size) [c] cs

/-! ## Cursors -/

/-- A place in a text: what is still to be read, the line, the column, and the number of characters
read. -/
structure Cursor where
  rest : List Char
  /-- The length of the whole text, which bounds every walk through what is left of it. -/
  bound : Nat
  line : Nat := 0
  col : Nat := 0
  pos : Nat := 0
  /-- Whether a line has ended and nothing but blanks came since. -/
  fresh : Bool := false
  /-- The blocks that are not taken in yet. -/
  blocks : List (List Char) := []
  /-- How many characters from the cursor on are taken in. The end of the text counts as a
  character, once for each time that more was needed there. -/
  ahead : Nat := 0
  /-- Whether a byte order mark stood at the cursor when a block or the end was last taken in. While
  this is so, the first character of every line is stepped over. -/
  marked : Bool := false

namespace Cursor

/-- The start of a text. A byte order mark there belongs to the first block but not to the text, and
a text of less than three bytes is taken in with its end at once. -/
def start? (text : String) : Option Cursor :=
  let (cs, room) := match text.toList with
    | c :: cs => if c == byteOrderMark then (cs, blockSize - c.utf8Size) else (c :: cs, blockSize)
    | [] => ([], blockSize)
  if text.utf8ByteSize < 3 then
    if cs.all isAllowed then some { rest := cs, bound := cs.length, ahead := cs.length + 1 }
    else none
  else some { rest := cs, bound := cs.length, blocks := blocksFrom room [] cs }

/-- Takes in blocks until `n` characters are known or the text ends, if their characters are
allowed. -/
def takeIn (n : Nat) : (ahead : Nat) → List (List Char) → Option (Nat × List (List Char))
  | ahead, [] => some (if n ≤ ahead then ahead else ahead + 1, [])
  | ahead, b :: bs =>
    if n ≤ ahead then some (ahead, b :: bs)
    else if b.all isAllowed then takeIn n (ahead + b.length) bs
    else none

/-- Makes sure that `n` characters from the cursor on are taken in, as far as there are so many. -/
def need (n : Nat) (c : Cursor) : Option Cursor :=
  if n ≤ c.ahead then some c
  else
    (takeIn n c.ahead c.blocks).map fun (ahead, blocks) =>
      { c with ahead, blocks, marked := c.rest.head? == some byteOrderMark }

/-- Steps over one character. -/
def step (c : Cursor) : Cursor :=
  { c with
    rest := c.rest.tail, col := c.col + 1, pos := c.pos + 1, ahead := c.ahead - 1,
    fresh := c.fresh && c.rest.head?.any isSpace }

/-- Steps over several characters. -/
def steps : Nat → Cursor → Cursor
  | 0, c => c
  | n + 1, c => steps n c.step

/-- Steps over a line end. -/
def nextLine (c : Cursor) : Cursor :=
  let n := match c.rest with
    | '\r' :: '\n' :: _ => 2
    | _ => 1
  { c with
    rest := c.rest.drop n, line := c.line + 1, col := 0, pos := c.pos + n, ahead := c.ahead - n,
      fresh := true }

/-- Whether a line ends at the cursor. -/
def atBreak (c : Cursor) : Bool := c.rest.head?.any isBreak

/-- Whether a document marker stands at the cursor. -/
def atMarker (c : Cursor) : Bool :=
  c.col == 0 && (c.rest.take 3 == ['-', '-', '-'] || c.rest.take 3 == ['.', '.', '.']) &&
    startsBlank (c.rest.drop 3)

/-- What the line end at the cursor stands for in a scalar. -/
def breakText (c : Cursor) : List Char :=
  match c.rest with
  | x :: _ => if x.toNat == 0x2028 || x.toNat == 0x2029 then [x] else ['\n']
  | [] => []

/-- Steps over characters, at most `n`, as long as they satisfy a condition. -/
def skipWhile (p : Char → Bool) : Nat → Cursor → Option Cursor
  | 0, c => some c
  | n + 1, c => if c.rest.head?.any p then do skipWhile p n (← c.step.need 1) else some c

/-- Steps to the end of the line. -/
def toLineEnd (c : Cursor) : Option Cursor := do
  (← c.need 1).skipWhile (fun x => !isBreak x) (c.bound + 1)

/-- Steps to a position over blanks and line ends, at most `n` of them. -/
def stepTo (stop : Nat) : Nat → Cursor → Option Cursor
  | 0, c => some c
  | n + 1, c =>
    if stop ≤ c.pos then some c
    else do
      let c ← c.need 1
      if c.atBreak then stepTo stop n (← c.need 2).nextLine else stepTo stop n c.step

/-! ## Comments -/

/-- How far a comment is looked for. -/
def commentReach : Nat := 512

/-- How far in front of the cursor the next comment starts, if nothing but blanks stands in between,
or blanks and plain line ends where `lines` says so. It is looked for at `n` more characters, of
which the first has distance `i` and the text goes on with `cs` there. -/
def commentAhead (lines : Bool) : (n i : Nat) → (cs : List Char) → Cursor →
    Option (Option Nat × Cursor)
  | 0, _, _, c => some (none, c)
  | n + 1, i, cs, c => do
    let c ← c.need (i + 1)
    match cs with
    | [] => return (none, c)
    | x :: cs =>
      if x == '#' then return (some i, c)
      else if isSpace x || (lines && (x == '\n' || x == '\r')) then
        commentAhead lines n (i + 1) cs c
      else if lines && isBreak x && n ≠ 0 then return (none, ← c.need (i + 2))
      else return (none, c)

/-- The distance of the next comment behind the end of the line at the cursor. -/
def commentBehind (c : Cursor) : Option (Option Nat × Cursor) :=
  match c.rest with
  | x :: cs =>
    if x == '\n' || x == '\r' then commentAhead true (commentReach - 1) 1 cs c
    else (c.need 2).map fun c => (none, c)
  | [] => (c.need 2).map fun c => (none, c)

/-- Steps over the comment at the cursor and over the comments that follow it closely, at most `n`
of them, to the end of the last one's line. -/
def skipComments : Nat → Cursor → Option Cursor
  | 0, c => some c
  | n + 1, c => do
    match ← (← c.toLineEnd).commentBehind with
    | (some i, c) => skipComments n (← c.stepTo (c.pos + i) (c.bound + 1))
    | (none, c) => return c

/-- Steps over a comment behind a token, if the line has not ended yet. -/
def skipLineComment (c : Cursor) : Option Cursor :=
  if c.fresh then some c
  else do
    match ← commentAhead false commentReach 0 c.rest c with
    | (some i, c) => (← c.stepTo (c.pos + i) (c.bound + 1)).toLineEnd
    | (none, c) => return c

/-- Steps over blanks, line ends and comments, at most `n` lines. `keys` says whether a key may
start at the cursor; outside flow collections, a key may start on every new line, and where one may
start a tab is no blank. The answer says whether a key may start at the new place. -/
def skipBlanks (flow : Bool) : Nat → (keys : Bool) → Cursor → Option (Bool × Cursor)
  | 0, keys, c => some (keys, c)
  | n + 1, keys, c => do
    let c ← c.need 1
    let c ← (if c.col == 0 && c.marked then c.step else c).need 1
    let c ← c.skipWhile (fun x => x == ' ' || ((flow || !keys) && x == '\t')) (c.bound + 1)
    let c ← if c.rest.head? == some '#' then c.skipComments (c.bound + 1) else some c
    if c.atBreak then skipBlanks flow n (keys || !flow) (← c.need 2).nextLine
    else return (keys, c)

end Cursor

end PointsTo.Yaml
