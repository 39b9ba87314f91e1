import Std.Data.HashMap
import PointsTo.Yaml.Directive
import PointsTo.Yaml.Scalar

/-!
# Tokens of YAML

A `Lexer` cuts a text into tokens. Block collections are told by indentation, so the lexer keeps the
columns of the open ones and adds tokens for their starts and ends. A mapping key is known only by
the colon behind it: while a token may still turn out to be a key, the lexer remembers where it
stands, and puts the token `key` in front of it when the colon is met.

Tokens are handed out only when two more are known, and when the one in front cannot turn out to be
a key any more, as far as the lexer's table of such tokens tells. So a text is read a little further
than what is made of it.

Anchors, aliases, tags and block scalars are not read.
-/

namespace PointsTo.Yaml

/-- A token. -/
inductive Token
  | streamEnd
  /-- The directive that gives the version of the language. -/
  | version (major minor : Nat)
  /-- The directive that gives a shorthand for tags. -/
  | tagShorthand (handle : String)
  | documentStart
  | documentEnd
  | blockSequence
  | blockMapping
  | blockEnd
  | flowSequence
  | flowSequenceEnd
  | flowMapping
  | flowMappingEnd
  /-- The dash in front of an item of a block sequence. -/
  | entry
  | comma
  | key
  | value
  | scalar (plain : Bool) (text : String)
  deriving DecidableEq, Repr

/-- A place where a key may have started, one for each open flow collection and one around all of
them. -/
structure KeyPlace where
  /-- Whether the token there may still turn out to be a key. -/
  possible : Bool := false
  /-- The number of tokens in front of it. -/
  index : Nat := 0
  line : Nat := 0
  col : Nat := 0
  pos : Nat := 0
  /-- Whether nothing but a key may stand there. -/
  required : Bool := false
  deriving DecidableEq, Repr

/-- Whether a colon at the cursor comes too late for a key: a key stands on one line, and its colon
within 1024 characters. -/
def KeyPlace.isLate (k : KeyPlace) (c : Cursor) : Bool := k.line < c.line || k.pos + 1024 < c.pos

/-- The number of collections that may stand inside one another. -/
def maxDepth : Nat := 10000

/-- A text that is being cut into tokens. -/
structure Lexer where
  cursor : Cursor
  /-- All tokens so far. -/
  tokens : Array Token := #[]
  /-- The number of tokens that were handed out. -/
  taken : Nat := 0
  /-- The columns of the open block collections, the innermost first. -/
  indents : List Nat := []
  /-- Where a key may have started in the innermost flow collection, or outside of all. -/
  place : KeyPlace := {}
  /-- Where a key may have started around each open flow collection, the innermost first. -/
  outer : List KeyPlace := []
  /-- The tokens that may be keys: their indexes, each with the number of flow collections around
  the place. Such a token is not handed out while the key at that place is possible. -/
  held : Std.HashMap Nat Nat := {}
  /-- Whether a key may start at the cursor. -/
  keys : Bool := true

namespace Lexer

/-- Whether a flow collection is open. -/
def inFlow (l : Lexer) : Bool := !l.outer.isEmpty

/-- Adds a token. -/
def push (t : Token) (l : Lexer) : Lexer := { l with tokens := l.tokens.push t }

/-- Steps over characters. -/
def advance (n : Nat) (l : Lexer) : Lexer := { l with cursor := l.cursor.steps n }

/-- Says whether a key may start at the cursor. -/
def allowKeys (b : Bool) (l : Lexer) : Lexer := { l with keys := b }

/-- Adds a token in front of those from `index` on, or behind all of them if the one there was
already handed out. -/
def insert (index : Nat) (t : Token) (l : Lexer) : Lexer :=
  if index < l.taken then l.push t else { l with tokens := l.tokens.insertIdxIfInBounds index t }

/-! ## Keys that are not known yet -/

/-- Takes a token off the table of those that may be keys. -/
def release (index : Nat) (l : Lexer) : Lexer := { l with held := l.held.erase index }

/-- Gives up the key that may have started, unless it has to be one. -/
def dropKey (l : Lexer) : Option Lexer :=
  if !l.place.possible then some l
  else if l.place.required then none
  else some ({ l with place := { l.place with possible := false } }.release l.place.index)

/-- Remembers the place of the next token as one of a key, if a key may start there. -/
def saveKey (l : Lexer) : Option Lexer :=
  if l.keys then
    let c := l.cursor
    let required := !l.inFlow && l.indents.head? == some c.col
    l.dropKey.map fun l =>
      let index := l.tokens.size
      { l with
        place := { possible := true, index, line := c.line, col := c.col, pos := c.pos, required }
        held := l.held.insert index l.outer.length }
  else some l

/-- Goes into a flow collection whose bracket is the next token. -/
def enterFlow (l : Lexer) : Lexer :=
  { l with outer := l.place :: l.outer, place := { index := l.tokens.size } }

/-- Leaves a flow collection. The token that last may have been a key in it is taken off the table;
if there was none, this is the bracket that opened the collection. -/
def leaveFlow (l : Lexer) : Lexer :=
  match l.outer with
  | k :: ks => { l.release l.place.index with place := k, outer := ks }
  | [] => l

/-! ## Indentation -/

/-- Closes the block collections that satisfy a condition on their columns, from the innermost
on. -/
def closeWhile (p : Nat → Bool) (l : Lexer) : Lexer :=
  if l.inFlow then l
  else
    let closed := l.indents.takeWhile p
    { l with
      indents := l.indents.drop closed.length
      tokens := closed.foldl (fun ts _ => ts.push .blockEnd) l.tokens }

/-- Opens a block collection at a column, unless one is open there, and puts its token in front of
those from `index` on. -/
def openAt (col index : Nat) (t : Token) (l : Lexer) : Option Lexer :=
  if l.inFlow || l.indents.head?.any (fun i => col ≤ i) then some l
  else if maxDepth ≤ l.indents.length then none
  else some ({ l with indents := col :: l.indents }.insert index t)

/-! ## Tokens one by one -/

/-- The end of the text. -/
def fetchEnd (l : Lexer) : Option Lexer := do
  let c := l.cursor
  let l := { l with cursor := if c.col = 0 then c else { c with line := c.line + 1, col := 0 } }
  let l ← (l.closeWhile fun _ => true).dropKey
  return (l.allowKeys false).push .streamEnd

/-- A document marker. -/
def fetchMarker (l : Lexer) : Option Lexer := do
  let t := if l.cursor.rest.head? == some '-' then Token.documentStart else .documentEnd
  let l ← (l.closeWhile fun _ => true).dropKey
  return ((l.allowKeys false).advance 3).push t

/-- The opening bracket of a flow collection. -/
def fetchOpening (t : Token) (l : Lexer) : Option Lexer := do
  let l ← l.saveKey
  if maxDepth ≤ l.outer.length then none
  return ((l.enterFlow.allowKeys true).advance 1).push t

/-- The closing bracket of a flow collection. -/
def fetchClosing (t : Token) (l : Lexer) : Option Lexer := do
  let l ← l.dropKey
  return ((l.leaveFlow.allowKeys false).advance 1).push t

/-- A comma. -/
def fetchComma (l : Lexer) : Option Lexer := do
  let l ← l.dropKey
  return ((l.allowKeys true).advance 1).push .comma

/-- Opens a block collection at the cursor for an indicator, which may stand only where a key may
start. In flow collections nothing is opened. -/
def openHere (t : Token) (l : Lexer) : Option Lexer :=
  if l.inFlow then some l
  else if l.keys then l.openAt l.cursor.col l.tokens.size t
  else none

/-- The dash of an item. -/
def fetchEntry (l : Lexer) : Option Lexer := do
  let l ← l.openHere .blockSequence
  let l ← l.dropKey
  return ((l.allowKeys true).advance 1).push .entry

/-- The question mark in front of a key. -/
def fetchKey (l : Lexer) : Option Lexer := do
  let l ← l.openHere .blockMapping
  let l ← l.dropKey
  return ((l.allowKeys !l.inFlow).advance 1).push .key

/-- The colon behind a key that has a mark of its own, or is left out. -/
def fetchLoneValue (l : Lexer) : Option Lexer := do
  let l ← l.openHere .blockMapping
  return ((l.allowKeys !l.inFlow).advance 1).push .value

/-- The colon behind a key. -/
def fetchValue (l : Lexer) : Option Lexer := do
  let k := l.place
  if !k.possible then l.fetchLoneValue
  else if k.isLate l.cursor then
    if k.required then none
    { l with place := { k with possible := false } }.fetchLoneValue
  else
    let l ← (l.insert k.index .key).openAt k.col k.index .blockMapping
    let l := { l with place := { k with possible := false } }.release k.index
    return ((l.allowKeys false).advance 1).push .value

/-- A scalar, read by `read?` from the cursor on. -/
def fetchScalar (plain : Bool) (read? : Cursor → Option (String × Cursor)) (l : Lexer) :
    Option Lexer := do
  let l ← l.saveKey
  let (s, c) ← read? l.cursor
  return ({ l with cursor := c }.allowKeys (plain && c.fresh)).push (.scalar plain s)

/-- The least indentation of a further line of a plain scalar. -/
def innerIndent (l : Lexer) : Nat := (l.indents.head?.map fun i => i + 1).getD 0

/-- The token that starts with the character `x`, behind which `r` is left. -/
def fetchToken (x : Char) (r : List Char) (l : Lexer) : Option Lexer :=
  let fuel := l.cursor.bound + 1
  let indicator := l.inFlow || startsBlank r
  if x == '[' then l.fetchOpening .flowSequence
  else if x == '{' then l.fetchOpening .flowMapping
  else if x == ']' then l.fetchClosing .flowSequenceEnd
  else if x == '}' then l.fetchClosing .flowMappingEnd
  else if x == ',' then l.fetchComma
  else if x == '-' && startsBlank r then l.fetchEntry
  else if x == '?' && indicator then l.fetchKey
  else if x == ':' && indicator then l.fetchValue
  else if x == '\'' then l.fetchScalar false fun c => quotedScalar false fuel [] c.step
  else if x == '"' then l.fetchScalar false fun c => quotedScalar true fuel [] c.step
  else if startsPlain l.inFlow (x :: r) then
    l.fetchScalar true fun c => plainScalar l.inFlow l.innerIndent fuel [] (.spaces []) c
  else none

/-- A directive. -/
def fetchDirective (l : Lexer) : Option Lexer := do
  let l ← (l.closeWhile fun _ => true).dropKey
  let (d, c) ← Directive.read? l.cursor.step
  let t := match d with
    | .version major minor => Token.version major minor
    | .tagShorthand handle => .tagShorthand handle
  return ({ l with cursor := c }.allowKeys false).push t

/-- Reads the next token, and the comment behind it on its line. A comment behind a dash is left for
what follows the dash, and behind directives and document markers there is none. -/
def fetch (l : Lexer) : Option Lexer := do
  let (keys, c) ← (← l.cursor.need 1).skipBlanks l.inFlow (l.cursor.bound + 1) l.keys
  let l := { l with keys }.closeWhile fun i => c.col < i
  let c ← c.need 4
  let l := { l with cursor := c }
  match c.rest with
  | [] => l.fetchEnd
  | x :: r =>
    if c.col = 0 && x == '%' then l.fetchDirective
    else if c.atMarker then l.fetchMarker
    else
      let l ← l.fetchToken x r
      if l.tokens.back? = some .entry then return l
      else return { l with cursor := ← l.cursor.skipLineComment }

/-! ## Handing out tokens -/

/-- Where the key may have started for which the token in front is held back. -/
def placeInFront? (l : Lexer) : Option KeyPlace := do
  let level ← l.held[l.taken]?
  (l.place :: l.outer)[l.outer.length - level]?

/-- Whether the token in front can be handed out; `none` if something had to be a key and is
none. -/
def isReady? (l : Lexer) : Option Bool :=
  if l.tokens.size < l.taken + 3 then some false
  else
    match l.placeInFront? with
    | none => some true
    | some k =>
      if !k.possible then some true
      else if !k.isLate l.cursor then some false
      else if k.required then none
      else some true

/-- Reads tokens until the one in front can be handed out. -/
def fill : Nat → Lexer → Option Lexer
  | 0, _ => none
  | n + 1, l => do
    if ← l.isReady? then return l
    fill n (← l.fetch)

/-- The token in front. -/
def peek (l : Lexer) : Option (Token × Lexer) := do
  let l ← l.fill (l.cursor.bound + 4)
  let t ← l.tokens[l.taken]?
  return (t, l)

/-- Hands out the token in front. -/
def pop (l : Lexer) : Lexer := { l.release l.taken with taken := l.taken + 1 }

end Lexer

end PointsTo.Yaml
