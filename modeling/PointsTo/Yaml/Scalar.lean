import PointsTo.Text.Hex
import PointsTo.Yaml.Cursor

/-!
# Scalars of YAML

A scalar is written plainly, between single quotes or between double quotes. It is a row of words
with gaps in between. It may go over several lines; a single line end in a gap stands for a space,
and of several line ends the first is dropped.
-/

namespace PointsTo.Yaml

/-! ## Gaps -/

/-- Blanks and line ends met inside a scalar, in reverse: blanks on one line, or a first line end
and the ones after it. -/
inductive Gap
  | spaces (cs : List Char)
  | broken (first more : List Char)

namespace Gap

/-- What a gap adds to a scalar, given in reverse: a single line end becomes a space, more of them
lose the first. -/
def flush (acc : List Char) : Gap → List Char
  | spaces cs => cs ++ acc
  | broken ['\n'] [] => ' ' :: acc
  | broken ['\n'] more => more ++ acc
  | broken first more => more ++ first ++ acc

/-- A gap with one more blank. -/
def addBlank (x : Char) : Gap → Gap
  | spaces cs => spaces (x :: cs)
  | g => g

/-- A gap with one more line end. -/
def addBreak (text : List Char) : Gap → Gap
  | spaces _ => broken text []
  | broken first more => broken first (text ++ more)

/-- Whether a line has ended in a gap. -/
def isBroken : Gap → Bool
  | spaces _ => false
  | broken .. => true

/-- Reads the rest of a gap. A tab may not stand in the first `indent` columns of a line. -/
def read (indent : Nat) : Nat → Gap → Cursor → Option (Gap × Cursor)
  | 0, g, c => some (g, c)
  | n + 1, g, c =>
    match c.rest with
    | [] => some (g, c)
    | x :: _ =>
      if isSpace x then
        if x == '\t' && g.isBroken && c.col < indent then none
        else do read indent n (g.addBlank x) (← c.step.need 1)
      else if isBreak x then do
        let c ← c.need 2
        read indent n (g.addBreak c.breakText) (← c.nextLine.need 1)
      else some (g, c)

end Gap

/-! ## Quoted scalars -/

/-- The character whose number is written in the first `n` characters. -/
def hexChar? (n : Nat) (cs : List Char) : Option Char :=
  if cs.length < n then none else Text.hexChar? (cs.take n)

/-- The character that a backslash and what follows it stand for, and how many characters follow the
first one behind the backslash. -/
def escape? : List Char → Option (Char × Nat)
  | '0' :: _ => some ('\x00', 0)
  | 'a' :: _ => some ('\x07', 0)
  | 'b' :: _ => some ('\x08', 0)
  | 't' :: _ => some ('\t', 0)
  | '\t' :: _ => some ('\t', 0)
  | 'n' :: _ => some ('\n', 0)
  | 'v' :: _ => some ('\x0b', 0)
  | 'f' :: _ => some ('\x0c', 0)
  | 'r' :: _ => some ('\r', 0)
  | 'e' :: _ => some ('\x1b', 0)
  | ' ' :: _ => some (' ', 0)
  | '"' :: _ => some ('"', 0)
  | '\'' :: _ => some ('\'', 0)
  | '\\' :: _ => some ('\\', 0)
  | 'N' :: _ => some (Char.ofNat 0x85, 0)
  | '_' :: _ => some (Char.ofNat 0xa0, 0)
  | 'L' :: _ => some (Char.ofNat 0x2028, 0)
  | 'P' :: _ => some (Char.ofNat 0x2029, 0)
  | 'x' :: r => (hexChar? 2 r).map fun c => (c, 2)
  | 'u' :: r => (hexChar? 4 r).map fun c => (c, 4)
  | 'U' :: r => (hexChar? 8 r).map fun c => (c, 8)
  | _ => none

/-- Reads a word of a double-quoted scalar, given in reverse so far. The answer also says whether a
backslash at the end of a line ended it. -/
def doubleWord : Nat → (acc : List Char) → Cursor → Option (List Char × Bool × Cursor)
  | 0, _, _ => none
  | n + 1, acc, c =>
    match c.rest with
    | [] => some (acc, false, c)
    | x :: r =>
      if isSpace x || isBreak x || x == '"' then some (acc, false, c)
      else if x == '\\' then
        if r.head?.any isBreak then do return (acc, true, (← c.need 3).step.nextLine)
        else do
          let (z, k) ← escape? r
          let c ← (c.steps 2).need k
          doubleWord n (z :: acc) (← (c.steps k).need 2)
      else do doubleWord n (x :: acc) (← c.step.need 2)

/-- Reads a word of a single-quoted scalar, given in reverse so far. -/
def singleWord : Nat → (acc : List Char) → Cursor → Option (List Char × Bool × Cursor)
  | 0, _, _ => none
  | n + 1, acc, c =>
    match c.rest with
    | [] => some (acc, false, c)
    | '\'' :: '\'' :: _ => do singleWord n ('\'' :: acc) (← (c.steps 2).need 2)
    | x :: _ =>
      if isSpace x || isBreak x || x == '\'' then some (acc, false, c)
      else do singleWord n (x :: acc) (← c.step.need 2)

/-- Reads a quoted scalar behind its opening quote. -/
def quotedScalar (double : Bool) : Nat → (acc : List Char) → Cursor → Option (String × Cursor)
  | 0, _, _ => none
  | n + 1, acc, c => do
    let c ← c.need 4
    if c.atMarker || c.rest.isEmpty then none
    let (acc, joined, c) ← (if double then doubleWord else singleWord) (c.bound + 1) acc c
    let c ← c.need 1
    if c.rest.head? == some (if double then '"' else '\'') then
      return (String.ofList acc.reverse, c.step)
    let (gap, c) ← Gap.read 0 (c.bound + 1) (if joined then .broken [] [] else .spaces []) c
    quotedScalar double n (gap.flush acc) c

/-! ## Plain scalars -/

/-- Whether a plain scalar may start with a text. -/
def startsPlain (flow : Bool) : List Char → Bool
  | [] => false
  | x :: r =>
    if isSpace x || isBreak x then false
    else if x == '-' then !startsBlank r
    else if x == '?' || x == ':' then !flow && !startsBlank r
    else x ∉ [',', '[', ']', '{', '}', '#', '&', '*', '!', '|', '>', '\'', '"', '%', '@', '\x60']

/-- Whether a plain scalar stops in front of a text. -/
def stopsPlain (flow : Bool) : List Char → Bool
  | [] => true
  | x :: r => (x == ':' && startsBlank r) || (flow && x ∈ [',', '?', '[', ']', '{', '}'])

/-- Reads a word of a plain scalar, given in reverse so far. -/
def plainWord (flow : Bool) : Nat → (acc : List Char) → Cursor → Option (List Char × Cursor)
  | 0, _, _ => none
  | n + 1, acc, c =>
    match c.rest with
    | [] => some (acc, c)
    | x :: _ =>
      if isSpace x || isBreak x || stopsPlain flow c.rest then some (acc, c)
      else do plainWord flow n (x :: acc) (← c.step.need 2)

/-- Reads a plain scalar on behind a gap. A further line belongs to it only if it is indented by at
least `indent` columns; in flow collections this is asked of tabs only. The answer has the cursor
behind the blanks that follow. -/
def plainScalar (flow : Bool) (indent : Nat) :
    Nat → (acc : List Char) → Gap → Cursor → Option (String × Cursor)
  | 0, _, _, _ => none
  | n + 1, acc, gap, c => do
    let c ← c.need 4
    if c.atMarker || c.rest.head? == some '#' then return (String.ofList acc.reverse, c)
    let (word, c) ← plainWord flow (c.bound + 1) [] c
    let acc := if word.isEmpty then acc else word ++ gap.flush acc
    if !c.rest.head?.any fun x => isSpace x || isBreak x then return (String.ofList acc.reverse, c)
    let (gap, c) ← Gap.read indent (c.bound + 1) (.spaces []) c
    if !flow && c.col < indent then return (String.ofList acc.reverse, c)
    plainScalar flow indent n acc gap c

end PointsTo.Yaml
