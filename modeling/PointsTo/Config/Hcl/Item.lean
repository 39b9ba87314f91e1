import PointsTo.Config.Hcl.Token

/-!
# Items of HCL

A text is a row of items. An item has one or more keys and a node: a literal, a list of nodes, or a
block of items. Line ends do not matter, and in HCL's own notation commas between items do not
either.

A reader stops at the end of the text or at a token that may not stand where it is. In a block, a
misplaced closing brace does no harm: the item it stands in is dropped, and one more closing brace
ends the block.
-/

namespace PointsTo.Hcl

/-- What an item assigns to its keys. -/
inductive Node
  | literal (l : Literal)
  | list (nodes : List Node)
  | block (items : List (List RawText × Node))

/-- Whether a node is a block. -/
def Node.isBlock : Node → Bool
  | .block _ => true
  | _ => false

/-- An item: its keys and its node. -/
abbrev Item := List RawText × Node

/-- Why a reader stops. -/
inductive Stop
  | finished
  | misplaced
  deriving DecidableEq, Repr

/-- A text that is being read, with the last token. -/
structure Source where
  rest : List Char
  token : Token := .finish
  /-- Whether the last token is still to be looked at. -/
  held : Bool := false

/-- A reader of tokens; it fails where a text cannot be cut into tokens. -/
abbrev Reader := StateT Source Option

namespace Reader

/-- The last token. -/
def last : Reader Token := do return (← get).token

/-- Takes the next token. -/
def next : Reader Token := do
  let s ← get
  if s.held then
    set { s with held := false }
    return s.token
  else
    let (token, rest) ← (token? s.rest : Option _)
    set ({ rest, token } : Source)
    return token

/-- Puts the last token back. -/
def hold : Reader Unit := modify fun s => { s with held := true }

/-- Reads keys up to the mark behind them, after those read so far. Only one key may stand in front
of an equals sign. -/
def keys : Nat → (done : List RawText) → Reader (List RawText × Option Stop)
  | 0, _ => failure
  | n + 1, done => do
    match ← next with
    | .name s => keys n (done ++ [.ofString s])
    | .quoted t => keys n (done ++ [t])
    | .mark '=' => return if done.length = 1 then (done, none) else ([], some .misplaced)
    | .mark '\x7b' => return (done, if done.isEmpty then some .misplaced else none)
    | .finish => return (done, some .finished)
    | _ => return (done, some .misplaced)

mutual

/-- Reads an item. -/
def item : Nat → Reader (Except Stop Item)
  | 0 => failure
  | n + 1 => do
    let (keys, stop) ← keys (n + 1) []
    if keys.isEmpty then return .error (stop.getD .misplaced)
    if stop = some .misplaced then
      if (← last) ≠ .mark '\x7d' then return .error .misplaced
      modify fun s => { s with token := .finish }
    let node ← match ← last with
      | .mark '=' => node n
      | .mark '\x7b' => Except.map Node.block <$> block n
      | _ => pure (.error .misplaced)
    match node with
    | .error e => return .error e
    | .ok v =>
      let _ ← next
      hold
      return .ok (keys, v)

/-- Reads items, after those read so far, to the end of the text, or of a block if `inner` says so.
The answer also says whether a token was misplaced. -/
def items : Nat → (inner : Bool) → (done : List Item) → Reader (List Item × Bool)
  | 0, _, _ => failure
  | n + 1, inner, done => do
    if inner then
      let t ← next
      hold
      if t = .mark '\x7d' then return (done.reverse, false)
    match ← item n with
    | .error .finished => return (done.reverse, false)
    | .error .misplaced => return (done.reverse, true)
    | .ok i =>
      if (← next) ≠ .mark ',' then hold
      items n inner (i :: done)

/-- Reads a block behind its opening brace. -/
def block : Nat → Reader (Except Stop (List Item))
  | 0 => failure
  | n + 1 => do
    let (items, misplaced) ← items n true []
    if misplaced && (← last) ≠ .mark '\x7d' then return .error .misplaced
    return if (← next) = .mark '\x7d' then .ok items else .error .misplaced

/-- Reads a node. -/
def node : Nat → Reader (Except Stop Node)
  | 0 => failure
  | n + 1 => do
    match ← next with
    | .literal l => return .ok (.literal l)
    | .quoted t => return .ok (.literal (.text t))
    | .mark '\x7b' => return (← block n).map .block
    | .mark '[' => return (← list n false []).map .list
    | .finish => return .error .finished
    | _ => return .error .misplaced

/-- Reads the nodes of a list, after those read so far; `comma` says whether a comma has to come
first. -/
def list : Nat → (comma : Bool) → (done : List Node) → Reader (Except Stop (List Node))
  | 0, _, _ => failure
  | n + 1, comma, done => do
    match ← next, comma with
    | .mark ']', _ => return .ok done.reverse
    | .mark ',', _ => list n false done
    | .literal l, false => list n true (.literal l :: done)
    | .quoted t, false => list n true (.literal (.text t) :: done)
    | .mark '\x7b', false =>
      match ← block n with
      | .ok items => list n true (.block items :: done)
      | .error e => return .error e
    | .mark '[', false =>
      match ← list n false [] with
      | .ok nodes => list n true (.list nodes :: done)
      | .error e => return .error e
    | _, _ => return .error .misplaced

end

end Reader

/-- A text with single line feeds in place of line ends of two characters. -/
def plainLines : List Char → List Char
  | '\r' :: '\n' :: rest => '\n' :: plainLines rest
  | c :: rest => c :: plainLines rest
  | [] => []

/-- The items of a text. A null character and one private character may not stand in it. -/
def items? (text : List Char) : Option (List Item) := do
  let cs := plainLines text
  if cs.any fun c => c.toNat = 0 || c.toNat = 0xe123 then none
  let ((items, misplaced), _) ← (Reader.items (4 * cs.length + 8) false []).run { rest := cs }
  if misplaced then none else some items

end PointsTo.Hcl
