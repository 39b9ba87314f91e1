import PointsTo.Config.Hcl.Item

/-!
# HCL in the notation of JSON

Items can also be written as the fields of a JSON object. Commas may be left out in lists, truth
values in them are dropped, and lists in them are not told apart from them. Nothing behind the last
item is looked at.

An object whose fields are all objects stands for items with longer keys (`flatten`), as does a list
of objects for several items with the same keys.
-/

namespace PointsTo.Hcl

namespace JsonReader

/-- Takes the next token. -/
def next : Reader Token := do
  let (token, rest) ← (jsonToken? (← get).rest : Option _)
  set ({ rest, token } : Source)
  return token

/-- Reads keys up to the colon behind them, after those read so far. -/
def keys : Nat → (done : List RawText) → Reader (Except Stop (List RawText))
  | 0, _ => failure
  | n + 1, done => do
    match ← next with
    | .quoted t => keys n (done ++ [t])
    | .mark ':' => return if done.isEmpty then .error .misplaced else .ok done
    | .finish => return .error .finished
    | _ => return .error .misplaced

mutual

/-- Reads items, after those read so far, as long as commas follow. The answer also says whether a
token was misplaced. -/
def items : Nat → (done : List Item) → Reader (List Item × Bool)
  | 0, _ => failure
  | n + 1, done => do
    match ← keys (n + 1) [] with
    | .error e => return (done.reverse, e = .misplaced)
    | .ok keys =>
      match ← node n with
      | .error e => return (done.reverse, e = .misplaced)
      | .ok v =>
        if (← next) = .mark ',' then items n ((keys, v) :: done)
        else return (((keys, v) :: done).reverse, false)

/-- Reads an object behind its opening brace. A misplaced closing brace ends it too. -/
def block : Nat → Reader (Except Stop (List Item))
  | 0 => failure
  | n + 1 => do
    let (items, misplaced) ← items n []
    return if misplaced && (← Reader.last) ≠ .mark '\x7d' then .error .misplaced else .ok items

/-- Reads a node. -/
def node : Nat → Reader (Except Stop Node)
  | 0 => failure
  | n + 1 => do
    match ← next with
    | .literal l => return .ok (.literal l)
    | .quoted t => return .ok (.literal (.text t))
    | .mark '\x7b' => return (← block n).map .block
    | .mark '[' => return (← list n []).map .list
    | .finish => return .error .finished
    | _ => return .error .misplaced

/-- Reads the nodes of a list, after those read so far. -/
def list : Nat → (done : List Node) → Reader (Except Stop (List Node))
  | 0, _ => failure
  | n + 1, done => do
    match ← next with
    | .mark ']' => return .ok done.reverse
    | .mark ',' | .mark '[' | .literal (.bool _) => list n done
    | .literal (.whole cs) => list n (.literal (.whole cs) :: done)
    | .literal (.decimal cs) => list n (.literal (.decimal cs) :: done)
    | .quoted t => list n (.literal (.text t) :: done)
    | .mark '\x7b' =>
      match ← block n with
      | .ok items => list n (.block items :: done)
      | .error e => return .error e
    | _ => return .error .misplaced

end

end JsonReader

/-! ## Flattening -/

/-- The items that an item stands for. -/
def spread : Nat → Item → List Item
  | 0, i => [i]
  | n + 1, (keys, .block items) =>
    if !items.isEmpty && items.all fun i => i.2.isBlock then
      items.flatMap fun (more, v) => spread n (keys ++ more, v)
    else [(keys, .block items)]
  | n + 1, (keys, .list nodes) =>
    if !nodes.isEmpty && nodes.all Node.isBlock then nodes.flatMap fun v => spread n (keys, v)
    else [(keys, .list nodes)]
  | _ + 1, i => [i]

mutual

/-- Spreads items, and the items inside them, down to a depth. -/
def flatten : Nat → List Item → List Item
  | 0, items => items
  | n + 1, items => (items.flatMap (spread (n + 1))).map fun (keys, v) => (keys, flattenNode n v)

/-- Spreads the items inside a node. -/
def flattenNode : Nat → Node → Node
  | 0, v => v
  | n + 1, .block items => .block (flatten n items)
  | n + 1, .list nodes => .list (nodes.map fun v => flattenNode n v)
  | _ + 1, v => v

end

/-- The items of a text in the notation of JSON, which starts with a brace. -/
def jsonItems? (text : List Char) : Option (List Item) := do
  let fuel := 4 * text.length + 8
  let (token, rest) ← jsonToken? text
  if token ≠ .mark '\x7b' then none
  let (result, _) ← (JsonReader.block fuel).run { rest, token }
  match result with
  | .ok items => return flatten fuel items
  | .error _ => none

end PointsTo.Hcl
