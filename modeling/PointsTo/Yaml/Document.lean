import PointsTo.Yaml.Node
import PointsTo.Yaml.Token

/-!
# YAML documents from text

`read?` reads the first document of a text: block and flow collections, plain and quoted scalars.
The answer is `none` for a text that is ill-formed as far as it is read, and `some none` for a text
without a document.

The functions that read collections take a step count, which the length of the text bounds.
-/

namespace PointsTo.Yaml

/-- A reader of tokens. -/
abbrev TokenReader := StateT Lexer Option

namespace TokenReader

/-- The token in front. -/
def peek : TokenReader Token := Lexer.peek

/-- Drops the token in front. -/
def pop : TokenReader Unit := modify Lexer.pop

mutual

/-- Reads a node. Block collections are allowed where `block` says so. Where `entries` says so, a
block sequence may follow whose items are not indented. -/
def node (block entries : Bool) : Nat → TokenReader Node
  | 0 => failure
  | n + 1 => do
    match ← peek with
    | .scalar plain s => pop; return .scalar plain s
    | .flowSequence => pop; flowItems n true []
    | .flowMapping => pop; flowPairs n true []
    | .entry => if entries then flushItems n [] else failure
    | .blockSequence => if block then do pop; blockItems n [] else failure
    | .blockMapping => if block then do pop; blockPairs n [] else failure
    | _ => failure

/-- Reads the items of a block sequence. -/
def blockItems : Nat → (done : List Node) → TokenReader Node
  | 0, _ => failure
  | n + 1, done => do
    match ← peek with
    | .entry =>
      pop
      let item ← match ← peek with
        | .entry | .blockEnd => pure .null
        | _ => node true false n
      blockItems n (item :: done)
    | .blockEnd => pop; return .seq done.reverse
    | _ => failure

/-- Reads the items of a block sequence that is not indented further than the mapping around it. -/
def flushItems : Nat → (done : List Node) → TokenReader Node
  | 0, _ => failure
  | n + 1, done => do
    match ← peek with
    | .entry =>
      pop
      let item ← match ← peek with
        | .entry | .key | .value | .blockEnd => pure .null
        | _ => node true false n
      flushItems n (item :: done)
    | _ => return .seq done.reverse

/-- Reads the pairs of a block mapping. -/
def blockPairs : Nat → (done : List (Node × Node)) → TokenReader Node
  | 0, _ => failure
  | n + 1, done => do
    match ← peek with
    | .key =>
      pop
      let key ← match ← peek with
        | .key | .value | .blockEnd => pure .null
        | _ => node true true n
      let value ← match ← peek with
        | .value =>
          pop
          match ← peek with
          | .key | .value | .blockEnd => pure .null
          | _ => node true true n
        | _ => pure .null
      blockPairs n ((key, value) :: done)
    | .blockEnd => pop; return .map done.reverse
    | _ => failure

/-- Reads the value of a pair in a flow collection; it may be missing. -/
def flowValue : Nat → TokenReader Node
  | 0 => failure
  | n + 1 => do
    match ← peek with
    | .value =>
      pop
      match ← peek with
      | .comma | .flowSequenceEnd | .flowMappingEnd => return .null
      | _ => node false false n
    | _ => return .null

/-- Reads the items of a flow sequence. A key makes its item a mapping of one pair; if it is empty,
the token behind it is dropped with it. -/
def flowItems : Nat → (first : Bool) → (done : List Node) → TokenReader Node
  | 0, _, _ => failure
  | n + 1, first, done => do
    match first, ← peek with
    | _, .flowSequenceEnd => pop; return .seq done.reverse
    | true, _ => pure ()
    | false, .comma => pop
    | false, _ => failure
    match ← peek with
    | .flowSequenceEnd => pop; return .seq done.reverse
    | .key =>
      pop
      let key ← match ← peek with
        | .value | .comma | .flowSequenceEnd => do pop; pure .null
        | _ => node false false n
      let value ← flowValue n
      flowItems n false (.map [(key, value)] :: done)
    | _ =>
      let item ← node false false n
      flowItems n false (item :: done)

/-- Reads the pairs of a flow mapping. -/
def flowPairs : Nat → (first : Bool) → (done : List (Node × Node)) → TokenReader Node
  | 0, _, _ => failure
  | n + 1, first, done => do
    match first, ← peek with
    | _, .flowMappingEnd => pop; return .map done.reverse
    | true, _ => pure ()
    | false, .comma => pop
    | false, _ => failure
    match ← peek with
    | .flowMappingEnd => pop; return .map done.reverse
    | .key =>
      pop
      let key ← match ← peek with
        | .value | .comma | .flowMappingEnd => pure .null
        | _ => node false false n
      let value ← flowValue n
      flowPairs n false ((key, value) :: done)
    | _ =>
      let key ← node false false n
      flowPairs n false ((key, .null) :: done)

end

/-- Reads the directives in front of a document. There is at most one version, which must be 1.1,
and at most one meaning for each shorthand; `handles` are those met so far. -/
def directives : Nat → (versioned : Bool) → (handles : List String) → TokenReader Unit
  | 0, _, _ => failure
  | n + 1, versioned, handles => do
    match ← peek with
    | .version major minor =>
      if versioned || major ≠ 1 || minor ≠ 1 then failure
      pop
      directives n true handles
    | .tagShorthand handle =>
      if handle ∈ handles then failure
      pop
      directives n versioned (handle :: handles)
    | _ => return

/-- Reads the first document. Directives need a marker behind them. The token behind the document
must be readable too. -/
def document (n : Nat) : TokenReader (Option Node) := do
  match ← peek with
  | .streamEnd => return none
  | .version .. | .tagShorthand _ | .documentStart =>
    directives n false []
    if (← peek) ≠ .documentStart then failure
    pop
    let root ← match ← peek with
      | .version .. | .tagShorthand _ | .documentStart | .documentEnd | .streamEnd => pure .null
      | _ => node true false n
    let _ ← peek
    return some root
  | _ =>
    let root ← node true false n
    let _ ← peek
    return some root

end TokenReader

/-! ## Texts -/

/-- The first document of a text: `none` if the text is ill-formed, `some none` if there is no
document. -/
def read? (text : String) : Option (Option Node) := do
  let cursor ← Cursor.start? text
  let (root, _) ← (TokenReader.document (8 * cursor.bound + 16)).run { cursor }
  return root

end PointsTo.Yaml
