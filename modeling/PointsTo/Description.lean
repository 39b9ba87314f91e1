import PointsTo.Yaml.Document

/-!
# Program descriptions

A description is a YAML document that lists the classes of a program with their fields and methods,
and the signatures of the entry methods. Everything may be left out; what is left out is empty or
false. Keys other than those listed here are not allowed.
-/

namespace PointsTo

/-- A statement of a description. Which parts matter depends on `op`. -/
structure StmtDesc where
  op : String
  lhs : String
  rhs : String
  base : String
  type : String
  cls : String
  field : String
  kind : String
  method : String
  recv : String
  args : List String
  text : String
  deriving DecidableEq, Repr

/-- A method of a description. -/
structure MethodDesc where
  signature : String
  params : List String
  static : Bool
  abstract : Bool
  native : Bool
  /-- The local variables with their types. -/
  locals : List (String × String)
  body : List StmtDesc
  deriving DecidableEq, Repr

/-- A field of a description. -/
structure FieldDesc where
  name : String
  type : String
  static : Bool
  deriving DecidableEq, Repr

/-- A class or interface of a description. -/
structure ClassDesc where
  name : String
  super : String
  interfaces : List String
  interface : Bool
  abstract : Bool
  fields : List FieldDesc
  methods : List MethodDesc
  deriving DecidableEq, Repr

/-- A program description. -/
structure Description where
  entries : List String := []
  classes : List ClassDesc := []
  deriving DecidableEq, Repr

/-! ## Reading a record -/

/-- The fields of a record by name. -/
abbrev Record := List (String × Yaml.Node)

namespace Record

/-- The record that a node stands for, if it has no other fields than the known ones. -/
def ofNode? (known : List String) (n : Yaml.Node) : Option Record := do
  let fields ← n.fields?
  if fields.all fun f => f.1 ∈ known then some fields else none

/-- The node of a field; one that is left out is null. -/
def get (r : Record) (name : String) : Yaml.Node := (r.lookup name).getD .null

/-- A field that is a text. -/
def text? (r : Record) (name : String) : Option String := (r.get name).text?

/-- A field that is a truth value. -/
def bool? (r : Record) (name : String) : Option Bool := (r.get name).bool?

/-- A field that is a list. -/
def list? {α : Type} (r : Record) (name : String) (item? : Yaml.Node → Option α) :
    Option (List α) := do
  (← (r.get name).items?).mapM item?

/-- A field that is a list of texts. -/
def texts? (r : Record) (name : String) : Option (List String) := r.list? name Yaml.Node.text?

/-- A field that maps names to texts. -/
def textMap? (r : Record) (name : String) : Option (List (String × String)) := do
  (← (r.get name).fields?).mapM fun f => f.2.text?.map fun s => (f.1, s)

end Record

/-! ## Reading a description -/

/-- The statement that a node describes. -/
def StmtDesc.ofNode? (n : Yaml.Node) : Option StmtDesc := do
  let r ← Record.ofNode?
    ["op", "lhs", "rhs", "base", "type", "class", "field", "kind", "method", "recv",
      "args", "text"] n
  return {
    op := ← r.text? "op"
    lhs := ← r.text? "lhs"
    rhs := ← r.text? "rhs"
    base := ← r.text? "base"
    type := ← r.text? "type"
    cls := ← r.text? "class"
    field := ← r.text? "field"
    kind := ← r.text? "kind"
    method := ← r.text? "method"
    recv := ← r.text? "recv"
    args := ← r.texts? "args"
    text := ← r.text? "text" }

/-- The method that a node describes. -/
def MethodDesc.ofNode? (n : Yaml.Node) : Option MethodDesc := do
  let r ← Record.ofNode? ["signature", "params", "static", "abstract", "native", "locals", "body"] n
  return {
    signature := ← r.text? "signature"
    params := ← r.texts? "params"
    static := ← r.bool? "static"
    abstract := ← r.bool? "abstract"
    native := ← r.bool? "native"
    locals := ← r.textMap? "locals"
    body := ← r.list? "body" StmtDesc.ofNode? }

/-- The field that a node describes. -/
def FieldDesc.ofNode? (n : Yaml.Node) : Option FieldDesc := do
  let r ← Record.ofNode? ["name", "type", "static"] n
  return {
    name := ← r.text? "name"
    type := ← r.text? "type"
    static := ← r.bool? "static" }

/-- The class that a node describes. -/
def ClassDesc.ofNode? (n : Yaml.Node) : Option ClassDesc := do
  let r ← Record.ofNode?
    ["name", "super", "interfaces", "interface", "abstract", "fields", "methods"] n
  return {
    name := ← r.text? "name"
    super := ← r.text? "super"
    interfaces := ← r.texts? "interfaces"
    interface := ← r.bool? "interface"
    abstract := ← r.bool? "abstract"
    fields := ← r.list? "fields" FieldDesc.ofNode?
    methods := ← r.list? "methods" MethodDesc.ofNode? }

namespace Description

/-- The description that a node stands for. -/
def ofNode? (n : Yaml.Node) : Option Description := do
  let r ← Record.ofNode? ["entries", "classes"] n
  return {
    entries := ← r.texts? "entries"
    classes := ← r.list? "classes" ClassDesc.ofNode? }

/-- Reads a description. A text without a document is the empty description. -/
def read? (text : String) : Option Description :=
  match Yaml.read? text with
  | none => none
  | some none => some {}
  | some (some n) => ofNode? n

end Description

end PointsTo
