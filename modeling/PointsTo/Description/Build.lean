import PointsTo.Description
import PointsTo.Program
import PointsTo.ClassTable.Reach

/-!
# From a description to a program

All classes are declared first, then their fields and methods, then bodies, then entries, so that a
body may refer to members of any class. The first thing that is wrong ends the construction;
`BuildError` says what it is and where.
-/

namespace PointsTo

/-- What is wrong with a statement of a description. -/
inductive StmtError
  | missingVariable
  | undeclared (name : String)
  | missingType
  | noField (field : String) (type : Option Ty)
  | unknownCallKind (kind : String)
  | signature (e : SignatureError)
  | unknownOp (op : String)
  deriving DecidableEq, Repr

/-- What is said about a call kind that is none. -/
def CallKind.unknownMessage (kind : String) : String := "unknown call kind " ++ Text.quote kind

/-- What is said about a statement. -/
def StmtError.message : StmtError → String
  | missingVariable => "missing variable"
  | undeclared name => "undeclared variable " ++ name
  | missingType => "missing type"
  | noField field type => "no field " ++ Text.quote field ++ " in " ++ Ty.shown type
  | unknownCallKind kind => CallKind.unknownMessage kind
  | signature e => e.message
  | unknownOp op => "unknown op " ++ Text.quote op

/-- What is wrong with a description. -/
inductive BuildError
  /-- The text is no YAML document of the right form. -/
  | document
  | namelessClass
  | incompleteField (cls : String)
  | signature (cls : String) (e : SignatureError)
  | tooManyNames (cls signature : String) (names params : Nat)
  | shadowedParameter (method : MethodId) (name : String)
  | statement (method : MethodId) (index : Nat) (op : String) (cause : StmtError)
  | entry (e : MethodLookupError)
  /-- A method could not be declared. -/
  | fault (f : Fault)
  deriving DecidableEq, Repr

/-- What is said about a description. -/
def BuildError.message (e : BuildError) : String :=
  let invalid (s : String) : String := "invalid program description: " ++ s
  match e with
  | document => invalid "yaml"
  | namelessClass => invalid "class without a name"
  | incompleteField cls => invalid (cls ++ ": field needs a name and a type")
  | signature cls e => invalid (cls ++ ": " ++ e.message)
  | tooManyNames cls s names params =>
    invalid (cls ++ ": " ++ s ++ " names " ++ toString names ++ " parameters but takes " ++
      toString params)
  | shadowedParameter m name =>
    invalid (m.signature ++ ": local " ++ name ++ " shadows a parameter")
  | statement m i op cause =>
    invalid (m.signature ++ ": statement " ++ toString i ++ " (" ++ op ++ "): " ++ cause.message)
  | entry e => invalid ("entry: " ++ e.message)
  | fault f => f.message

/-! ## Statements -/

namespace StmtDesc

/-- The variable that a description names. -/
def var (m : Method) (name : String) : Except StmtError Var :=
  if name = "" then .error .missingVariable
  else
    match m.var? name with
    | some v => .ok v
    | none => .error (.undeclared name)

/-- The type that a statement names. -/
def ty (d : StmtDesc) : Except StmtError Ty :=
  if d.type = "" then .error .missingType else .ok (Ty.ofName d.type)

/-- The field that a statement accesses, looked for in the class that the statement names, else in
the type of the base, else in the class of the method. -/
def fieldOf (t : ClassTable) (m : Method) (d : StmtDesc) (base : Option Var) :
    Except StmtError Field :=
  let type : Option Ty :=
    if d.cls ≠ "" then some (.cls d.cls)
    else
      match base with
      | some v => v.type
      | none => some (.cls m.cls)
  match type.bind fun type => t.fieldByName type d.field with
  | some f => .ok f
  | none => .error (.noField d.field type)

/-- A variable that may be left out. -/
def optionalVar (m : Method) (name : String) : Except StmtError (Option Var) :=
  if name = "" then .ok none else (var m name).map some

/-- The call that a description of a call means, and the types that its signature mentions. -/
def call (m : Method) (d : StmtDesc) : Except StmtError (Call × List Ty) := do
  let kindName := if d.kind = "" then CallKind.virtual.text else d.kind
  let kind ← match CallKind.ofText? kindName with
    | some k => .ok k
    | none => .error (.unknownCallKind kindName)
  let reading := Signature.readSignature d.method.toList
  let target ← match reading.value with
    | .ok s => .ok s
    | .error e => .error (.signature e)
  let recv ← optionalVar m d.recv
  let args ← d.args.mapM (var m)
  let result ← optionalVar m d.lhs
  return (⟨kind, .ofSignature target, recv, args.map some, result, d.text⟩, reading.mentions)

/-- The operation that a description means in a method, and the types that it mentions. -/
def operation (t : ClassTable) (m : Method) (d : StmtDesc) : Except StmtError (Op × List Ty) := do
  let classes : List Ty := if d.cls ≠ "" then [.cls d.cls] else []
  match d.op with
  | "new" =>
    let x ← var m d.lhs
    let type ← d.ty
    return (.new (some x) (some type), [type])
  | "assign" =>
    let x ← var m d.lhs
    let y ← var m d.rhs
    return (.assign (some x) (some y), [])
  | "cast" =>
    let x ← var m d.lhs
    let y ← var m d.rhs
    let type ← d.ty
    return (.cast (some x) (some y) (some type), [type])
  | "load" =>
    if d.base = "" then
      let x ← var m d.lhs
      let f ← d.fieldOf t m none
      return (.staticLoad (some x) (some f), classes)
    else
      let b ← var m d.base
      let x ← var m d.lhs
      let f ← d.fieldOf t m (some b)
      return (.load (some x) (some b) (some f), classes)
  | "store" =>
    if d.base = "" then
      let f ← d.fieldOf t m none
      let y ← var m d.rhs
      return (.staticStore (some f) (some y), classes)
    else
      let b ← var m d.base
      let f ← d.fieldOf t m (some b)
      let y ← var m d.rhs
      return (.store (some b) (some f) (some y), classes)
  | "aload" =>
    let x ← var m d.lhs
    let b ← var m d.base
    return (.arrayLoad (some x) (some b), [])
  | "astore" =>
    let b ← var m d.base
    let y ← var m d.rhs
    return (.arrayStore (some b) (some y), [])
  | "invoke" =>
    let (c, types) ← d.call m
    return (.call c, types)
  | "return" =>
    let y ← optionalVar m d.rhs
    return (.ret y, [])
  | op => .error (.unknownOp op)

end StmtDesc

/-! ## Classes, members, bodies and entries -/

namespace Description

/-- Declares the classes. -/
def declareClasses : List ClassDesc → ClassTable → Except BuildError ClassTable
  | [], t => .ok t
  | c :: cs, t =>
    if c.name = "" then .error .namelessClass
    else
      declareClasses cs
        (t.declare c.name ⟨c.super, c.interfaces, c.interface, c.abstract⟩)

/-- Declares the fields of a class. -/
def declareFields (cls : String) : List FieldDesc → ClassTable → Except BuildError ClassTable
  | [], t => .ok t
  | f :: fs, t =>
    if f.name = "" || f.type = "" then .error (.incompleteField cls)
    else
      let type := Ty.ofName f.type
      match (t.mentionTypes [type]).addField (.cls cls) f.name (some type) f.static with
      | .error e => .error (.fault e)
      | .ok (_, t) => declareFields cls fs t

/-- Declares a method of a class. In an interface a method without statements is abstract unless it
is static. -/
def declareMethod (c : ClassDesc) (d : MethodDesc) (t : ClassTable) :
    Except BuildError (MethodId × ClassTable) :=
  let reading := Signature.readSubsig d.signature.toList
  match reading.value with
  | .error e => .error (.signature c.name e)
  | .ok sub =>
    if sub.params.length < d.params.length then
      .error (.tooManyNames c.name d.signature d.params.length sub.params.length)
    else
      let abstract := d.abstract || (c.interface && d.body.isEmpty && !d.static)
      let decl : MethodDecl := ⟨sub, d.params, d.static, abstract, d.native⟩
      match (t.mentionTypes reading.mentions).addMethod (.cls c.name) decl with
      | .error e => .error (.fault e)
      | .ok (m, t) => .ok (m.id, t)

/-- Declares methods of a class, and answers which description belongs to which method. -/
def declareMethods (c : ClassDesc) :
    List MethodDesc → ClassTable → Except BuildError (List (MethodId × MethodDesc) × ClassTable)
  | [], t => .ok ([], t)
  | d :: ds, t => do
    let (m, t) ← declareMethod c d t
    let (bodies, t) ← declareMethods c ds t
    return ((m, d) :: bodies, t)

/-- Declares the members of the classes. -/
def declareMembers :
    List ClassDesc → ClassTable → Except BuildError (List (MethodId × MethodDesc) × ClassTable)
  | [], t => .ok ([], t)
  | c :: cs, t => do
    let t ← declareFields c.name c.fields t
    let (bodies, t) ← declareMethods c c.methods t
    let (more, t) ← declareMembers cs t
    return (bodies ++ more, t)

/-- Declares the local variables of a method. -/
def addLocals : List (String × String) → Method → ClassTable →
    Except BuildError (Method × ClassTable)
  | [], m, t => .ok (m, t)
  | (name, typeName) :: rest, m, t =>
    if (m.var? name).isSome then .error (.shadowedParameter m.id name)
    else
      let type := Ty.ofName typeName
      match m.newVar name (some type) with
      | .error e => .error (.fault e)
      | .ok (_, m) => addLocals rest m (t.mentionTypes [type])

/-- Adds statements to a method, the first of which has position `i` in its description. -/
def addStmts : Nat → List StmtDesc → Method → ClassTable → Except BuildError (Method × ClassTable)
  | _, [], m, t => .ok (m, t)
  | i, d :: ds, m, t =>
    match d.operation t m with
    | .error e => .error (.statement m.id i d.op e)
    | .ok (op, types) => addStmts (i + 1) ds (m.add op) (t.mentionTypes types)

/-- Fills in the bodies. -/
def addBodies : List (MethodId × MethodDesc) → ClassTable → Except BuildError ClassTable
  | [], t => .ok t
  | (id, d) :: rest, t =>
    match t.method? id with
    | none => addBodies rest t
    | some m => do
      let (m, t) ← addLocals d.locals m t
      let (m, t) ← addStmts 0 d.body m t
      addBodies rest (t.setMethod m)

/-- Sets the entry methods. -/
def addEntries : List String → Program → Except BuildError Program
  | [], p => .ok p
  | s :: rest, p =>
    match p.lookup s with
    | (.error e, _) => .error (.entry e)
    | (.ok m, p) => addEntries rest { p with entries := p.entries ++ [some m] }

/-- The program that a description describes. -/
def build (d : Description) : Except BuildError Program := do
  let t ← declareClasses d.classes .initial
  let (bodies, t) ← declareMembers d.classes t
  let t ← addBodies bodies t
  addEntries d.entries { hierarchy := { table := t } }

end Description

/-- Reads a program from the text of its description. -/
def Program.read (text : String) : Except BuildError Program :=
  match Description.read? text with
  | none => .error .document
  | some d => d.build

end PointsTo
