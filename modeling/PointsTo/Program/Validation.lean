import PointsTo.Program

/-!
# Programs fit for analysis

The analysis relies on a program being in order: it has entries with bodies, only methods that may
have a body have statements, and every statement stands in its own method, uses variables of that
method and has the operands, fields and receivers that its operation needs. `violations` lists
everything that is wrong, entries first and then statement by statement in the order of the
signatures; of one statement only the first defect counts.
-/

namespace PointsTo

/-- What is wrong with a statement. -/
inductive Defect
  | otherMethod
  | missingVariable
  | undeclared (name : String)
  | allocationWithoutType
  | cannotAllocate (kind : Kind) (type : Ty)
  | abstractClass (type : Ty)
  | castWithoutType
  | missingField
  | staticAsInstance (f : Field)
  | instanceAsStatic (f : Field)
  | incompleteReference
  | arguments (given : Nat) (ref : MethodRef)
  | staticWithReceiver
  | withoutReceiver (kind : CallKind)
  deriving DecidableEq, Repr

/-- What is said about a defect. -/
def Defect.message : Defect → String
  | otherMethod => "statement belongs to another method"
  | missingVariable => "missing variable"
  | undeclared name => "variable " ++ name ++ " is not declared in this method"
  | allocationWithoutType => "allocation without a type"
  | cannotAllocate kind type => "cannot allocate " ++ kind.text ++ " type " ++ type.name
  | abstractClass type => "cannot allocate abstract class " ++ type.name
  | castWithoutType => "cast without a type"
  | missingField => "missing field"
  | staticAsInstance f => "static field " ++ f.signature ++ " accessed as instance field"
  | instanceAsStatic f => "instance field " ++ f.signature ++ " accessed as static field"
  | incompleteReference => "incomplete method reference"
  | arguments given ref =>
    "call passes " ++ toString given ++ " arguments to " ++ Fault.shown ref.text? ++
      " which takes " ++
      toString ref.params.length
  | staticWithReceiver => "static call with a receiver"
  | withoutReceiver kind => kind.text ++ " call without a receiver"

/-- What is wrong with a program. -/
inductive Violation
  | noEntry
  | absentEntry
  | entryWithoutBody (m : MethodId)
  | statementsWithoutBody (m : MethodId)
  | statement (m : MethodId) (s : Stmt) (d : Defect)
  deriving DecidableEq, Repr

/-- What is said about a violation. -/
def Violation.message (v : Violation) : String :=
  "malformed IR: " ++
    match v with
    | noEntry => "no entry method"
    | absentEntry => "nil entry method"
    | entryWithoutBody m => "entry method " ++ m.signature ++ " has no body"
    | statementsWithoutBody m => m.signature ++ ": abstract or native method has statements"
    | statement m s d => m.signature ++ ": " ++ Fault.quoted s.text? ++ ": " ++ d.message

namespace Method

/-- Checks that variables are there and declared in the method, up to the first that is not. -/
def checkVars (m : Method) : List (Option Var) → Except Defect Unit
  | [] => .ok ()
  | none :: _ => .error .missingVariable
  | some v :: vs =>
    if v.owner = m.id ∧ m.var? v.name = some v then m.checkVars vs else .error (.undeclared v.name)

/-- Checks that a field is there and is static or not, as asked. -/
def checkField (static : Bool) : Option Field → Except Defect Unit
  | none => .error .missingField
  | some f =>
    if f.static && !static then .error (.staticAsInstance f)
    else if !f.static && static then .error (.instanceAsStatic f)
    else .ok ()

/-- Checks that objects of a type can be allocated. -/
def checkAllocation (t : ClassTable) : Option Ty → Except Defect Unit
  | none => .error .allocationWithoutType
  | some type =>
    match t.kind type with
    | .array => .ok ()
    | .cls =>
      match type with
      | .cls c => if (t.info c).abstract then .error (.abstractClass type) else .ok ()
      | _ => .ok ()
    | k => .error (.cannotAllocate k type)

/-- Checks a call: its reference, its arguments, its receiver, then its variables. -/
def checkCall (m : Method) (c : Call) : Except Defect Unit := do
  if c.ref.cls.isNone || c.ref.ret.isNone || c.ref.name = "" then throw .incompleteReference
  if c.args.length ≠ c.ref.params.length then throw (.arguments c.args.length c.ref)
  if c.kind = .static && c.recv.isSome then throw .staticWithReceiver
  if c.kind ≠ .static && c.recv.isNone then throw (.withoutReceiver c.kind)
  m.checkVars (c.recv.toList.map some ++ c.result.toList.map some ++ c.args)

/-- Checks a statement of the body. -/
def checkStmt (t : ClassTable) (m : Method) (s : Stmt) : Except Defect Unit := do
  if s.parent ≠ m.id then throw .otherMethod
  match s.op with
  | .new x type => do checkAllocation t type; m.checkVars [x]
  | .assign x y => m.checkVars [x, y]
  | .cast x y type => do
    if type.isNone then throw .castWithoutType
    m.checkVars [x, y]
  | .load x b f => do checkField false f; m.checkVars [x, b]
  | .store b f y => do checkField false f; m.checkVars [b, y]
  | .staticLoad x f => do checkField true f; m.checkVars [x]
  | .staticStore f y => do checkField true f; m.checkVars [y]
  | .arrayLoad x b => m.checkVars [x, b]
  | .arrayStore b y => m.checkVars [b, y]
  | .call c => m.checkCall c
  | .ret v => m.checkVars (v.toList.map some)

/-- What is wrong with a method. -/
def violations (t : ClassTable) (m : Method) : List Violation :=
  (if !m.hasBody && !m.body.isEmpty then [.statementsWithoutBody m.id] else []) ++
    m.body.filterMap fun s =>
      match m.checkStmt t s with
      | .error d => some (.statement m.id s d)
      | .ok () => none

end Method

namespace Program

/-- What is wrong with an entry. -/
def entryViolation? (p : Program) : Option MethodId → Option Violation
  | none => some .absentEntry
  | some m =>
    if (p.method? m).any Method.hasBody then none else some (.entryWithoutBody m)

/-- Everything that is wrong with the program. -/
def violations (p : Program) : List Violation :=
  (if p.entries.isEmpty then [.noEntry] else []) ++ p.entries.filterMap p.entryViolation? ++
    p.methods.flatMap (Method.violations p.table)

end Program

end PointsTo
