import PointsTo.Member
import PointsTo.Signature

/-!
# Statements

A statement is one operation in the body of a method, together with an identity (`StmtId`) that
keeps two statements of the same form apart. While a program is put together an operand may still be
missing, so operands of `Op` are optional; `Instr` is an operation that has all the operands it
needs, and `Stmt.instr?` is the step from one to the other.

The text of a statement names its operands. A missing variable or type is shown as such, but a
missing field, argument or callee class leaves the statement without a text.
-/

namespace PointsTo

/-- The values of a list, if none is missing. -/
def allSome {α : Type} : List (Option α) → Option (List α)
  | [] => some []
  | none :: _ => none
  | some a :: as => (allSome as).map (a :: ·)

/-- How a call finds its target. A kind given by a number that is none of the four is kept as
`other`. -/
inductive CallKind
  | static | special | virtual | interface
  | other (code : Int)
  deriving DecidableEq, Repr

namespace CallKind

/-- The call kind with a given number. -/
def ofCode (n : Int) : CallKind :=
  if n = 0 then static
  else if n = 1 then special
  else if n = 2 then virtual
  else if n = 3 then interface
  else other n

/-- The number of a call kind. -/
def code : CallKind → Int
  | static => 0
  | special => 1
  | virtual => 2
  | interface => 3
  | other n => n

/-- The name of a call kind. -/
def text : CallKind → String
  | static => "static"
  | special => "special"
  | virtual => "virtual"
  | interface => "interface"
  | other n => "CallKind(" ++ toString n ++ ")"

/-- The call kind of a name. -/
def ofText? (s : String) : Option CallKind :=
  [static, special, virtual, interface].find? fun k => k.text = s

/-- The kind recorded on call graph edges: interface calls are virtual calls. -/
def dispatched : CallKind → CallKind
  | interface => virtual
  | k => k

end CallKind

/-- A reference to a method by class, name and types. -/
structure MethodRef where
  cls : Option Ty := none
  name : String := ""
  params : List (Option Ty) := []
  ret : Option Ty := none
  deriving DecidableEq, Repr

namespace MethodRef

/-- The reference that a signature denotes. -/
def ofSignature (s : Signature) : MethodRef :=
  { cls := some (.cls s.cls), name := s.sub.name, params := s.sub.params.map some,
    ret := some s.sub.ret }

/-- The subsignature that is referred to, if no type is missing. -/
def sub? (r : MethodRef) : Option Subsig := do
  let ret ← r.ret
  let params ← allSome r.params
  return ⟨r.name, params, ret⟩

/-- The text of the subsignature, if no type is missing. -/
def subsig? (r : MethodRef) : Option String := r.sub?.map Subsig.text

/-- `<Class: ret name(p1,p2)>`, if no type of the subsignature is missing. -/
def text? (r : MethodRef) : Option String :=
  r.subsig?.map fun s => "<" ++ Ty.shown r.cls ++ ": " ++ s ++ ">"

end MethodRef

/-- A method invocation. -/
structure Call where
  kind : CallKind
  ref : MethodRef
  recv : Option Var := none
  args : List (Option Var) := []
  result : Option Var := none
  /-- When not empty, stands for the text of the call. -/
  label : String := ""
  deriving DecidableEq, Repr

/-- `recv.name(a, b)` or `Class.name(a, b)`, with `result = ` in front where there is a result. -/
def Call.text? (c : Call) : Option String :=
  if c.label ≠ "" then some c.label
  else do
    let target ← match c.recv with
      | some v => some v.name
      | none => c.ref.cls.map Ty.name
    let args ← allSome c.args
    let front := match c.result with
      | some v => v.name ++ " = "
      | none => ""
    return front ++ target ++ "." ++ c.ref.name ++ "(" ++
      String.intercalate ", " (args.map Var.name) ++ ")"

/-- The operations, with operands that may be missing. -/
inductive Op
  | new (lhs : Option Var) (type : Option Ty)
  | assign (lhs rhs : Option Var)
  | cast (lhs rhs : Option Var) (type : Option Ty)
  | load (lhs base : Option Var) (field : Option Field)
  | store (base : Option Var) (field : Option Field) (rhs : Option Var)
  | staticLoad (lhs : Option Var) (field : Option Field)
  | staticStore (field : Option Field) (rhs : Option Var)
  | arrayLoad (lhs base : Option Var)
  | arrayStore (base rhs : Option Var)
  | call (c : Call)
  | ret (value : Option Var)
  deriving DecidableEq, Repr

/-- The text of an operation, if its field, arguments and callee class are there. -/
def Op.text? : Op → Option String
  | new x t => some (Var.shown x ++ " = new " ++ Ty.shown t)
  | assign x y => some (Var.shown x ++ " = " ++ Var.shown y)
  | cast x y t => some (Var.shown x ++ " = (" ++ Ty.shown t ++ ") " ++ Var.shown y)
  | load x b f => f.map fun f => Var.shown x ++ " = " ++ Var.shown b ++ "." ++ f.name
  | store b f y => f.map fun f => Var.shown b ++ "." ++ f.name ++ " = " ++ Var.shown y
  | staticLoad x f => f.map fun f => Var.shown x ++ " = " ++ f.cls ++ "." ++ f.name
  | staticStore f y => f.map fun f => f.cls ++ "." ++ f.name ++ " = " ++ Var.shown y
  | arrayLoad x b => some (Var.shown x ++ " = " ++ Var.shown b ++ "[*]")
  | arrayStore b y => some (Var.shown b ++ "[*] = " ++ Var.shown y)
  | call c => c.text?
  | ret none => some "return"
  | ret (some v) => some ("return " ++ v.name)

/-- What identifies a statement: the method it was added to, and how many were added before it. -/
structure StmtId where
  method : MethodId
  serial : Nat
  deriving DecidableEq, Repr

/-- A statement. -/
structure Stmt where
  id : StmtId
  op : Op
  deriving DecidableEq, Repr

/-- An allocation with its operands in place: the origin of an abstract heap object. -/
structure Site where
  id : StmtId
  lhs : Var
  type : Ty
  deriving DecidableEq, Repr

/-- `x = new T@<parent>`. -/
def Site.text (s : Site) : String :=
  s.lhs.name ++ " = new " ++ s.type.name ++ "@" ++ s.id.method.signature

/-- A call statement whose arguments are in place. -/
structure Invocation where
  stmt : Stmt
  call : Call
  args : List Var
  deriving DecidableEq, Repr

/-- The operations with all the operands they need. -/
inductive Instr
  | new (site : Site)
  | assign (x y : Var)
  | cast (x y : Var) (type : Ty)
  | load (x base : Var) (f : Field)
  | store (base : Var) (f : Field) (y : Var)
  | staticLoad (x : Var) (f : Field)
  | staticStore (f : Field) (y : Var)
  | arrayLoad (x base : Var)
  | arrayStore (base y : Var)
  | call (c : Invocation)
  | ret
  deriving DecidableEq, Repr

namespace Stmt

/-- The method that the statement was added to. -/
def parent (s : Stmt) : MethodId := s.id.method

/-- The text of the statement, if it has one. -/
def text? (s : Stmt) : Option String := s.op.text?

/-- The call that the statement makes, if it is one. -/
def call? (s : Stmt) : Option Call :=
  match s.op with
  | .call c => some c
  | _ => none

/-- The allocation that the statement makes, if it is one with its operands in place. -/
def site? (s : Stmt) : Option Site :=
  match s.op with
  | .new (some x) (some t) => some ⟨s.id, x, t⟩
  | _ => none

/-- The value that the statement returns, if it returns one. -/
def returned? (s : Stmt) : Option Var :=
  match s.op with
  | .ret v => v
  | _ => none

/-- The statement with its operands in place, if none is missing. -/
def instr? (s : Stmt) : Option Instr :=
  match s.op with
  | .new (some x) (some t) => some (.new ⟨s.id, x, t⟩)
  | .assign (some x) (some y) => some (.assign x y)
  | .cast (some x) (some y) (some t) => some (.cast x y t)
  | .load (some x) (some b) (some f) => some (.load x b f)
  | .store (some b) (some f) (some y) => some (.store b f y)
  | .staticLoad (some x) (some f) => some (.staticLoad x f)
  | .staticStore (some f) (some y) => some (.staticStore f y)
  | .arrayLoad (some x) (some b) => some (.arrayLoad x b)
  | .arrayStore (some b) (some y) => some (.arrayStore b y)
  | .call c =>
    (allSome c.args).map fun args => .call ⟨s, c, args⟩
  | .ret _ => some .ret
  | _ => none

end Stmt

end PointsTo
