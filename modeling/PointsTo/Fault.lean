import PointsTo.Stmt

/-!
# Faults

A fault is a use of the library that has no answer: an operand that must be there is absent, a name
is none of those that are allowed, a queue has nothing to give, a walk has no end. It ends the
operation at hand at once. What was changed before it stays changed.
-/

namespace PointsTo

/-- The causes of faults. -/
inductive Fault
  /-- Something that must be there is absent. -/
  | absent
  | emptyQueue
  | notPrimitive (name : String)
  /-- A type of this kind has no members of this sort. -/
  | cannotDeclare (sort name : String) (kind : Kind) (type : Ty)
  | redeclared (method : MethodId) (var : String) (now was : Option Ty)
  | noReceiver (kind : CallKind) (call : String)
  | unknownCallKind (kind : CallKind)
  | argumentCount (caller : MethodId) (call : String) (given : Nat) (callee : MethodId)
  /-- A number below that of every edge kind. -/
  | edgeKindCode (code : Int)
  /-- The superclasses of a class go round in a circle, and none of them settles what is looked
  for. -/
  | endlessChain (cls : String)
  /-- There is still work after more steps than are enough for every program. -/
  | endlessRun
  deriving DecidableEq, Repr

namespace Fault

/-- What is said about a fault. -/
def message : Fault → String
  | absent => "runtime error: invalid memory address or nil pointer dereference"
  | emptyQueue => "Queue is empty"
  | notPrimitive name => Text.quote name ++ " is not a primitive type"
  | cannotDeclare sort name kind type =>
    "cannot declare " ++ sort ++ " " ++ name ++ " on " ++ kind.text ++ " type " ++ type.name
  | redeclared method var now was =>
    method.signature ++ ": variable " ++ var ++ " redeclared with type " ++ Ty.shown now ++
      " (was " ++ Ty.shown was ++ ")"
  | noReceiver kind call => kind.text ++ " call " ++ call ++ " resolved without a receiver"
  | unknownCallKind kind => "unhandled call kind " ++ kind.text
  | argumentCount caller call given callee =>
    caller.signature ++ ": call " ++ call ++ " passes " ++ toString given ++ " arguments to " ++
      callee.signature
  | edgeKindCode code => "runtime error: index out of range [" ++ toString code ++ "]"
  | endlessChain cls => "the superclasses of " ++ cls ++ " have no end"
  | endlessRun => "the work has no end"

/-- What stands in a message in place of a text that could not be made. -/
def placeholder (verb : String) (f : Fault) : String :=
  "%!" ++ verb ++ "(PANIC=String method: " ++ f.message ++ ")"

/-- A text that may be absent, as it stands in messages. -/
def shown : Option String → String
  | some s => s
  | none => placeholder "v" absent

/-- A text that may be absent, in quotes as it stands in messages. -/
def quoted : Option String → String
  | some s => Text.quote s
  | none => placeholder "q" absent

/-- The value of an option, or the fault that it is absent. -/
def orAbsent {α : Type} : Option α → Except Fault α
  | some a => .ok a
  | none => .error absent

end Fault

end PointsTo
