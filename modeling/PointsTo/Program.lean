import PointsTo.Hierarchy
import PointsTo.Text.Sorted

/-!
# Programs

A program is a class hierarchy with bodies, and the entry methods from which it runs. An entry that
names no method is `none`; a program fit for analysis has no such entry.
-/

namespace PointsTo

/-- A program. -/
structure Program where
  hierarchy : Hierarchy := .initial
  entries : List (Option MethodId) := []

/-- A signature that could not be turned into a method. -/
inductive MethodLookupError
  | malformed (e : SignatureError)
  | unknown (signature : String)
  deriving DecidableEq, Repr

/-- What is said about a signature that could not be turned into a method. -/
def MethodLookupError.message : MethodLookupError → String
  | malformed e => e.message
  | unknown s => "unknown method: " ++ s

namespace Program

/-- The class table of the program. -/
def table (p : Program) : ClassTable := p.hierarchy.table

/-- Changes the class table. -/
def withTable (p : Program) (t : ClassTable) : Program :=
  { p with hierarchy := { p.hierarchy with table := t } }

/-- Notes that types were mentioned. -/
def mentionTypes (p : Program) (types : List Ty) : Program :=
  p.withTable (p.table.mentionTypes types)

/-- All methods, in the order of their signatures. -/
def methods (p : Program) : List Method := Text.sortBy Method.signature p.table.methods

/-- The method with a given identity. -/
def method? (p : Program) (m : MethodId) : Option Method := p.table.method? m

/-- The method whose signature is a given text, without reading the text. -/
def methodWithSignature? (p : Program) (s : String) : Option Method :=
  p.methods.find? fun m => m.signature = s

/-- Looks up a method by a signature. Every type that the signature mentions is noted. -/
def lookup (p : Program) (signature : String) : Except MethodLookupError MethodId × Program :=
  let r := Signature.readSignature signature.toList
  let p := p.mentionTypes r.mentions
  match r.value with
  | .error e => (.error (.malformed e), p)
  | .ok s =>
    let m : MethodId := ⟨s.cls, s.sub.text⟩
    match p.method? m with
    | some _ => (.ok m, p)
    | none => (.error (.unknown signature), p)

end Program

end PointsTo
