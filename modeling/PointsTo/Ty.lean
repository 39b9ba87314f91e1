import PointsTo.Text.Blank

/-!
# Types

A type is null, a primitive, a class (or interface) named by its text, or an array. Two types are
the same exactly when they are built the same way, so a class that happens to be called `int`
differs from the primitive, and a class called `A[]` from the array of `A`.

`Ty.ofName` reads a type name as it is written in programs: blanks around the name and before a pair
of brackets do not count, each trailing `[]` makes an array, `null` and the primitive names denote
those types, and everything else is a class.
-/

namespace PointsTo

/-- The primitive types. -/
inductive Prim
  | boolean | byte | char | short | int | long | float | double | void
  deriving DecidableEq, Repr

namespace Prim

/-- The name of a primitive type. -/
def name : Prim → String
  | boolean => "boolean"
  | byte => "byte"
  | char => "char"
  | short => "short"
  | int => "int"
  | long => "long"
  | float => "float"
  | double => "double"
  | void => "void"

/-- All primitive types. -/
def all : List Prim := [boolean, byte, char, short, int, long, float, double, void]

/-- The primitive type of a name. -/
def ofName? (s : String) : Option Prim := all.find? fun p => p.name = s

end Prim

/-- A type. -/
inductive Ty
  | null
  | prim (p : Prim)
  | cls (name : String)
  | array (elem : Ty)
  deriving DecidableEq, Repr

instance : Inhabited Ty := ⟨.null⟩

/-- The root of the class hierarchy. -/
def objectName : String := "java.lang.Object"

/-- The first of the two interfaces that every array has. -/
def cloneableName : String := "java.lang.Cloneable"

/-- The second of the two interfaces that every array has. -/
def serializableName : String := "java.io.Serializable"

namespace Ty

/-- The name of a type. -/
def name : Ty → String
  | null => "null"
  | prim p => p.name
  | cls n => n
  | array e => e.name ++ "[]"

/-- Whether values of the type are references to heap objects. -/
def isReference : Ty → Bool
  | prim _ => false
  | _ => true

/-- The element type of an array. -/
def elem? : Ty → Option Ty
  | array e => some e
  | _ => none

/-- The class at the bottom of a type, under any number of array layers. -/
def className? : Ty → Option String
  | cls n => some n
  | array e => e.className?
  | _ => none

/-- The type of a name without brackets and without blanks around it. -/
def ofPlainName (s : String) : Ty :=
  if s = "null" then null
  else
    match Prim.ofName? s with
    | some p => prim p
    | none => cls s

/-- Reads a type name from its last character to its first. -/
def ofReversed : List Char → Ty
  | ']' :: '[' :: rest => array (ofReversed rest)
  | c :: rest =>
    if Text.isBlank c then ofReversed rest
    else ofPlainName (String.ofList (Text.trimLeft (c :: rest).reverse))
  | [] => ofPlainName ""

/-- Reads a type name. -/
def ofChars (cs : List Char) : Ty := ofReversed cs.reverse

/-- Reads a type name. -/
def ofName (s : String) : Ty := ofChars s.toList

/-- A type that may be absent, as it stands in messages. -/
def shown : Option Ty → String
  | none => "<nil>"
  | some t => t.name

/-- Whether values of a type may point to heap objects; a type that is not known may. -/
def pointerLike : Option Ty → Bool
  | none => true
  | some t => t.isReference

end Ty

/-- The kinds of types. Whether a class name stands for a class or an interface is for the class
table to say. -/
inductive Kind
  | cls | interface | array | primitive | null
  deriving DecidableEq, Repr

namespace Kind

/-- The name of a kind. -/
def text : Kind → String
  | cls => "class"
  | interface => "interface"
  | array => "array"
  | primitive => "primitive"
  | null => "null"

/-- The kind with a given number. -/
def ofCode? (n : Int) : Option Kind :=
  if n = 0 then some cls
  else if n = 1 then some interface
  else if n = 2 then some array
  else if n = 3 then some primitive
  else if n = 4 then some null
  else none

/-- The text of a kind number, also of one that no kind has. -/
def textOfCode (n : Int) : String :=
  match ofCode? n with
  | some k => k.text
  | none => "Kind(" ++ toString n ++ ")"

end Kind

end PointsTo
