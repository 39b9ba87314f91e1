import PointsTo.Ty
import PointsTo.Text.Split
import PointsTo.Text.Quoted

/-!
# Method signatures

A subsignature is written `ret name(p1,p2)`, a signature `<Class: ret name(p1,p2)>`. Reading is
lenient about blanks: around the whole text, around the name, around each parameter and around the
parameter list. The class of a signature is taken as it stands.

A reader also reports the types it came upon (`Reading.mentions`), in order and also when the text
turns out to be malformed, because a class table keeps every class that was ever mentioned.
-/

namespace PointsTo

/-- A method name with its parameter and return types. -/
structure Subsig where
  name : String
  params : List Ty
  ret : Ty
  deriving DecidableEq, Repr

/-- `ret name(p1,p2)`. -/
def Subsig.text (s : Subsig) : String :=
  s.ret.name ++ " " ++ s.name ++ "(" ++ String.intercalate "," (s.params.map Ty.name) ++ ")"

/-- A subsignature together with the class that is asked for it. -/
structure Signature where
  cls : String
  sub : Subsig
  deriving DecidableEq, Repr

/-- `<Class: ret name(p1,p2)>`. -/
def Signature.text (s : Signature) : String := "<" ++ s.cls ++ ": " ++ s.sub.text ++ ">"

/-- A text that is not a signature. -/
structure SignatureError where
  text : String
  deriving DecidableEq, Repr

/-- What is said about a text that is not a signature. -/
def SignatureError.message (e : SignatureError) : String :=
  "malformed method signature: " ++ Text.quote e.text

/-- What came of reading a text: the types mentioned on the way, and the value or the error. -/
structure Reading (α : Type) where
  mentions : List Ty
  value : Except SignatureError α

namespace Signature

/-- Reads parameters up to the first blank one, and says whether there was none. -/
def readParams : List (List Char) → List Ty × Bool
  | [] => ([], true)
  | p :: ps =>
    let p := Text.trim p
    if p.isEmpty then ([], false)
    else
      let (types, complete) := readParams ps
      (Ty.ofChars p :: types, complete)

/-- Reads the text between the parentheses. -/
def readParamList (cs : List Char) : List Ty × Bool :=
  let cs := Text.trim cs
  if cs.isEmpty then ([], true) else readParams (Text.pieces ',' cs)

/-- The three parts of a subsignature, if it has them: return type, name, and what stands between
the first opening and the last closing parenthesis. -/
def parts? (cs : List Char) : Option (List Char × List Char × List Char) := do
  let (front, rest) ← Text.cut ['('] cs
  if rest.getLast? ≠ some ')' then none
  let (ret, name) ← Text.cut [' '] (Text.trim front)
  let name := Text.trim name
  if ret.isEmpty || name.isEmpty then none
  return (ret, name, rest.dropLast)

/-- Reads a subsignature. -/
def readSubsig (cs : List Char) : Reading Subsig :=
  let cs := Text.trim cs
  let malformed : Except SignatureError Subsig := .error ⟨String.ofList cs⟩
  match parts? cs with
  | none => ⟨[], malformed⟩
  | some (ret, name, inner) =>
    let (types, complete) := readParamList inner
    if complete then
      let retType := Ty.ofChars ret
      ⟨types ++ [retType], .ok ⟨String.ofList name, types, retType⟩⟩
    else ⟨types, malformed⟩

/-- The class and the subsignature between the angle brackets of a signature, if it has them. -/
def bracketed? (cs : List Char) : Option (List Char × List Char) := do
  if cs.head? ≠ some '<' || cs.getLast? ≠ some '>' then none
  let (cls, sub) ← Text.cut [':', ' '] (cs.drop 1).dropLast
  if cls.isEmpty then none
  return (cls, sub)

/-- Reads a signature. -/
def readSignature (cs : List Char) : Reading Signature :=
  let cs := Text.trim cs
  match bracketed? cs with
  | none => ⟨[], .error ⟨String.ofList cs⟩⟩
  | some (cls, sub) =>
    let r := readSubsig sub
    match r.value with
    | .error e => ⟨r.mentions, .error e⟩
    | .ok s => ⟨r.mentions ++ [.cls (String.ofList cls)], .ok ⟨String.ofList cls, s⟩⟩

end Signature

end PointsTo
