import PointsTo.Analysis
import PointsTo.Files
import PointsTo.Text.Split

/-!
# Golden files

A golden file says which methods the calls of a program are expected to run. A line that starts with
`<` is the signature of a method and opens a section; any other line that is not blank is of the
form `call -> [callee, callee]`. Blank lines are skipped. Later lines win over earlier ones, and
sections of the same method are one.

`parse` reads such a text, `Checker` collects where a call graph differs from it, and `dump` writes
the text for a call graph.
-/

namespace PointsTo

/-- The methods that call sites run, as far as a call graph knows. -/
abbrev CalleeView := Stmt → List (Option MethodId)

/-- The callees of the call graph of a result. -/
def Result.callees (r : Result) : CalleeView := fun s => (r.calls.callees s).map some

namespace Golden

/-- One line of a section. -/
structure Expectation where
  method : String
  unit : String
  callees : String
  deriving DecidableEq, Repr

/-- Why a text is no golden file. -/
inductive Error
  | missingArrow (line : Nat) (text : String)
  | outsideSection (line : Nat)
  | lineTooLong
  deriving DecidableEq, Repr

/-- What is said about a text that is no golden file. -/
def Error.message : Error → String
  | missingArrow n text =>
    "malformed expected result file: line " ++ toString n ++ ": missing \" -> \": " ++
      Text.quote text
  | outsideSection n =>
    "malformed expected result file: line " ++ toString n ++
      ": call unit outside of a method section"
  | lineTooLong => "unreadable expected result file: bufio.Scanner: token too long"

/-- The largest number of bytes in a line. -/
def maxLine : Nat := 65535

/-- Reads lines, the first of which has number `n`, in a section that may not have begun. -/
def parseLines : Nat → Option String → List (List Char) → Except Error (List Expectation)
  | _, _, [] => .ok []
  | n, section?, raw :: rest =>
    if maxLine < (String.ofList raw).utf8ByteSize then .error .lineTooLong
    else
      let line := Text.dropReturn raw
      if line.head? = some '<' then parseLines (n + 1) (some (String.ofList (Text.trim line))) rest
      else if (Text.trim line).isEmpty then parseLines (n + 1) section? rest
      else
        match Text.cut [' ', '-', '>', ' '] line with
        | none => .error (.missingArrow n (String.ofList line))
        | some (unit, callees) =>
          match section? with
          | none => .error (.outsideSection n)
          | some method => do
            let more ← parseLines (n + 1) (some method) rest
            return ⟨method, String.ofList unit, String.ofList callees⟩ :: more

/-- Reads a golden file. -/
def parse (text : String) : Except Error (List Expectation) :=
  parseLines 1 none (Text.rawLines text.toList)

/-- What is expected of a call of a method; the last line counts. -/
def expected? (es : List Expectation) (method unit : String) : Option String :=
  (es.reverse.find? fun e => e.method = method ∧ e.unit = unit).map Expectation.callees

/-- The signatures of methods, all of which must be there. -/
def signatures (ms : List (Option MethodId)) : Except Fault (List String) :=
  Fault.orAbsent ((allSome ms).map fun ms => ms.map MethodId.signature)

/-- `[callee, callee]` in the order of the signatures. -/
def formatCallees (ms : List (Option MethodId)) : Except Fault String := do
  let sigs ← signatures ms
  return "[" ++ ", ".intercalate (Text.sortTexts sigs) ++ "]"

/-! ## Comparing -/

/-- A golden file, and the differences found so far. -/
structure Checker where
  expectations : List Expectation := []
  found : List String := []

namespace Checker

/-- The differences found so far, in order and each once. -/
def mismatches (c : Checker) : List String := (Text.sortTexts c.found).eraseDups

/-- How a difference is written. -/
def mismatchText (unit expected given : String) : String :=
  "Callees of " ++ unit ++ ", expected: " ++ expected ++ ", given: " ++ given

/-- The difference at a call, if there is one. A call without callees of which nothing is expected
makes none. -/
def mismatch? (es : List Expectation) (method unit given : String) (hasCallees : Bool) :
    Option String :=
  match expected? es method unit with
  | some e => if e = given then none else some (mismatchText unit e given)
  | none => if hasCallees then some (mismatchText unit "[]" given) else none

/-- Compares calls of a method one after the other. A call without a text or with an absent callee
ends the comparison. -/
def compareCalls (view : CalleeView) (method : String) :
    List Stmt → Checker → Option Fault × Checker
  | [], c => (none, c)
  | s :: rest, c =>
    match s.text?, formatCallees (view s) with
    | some unit, .ok given =>
      let found := (mismatch? c.expectations method unit given !(view s).isEmpty).toList
      compareCalls view method rest { c with found := c.found ++ found }
    | _, _ => (some .absent, c)

/-- Compares the calls of a method. -/
def compare (view : CalleeView) (m : Method) (c : Checker) : Option Fault × Checker :=
  compareCalls view m.signature m.calls c

/-- Compares the calls of methods one after the other. -/
def compareAll (view : CalleeView) : List Method → Checker → Option Fault × Checker
  | [], c => (none, c)
  | m :: ms, c =>
    match c.compare view m with
    | (none, c) => compareAll view ms c
    | stopped => stopped

end Checker

/-! ## Writing -/

/-- The lines of a section, in order: one for each call that has callees. -/
def sectionLines (view : CalleeView) (m : Method) : Except Fault (List String) := do
  let lines ← (m.calls.filter fun s => !(view s).isEmpty).mapM fun s => do
    let callees ← formatCallees (view s)
    return (s.text?).getD (Fault.absent.placeholder "s") ++ " -> " ++ callees
  return Text.sortTexts lines

/-- The section of a method, or nothing if none of its calls has callees. -/
def sectionText? (view : CalleeView) (m : Method) : Except Fault (Option String) := do
  let lines ← sectionLines view m
  if lines.isEmpty then return none
  return some (String.join ((m.signature :: lines).map fun l => l ++ "\n"))

/-- The golden file of a call graph: a section for each method with resolved calls, and a blank line
between sections. -/
def dump (p : Program) (view : CalleeView) : Except Fault String := do
  let sections ← p.methods.mapM (sectionText? view)
  return "\n".intercalate (sections.filterMap fun s => s)

/-! ## Checking a program -/

/-- Why a program could not be checked against a golden file. -/
inductive CheckError
  | file (e : FileError)
  | golden (path : String) (e : Error)
  | analysis (e : AnalysisError)
  | fault (f : Fault)
  deriving DecidableEq, Repr

/-- What is said about a check that failed. -/
def CheckError.message : CheckError → String
  | file e =>
    let text := "unreadable expected result file: " ++ e.message
    match e with
    | .cannotOpen .. => text
    | .cannotRead path _ => path ++ ": " ++ text
  | golden path e => path ++ ": " ++ e.message
  | analysis e => e.message
  | fault f => f.message

/-- The golden file of a given path and contents. -/
def load (path : String) (contents : Except FileError String) :
    Except CheckError (List Expectation) :=
  match contents with
  | .error e => .error (.file e)
  | .ok text =>
    match parse text with
    | .ok es => .ok es
    | .error e => .error (.golden path e)

/-- Compares a result with expectations. -/
def mismatchesOf (p : Program) (r : Result) (es : List Expectation) :
    Except CheckError (List String) :=
  match ({ expectations := es } : Checker).compareAll r.callees p.methods with
  | (none, c) => .ok c.mismatches
  | (some f, _) => .error (.fault f)

/-- Analyses a program and compares its call graph with a golden file, which is read first. -/
def check (p : Program) (path : String) (contents : Except FileError String) (limits : Limits) :
    Except CheckError (List String) := do
  let es ← load path contents
  match (p.analyze { limits }).outcome with
  | .error e => .error (.analysis e)
  | .ok r => mismatchesOf p r es

end Golden

end PointsTo
