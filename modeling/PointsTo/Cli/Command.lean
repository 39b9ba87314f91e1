import PointsTo.Cli.Log
import PointsTo.Cli.Settings
import PointsTo.Description.Build
import PointsTo.Report

/-!
# The command `pta`

`pta analyze FILE` analyses a program and prints its call graph; `pta check FILE GOLDEN` compares
the call graph with a golden file. `run` is the whole command as a function from its arguments and
surroundings to what it prints and its exit code.

What can go wrong is looked at in this order: the command, its flags, the number of arguments, the
log level, the profile, and then the program.
-/

namespace PointsTo.Cli

/-- What a command left behind. -/
structure Output where
  exit : Nat := 0
  stdout : String := ""
  stderr : String := ""
  /-- The paths at which empty files were created. -/
  created : List String := []
  deriving DecidableEq, Repr

/-- Why a command failed. -/
inductive Error
  | flags (e : FlagError)
  | argumentCount (wanted given : Nat)
  | level (name : RawText)
  | profile (e : FileError)
  | file (e : FileError)
  | description (path : String) (e : BuildError)
  | entry (e : MethodLookupError)
  | analysis (e : AnalysisError)
  | check (e : Golden.CheckError)
  | mismatches (count : Nat)

/-- What is said about a command that failed. -/
def Error.message : Error → String
  | flags e => e.message
  | argumentCount wanted given =>
    "accepts " ++ toString wanted ++ " arg(s), received " ++ toString given
  | level name => "not a valid logrus Level: " ++ name.quote
  | profile e => "could not create CPU profile: " ++ e.message
  | file e =>
    match e with
    | .cannotOpen .. => e.message
    | .cannotRead path _ =>
      path ++ ": invalid program description: yaml: input error: " ++ e.message
  | description path e => path ++ ": " ++ e.message
  | entry e => "entry: " ++ e.message
  | analysis e => e.message
  | check e => e.message
  | mismatches n => toString n ++ " call graph mismatches"

/-- A running command, which may fail and has printed something so far. -/
abbrev Session := ExceptT Error (StateM Output)

/-- Prints a line. -/
def print (line : String) : Session Unit :=
  modify fun o => { o with stdout := o.stdout ++ line ++ "\n" }

/-- Prints a line on the error stream. -/
def warn (line : String) : Session Unit :=
  modify fun o => { o with stderr := o.stderr ++ line ++ "\n" }

/-- Writes a log line, unless its level is above the chosen one. -/
def log (chosen l : Level) (text : String) : Session Unit :=
  if l.rank ≤ chosen.rank then modify fun o => { o with stderr := o.stderr ++ logLine l text }
  else pure ()

/-! ## Analysing -/

/-- Loads a program, with other entries if some are given. -/
def loadProgram (w : World) (chosen : Level) (path : String) (entries : List String) :
    Session Program := do
  let p ← match w.files.read path with
    | .error e => throw (.file e)
    | .ok text =>
      match Program.read text with
      | .ok p => pure p
      | .error e => throw (.description path e)
  let p ← if entries.isEmpty then pure p
    else
      match Description.addEntries entries { p with entries := [] } with
      | .ok p => pure p
      | .error (.entry e) => throw (.entry e)
      | .error e => throw (.description path e)
  log chosen .info ("Loaded " ++ toString p.table.size ++ " classes, " ++
    toString p.methods.length ++ " methods")
  return p

/-- What is logged about an event, and at which level. -/
def eventLine (s : Solver) : Event → Level × String
  | .reachable m => (.debug, "Reachable: " ++ m.signature)
  | .flowEdge kind source target =>
    let shown (i : Nat) : String := ((s.flow.key? i).map fun p => p.text s.heap).getD ""
    (.trace, "New flow edge: [" ++ kind.shown ++ "] " ++ shown source ++ " -> " ++ shown target)
  | .callEdge site callee =>
    (.trace, "New call edge: " ++ Fault.shown site.text? ++ " in " ++
      site.parent.signature ++ " -> " ++
      callee.signature)
  | .unresolved site e =>
    (.debug, "Skipping unresolved call " ++ Fault.shown site.text? ++ " in " ++
      site.parent.signature ++
      ": " ++ e.message)

/-- Runs the analysis and logs what happens. -/
def analyzeProgram (chosen : Level) (p : Program) (steps : Int) :
    Session (Except AnalysisError Result) := do
  let run := p.analyze { limits := { maxSteps := steps } }
  match run.solver with
  | some s =>
    for e in s.events.toList do
      let (l, text) := eventLine s e
      log chosen l text
  | none => pure ()
  match run.outcome with
  | .ok r =>
    log chosen .debug ("Solver done: " ++ toString r.steps ++ " steps, " ++
      toString r.calls.reachable.length ++ " reachable methods, " ++ toString r.calls.numEdges ++
      " call edges, " ++ toString r.flow.size ++ " pointers, " ++ toString r.flow.numEdges ++
        " flow edges")
  | .error _ => pure ()
  return run.outcome

/-- The lines of the points-to sets of a method. -/
def pointsToLines (r : Result) (m : Method) : List String :=
  m.varList.filterMap fun v =>
    let pts := r.pointsTo (.var v)
    if pts.isEmpty then none
    else some ("  " ++ m.signature ++ "/" ++ v.name ++ ": [" ++
      " ".intercalate (r.objectTexts pts) ++ "]")

/-- `pta analyze`. -/
def analyze (w : World) (chosen : Level) (steps : Int) (flags : Parsed) (path : String) :
    Session Unit := do
  let p ← loadProgram w chosen path (flags.all "entry")
  let r ← match ← analyzeProgram chosen p steps with
    | .ok r => pure r
    | .error e => throw (.analysis e)
  log chosen .info (toString r.calls.reachable.length ++ " reachable methods, " ++
    toString r.calls.numEdges ++ " call edges, " ++ toString r.steps ++ " steps")
  if flags.isOn "dump" then
    match Golden.dump p r.callees with
    | .ok text => modify fun o => { o with stdout := o.stdout ++ text }
    | .error f => throw (.analysis (.fault f))
  else
    print "Reachable methods:"
    for m in r.reachable do print ("  " ++ m.signature)
    print "Call edges:"
    for e in r.callEdges do print ("  " ++ e.text)
    if flags.isOn "points-to" then
      print "Points-to sets:"
      for m in r.reachable do
        for line in ((p.method? m).map (pointsToLines r)).getD [] do print line
    for d in r.diagnostics.toList do warn ("warning: " ++ d.text)

/-- `pta check`. -/
def check (w : World) (chosen : Level) (steps : Int) (path golden : String) : Session Unit := do
  let p ← loadProgram w chosen path []
  let es ← match Golden.load golden (w.files.read golden) with
    | .ok es => pure es
    | .error e => throw (.check e)
  let r ← match ← analyzeProgram chosen p steps with
    | .ok r => pure r
    | .error e => throw (.analysis e)
  match Golden.mismatchesOf p r es with
  | .error e => throw (.check e)
  | .ok [] => print ("Call graph matches " ++ golden)
  | .ok ms =>
    for m in ms do print m
    log chosen .debug (toString ms.length ++ " mismatches")
    throw (.mismatches ms.length)

/-! ## Commands -/

/-- The commands. -/
inductive Command
  | analyze
  | check
  deriving DecidableEq, Repr

/-- The flags that every command knows. -/
def globalFlags : List Flag :=
  [{ name := "config", kind := .text }, { name := "cpuprofile", kind := .text },
    { name := "log-level", kind := .text }, { name := "no-colour", kind := .switch },
    { name := "max-steps", kind := .number }]

/-- The flag that asks for help. It is not among those that help to find the command. -/
def helpFlag : Flag := { name := "help", kind := .switch, short := some 'h' }

namespace Command

/-- The command of a name. -/
def ofName? : String → Option Command
  | "analyze" => some analyze
  | "check" => some check
  | _ => none

/-- The flags that a command knows. -/
def flags : Command → List Flag
  | analyze =>
    helpFlag :: globalFlags ++
      [{ name := "entry", kind := .text }, { name := "points-to", kind := .switch },
        { name := "dump", kind := .switch }]
  | check => helpFlag :: globalFlags

/-- The number of arguments that a command takes. -/
def arity : Command → Nat
  | analyze => 1
  | check => 2

end Command

/-- Sets up logging and the profile, which is an empty file at first, and runs a command. -/
def runCommand (c : Command) (w : World) (flags : Parsed) : Session Unit := do
  if flags.args.length ≠ c.arity then throw (.argumentCount c.arity flags.args.length)
  let name := levelName flags w
  let steps := maxSteps flags w
  let chosen ← match name.string?.bind Level.ofName? with
    | some l => pure l
    | none => throw (.level name)
  let w ← match (flags.last? "cpuprofile").filter fun s => s ≠ "" with
    | some path =>
      match w.files.create path with
      | .ok files =>
        modify fun o => { o with created := path :: o.created }
        pure { w with files }
      | .error e => throw (.profile e)
    | none => pure w
  match c, flags.args with
  | .analyze, [path] => analyze w chosen steps flags path
  | .check, [path, golden] => check w chosen steps path golden
  | _, _ => pure ()

/-- What a command left behind when it ended. -/
def finish (s : Session Unit) : Output :=
  match s.run.run {} with
  | (.ok (), o) => o
  | (.error e, o) => { o with exit := 1, stderr := o.stderr ++ "Error: " ++ e.message ++ "\n" }

/-! ## Commands that do not exist -/

/-- One row of the table of distances: the distances of the prefixes of a word, from those one byte
earlier. -/
def distanceRow (c : UInt8) : (diagonal left : Nat) → List UInt8 → List Nat → List Nat
  | diagonal, left, d :: ds, up :: ups =>
    let v := if c = d then diagonal else 1 + min diagonal (min left up)
    v :: distanceRow c up v ds ups
  | _, _, _, _ => []

/-- The rows of the table of distances, one for each byte, and the last entry of the last. -/
def distanceFrom (target : List UInt8) : List UInt8 → List Nat → Nat
  | [], row => row.getLast?.getD 0
  | c :: cs, row =>
    let first := row.headD 0
    distanceFrom target cs ((first + 1) :: distanceRow c first (first + 1) target row.tail)

/-- How many bytes have to be put in, left out or changed to get from one word to another. -/
def distance (a b : List UInt8) : Nat := distanceFrom b a (List.range (b.length + 1))

/-- Commands whose names are near to a word or begin with it, in small letters. -/
def suggestions (word : String) : List String :=
  let word := (Text.lower word).toUTF8.toList
  ["analyze", "check", "completion"].filter fun name =>
    distance word name.toUTF8.toList ≤ 2 || word.isPrefixOf name.toUTF8.toList

/-- What is said about a command that does not exist. -/
def unknownCommand (word : String) : String :=
  let names := suggestions word
  let hint := if names.isEmpty then ""
    else "\n\nDid you mean this?\n" ++ String.join (names.map fun n => "\t" ++ n ++ "\n")
  "Error: unknown command " ++ Text.quote word ++ " for \"pta\"" ++ hint ++
    "\nRun 'pta --help' for usage.\n"

/-! ## Running -/

/-- Reads flags and arguments, and goes on with them unless help is asked for. -/
def withFlags (flags : List Flag) (args : List String) (k : Parsed → Session Unit) :
    Session Unit := do
  match parse flags args with
  | .ok p => if p.isOn "help" then pure () else k p
  | .error e => throw (.flags e)

/-- Runs `pta`. -/
def run (args : List String) (w : World) : Output :=
  match words globalFlags args with
  | [] => finish (withFlags (helpFlag :: globalFlags) args fun _ => pure ())
  | word :: _ =>
    match Command.ofName? word with
    | some c => finish (withFlags c.flags (removeWord globalFlags word args) (runCommand c w))
    | none =>
      if word ∈ ["help", "completion"] then {} else { exit := 1, stderr := unknownCommand word }

end PointsTo.Cli
