import PointsTo.Text.Integer

/-!
# Command line flags

A flag is written `--name value` or `--name=value`; a switch stands alone or is written
`--name=true`. Flags and arguments may come in any order, and everything after `--` is an argument.
-/

namespace PointsTo.Cli

/-- What a flag takes. -/
inductive FlagKind
  | text
  | number
  | switch
  deriving DecidableEq, Repr

/-- A flag that a command knows. -/
structure Flag where
  name : String
  kind : FlagKind
  /-- The letter of a switch that may be written with one dash. -/
  short : Option Char := none
  deriving DecidableEq, Repr

/-- How a flag is named in messages. -/
def Flag.shown (f : Flag) : String :=
  match f.short with
  | some c => "-" ++ String.singleton c ++ ", --" ++ f.name
  | none => "--" ++ f.name

/-- What is wrong with the flags. -/
inductive FlagError
  | unknown (name : String)
  /-- A letter that names no switch; of a character outside ASCII only the first byte counts. -/
  | unknownShort (byte : UInt8) (word : String)
  | badForm (word : String)
  | needsArgument (word : String)
  | notNumber (value : String) (f : Flag) (e : Text.IntegerError)
  | notBool (value : String) (f : Flag)
  deriving DecidableEq, Repr

/-- What is said about an argument of the wrong form. -/
def invalidArgument (value : String) (f : Flag) (reader cause : String) : String :=
  "invalid argument " ++ Text.quote value ++ " for " ++ Text.quote f.shown ++ " flag: strconv." ++
    reader ++ ": parsing " ++ Text.quote value ++ ": " ++ cause

/-- What is said about flags. -/
def FlagError.message : FlagError → String
  | unknown name => "unknown flag: --" ++ name
  | unknownShort byte word =>
    "unknown shorthand flag: " ++ Text.quoteChar (Char.ofNat byte.toNat) ++ " in -" ++ word
  | badForm word => "bad flag syntax: " ++ word
  | needsArgument word => "flag needs an argument: " ++ word
  | notNumber value f e => invalidArgument value f "ParseInt" e.message
  | notBool value f => invalidArgument value f "ParseBool" "invalid syntax"

/-- The flags and arguments of a command line. -/
structure Parsed where
  /-- Flags with their values, in order. -/
  values : List (String × String) := []
  args : List String := []
  deriving DecidableEq, Repr

namespace Parsed

/-- All values of a flag, in order. -/
def all (p : Parsed) (name : String) : List String :=
  (p.values.filter fun v => v.1 = name).map Prod.snd

/-- The last value of a flag. -/
def last? (p : Parsed) (name : String) : Option String := (p.all name).getLast?

/-- Whether a switch is on. -/
def isOn (p : Parsed) (name : String) : Bool := ((p.last? name).bind Text.readBool?).getD false

end Parsed

/-- The flag of a name. -/
def find? (flags : List Flag) (name : String) : Option Flag := flags.find? fun f => f.name = name

/-- Checks the value of a flag. -/
def Flag.check (f : Flag) (value : String) : Except FlagError Unit :=
  match f.kind with
  | .text => .ok ()
  | .number =>
    match Text.readInteger value with
    | .ok _ => .ok ()
    | .error e => .error (.notNumber value f e)
  | .switch => if (Text.readBool? value).isSome then .ok () else .error (.notBool value f)

/-- The name of a long flag and the value written with it, if there is one. -/
def splitLong (cs : List Char) : String × Option String :=
  match cs.span (fun c => c != '=') with
  | (name, _ :: value) => (String.ofList name, some (String.ofList value))
  | (name, []) => (String.ofList name, none)

/-- Puts a checked value in front of what follows. -/
def Flag.put (f : Flag) (value : String) (rest : Except FlagError Parsed) :
    Except FlagError Parsed := do
  f.check value
  let p ← rest
  return { p with values := (f.name, value) :: p.values }

/-- How a word with one dash goes on that is meant for a test runner. -/
def testWord : List Char := "test.".toList

/-- Reads switches that are written with one dash, in front of what follows. A value may stand
behind an equals sign, and words for a test runner are left out. -/
def putShort (flags : List Flag) (rest : Except FlagError Parsed) :
    List Char → Except FlagError Parsed
  | [] => rest
  | c :: cs =>
    if testWord.isPrefixOf (c :: cs) then rest
    else
      match flags.find? fun f => f.short = some c with
      | none => .error (.unknownShort ((String.utf8EncodeChar c).headD 0) (String.ofList (c :: cs)))
      | some f =>
        match cs with
        | '=' :: d :: ds => f.put (String.ofList (d :: ds)) rest
        | cs => f.put "true" (putShort flags rest cs)

/-- Reads flags and arguments. The first thing that is wrong counts. -/
def parse (flags : List Flag) : List String → Except FlagError Parsed
  | [] => .ok {}
  | word :: rest =>
    match word.toList with
    | ['-', '-'] => .ok { args := rest }
    | '-' :: '-' :: cs =>
      if cs.head? = some '-' ∨ cs.head? = some '=' then .error (.badForm word)
      else
        let (name, given) := splitLong cs
        match find? flags name with
        | none => .error (.unknown name)
        | some f =>
          match given with
          | some value => f.put value (parse flags rest)
          | none =>
            if f.kind = .switch then f.put "true" (parse flags rest)
            else
              match rest with
              | value :: rest => f.put value (parse flags rest)
              | [] => .error (.needsArgument word)
    | '-' :: c :: cs => putShort flags (parse flags rest) (c :: cs)
    | _ => do
      let p ← parse flags rest
      return { p with args := word :: p.args }

/-! ## Finding the command -/

/-- Whether a word is a flag that takes the next word as its value, as far as the given flags tell.
One dash with one byte behind it counts as such a flag. -/
def takesNext (flags : List Flag) (word : String) : Bool :=
  let cs := word.toList
  if '=' ∈ cs then false
  else
    match cs with
    | '-' :: '-' :: name => (find? flags (String.ofList name)).all fun f => f.kind ≠ .switch
    | ['-', c] => c.toNat < 0x80
    | _ => false

/-- The words that are neither flags nor values of flags. -/
def words (flags : List Flag) : List String → List String
  | [] => []
  | word :: rest =>
    if word = "--" then []
    else if takesNext flags word then
      match rest with
      | _ :: next :: more => words flags (next :: more)
      | _ => []
    else if word = "" ∨ word.toList.head? = some '-' then words flags rest
    else word :: words flags rest

/-- Removes the first word that is neither a flag nor a value of a flag and equals a given one. -/
def removeWord (flags : List Flag) (x : String) : List String → List String
  | [] => []
  | word :: rest =>
    if word = "--" then word :: rest
    else if takesNext flags word then
      match rest with
      | value :: rest => word :: value :: removeWord flags x rest
      | [] => [word]
    else if word = x then rest
    else word :: removeWord flags x rest

end PointsTo.Cli
