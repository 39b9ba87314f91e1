/-!
# Files and folders

A snapshot of files and folders, with paths as they are written on a command line: `/` separates
names, a path that starts with it begins at the top, `.` is the folder itself and `..` the folder
around it. `read` and `create` say what is wrong with a path that cannot be used.
-/

namespace PointsTo

/-- What is wrong with a path. -/
inductive PathError
  | missing
  | notFolder
  | isFolder
  | nameTooLong
  deriving DecidableEq, Repr

/-- What is said about a path. -/
def PathError.text : PathError → String
  | missing => "no such file or directory"
  | notFolder => "not a directory"
  | isFolder => "is a directory"
  | nameTooLong => "file name too long"

/-- Why a file could not be used. -/
inductive FileError
  | cannotOpen (path : String) (e : PathError)
  | cannotRead (path : String) (e : PathError)
  deriving DecidableEq, Repr

/-- What is said about a file that could not be used. -/
def FileError.message : FileError → String
  | cannotOpen path e => "open " ++ path ++ ": " ++ e.text
  | cannotRead path e => "read " ++ path ++ ": " ++ e.text

/-- A place, as the names on the way to it from the top. -/
abbrev Location := List String

/-- What stands at a place. -/
inductive FileEntry
  | file (text : String)
  | folder
  deriving DecidableEq, Repr

/-- Files and folders, and the folder where paths begin. -/
structure Files where
  entries : List (Location × FileEntry) := []
  here : Location := []

namespace Files

/-- What stands at a place. Around everything that is known there are folders. -/
def entry? (fs : Files) (p : Location) : Option FileEntry :=
  match fs.entries.lookup p with
  | some e => some e
  | none =>
    if p.isPrefixOf fs.here || fs.entries.any fun e => p.isPrefixOf e.1 then some .folder else none

/-- The greatest number of bytes of a name. -/
def maxName : Nat := 255

/-- The greatest number of bytes of a path. -/
def maxPath : Nat := 4095

/-- Goes from a place along names. There must be a folder in front of every name, but nothing has to
stand at the end. -/
def walk (fs : Files) : Location → List String → Except PathError Location
  | p, [] => .ok p
  | p, name :: names =>
    match fs.entry? p with
    | none => .error .missing
    | some (.file _) => .error .notFolder
    | some .folder =>
      if name = "" ∨ name = "." then walk fs p names
      else if name = ".." then walk fs p.dropLast names
      else if maxName < name.utf8ByteSize then .error .nameTooLong
      else walk fs (p ++ [name]) names

/-- The place of a path. -/
def place (fs : Files) (path : String) : Except PathError Location :=
  if path = "" then .error .missing
  else if maxPath < path.utf8ByteSize then .error .nameTooLong
  else fs.walk (if path.toList.head? = some '/' then [] else fs.here) (path.splitOn "/")

/-- The contents of a file. A folder can be opened but not read. -/
def read (fs : Files) (path : String) : Except FileError String :=
  match fs.place path with
  | .error e => .error (.cannotOpen path e)
  | .ok p =>
    match fs.entry? p with
    | none => .error (.cannotOpen path .missing)
    | some .folder => .error (.cannotRead path .isFolder)
    | some (.file text) => .ok text

/-- A path without the separators at its end. -/
def withoutEnd (path : String) : String :=
  String.ofList (path.toList.reverse.dropWhile fun c => c = '/').reverse

/-- Creates an empty file, or empties the one that is there. A path that ends in a separator names a
folder. -/
def create (fs : Files) (path : String) : Except FileError Files :=
  let front := withoutEnd path
  match fs.place (if front = "" then path else front) with
  | .error e => .error (.cannotOpen path e)
  | .ok p =>
    if front ≠ path ∨ fs.entry? p = some .folder then .error (.cannotOpen path .isFolder)
    else .ok { fs with entries := (p, .file "") :: fs.entries }

/-- A folder that holds files of the given names, on a system that has little else. -/
def ofFolder (files : List (String × String)) : Files :=
  let here : Location := ["home", "user"]
  { here
    entries := files.map (fun f => (here ++ f.1.splitOn "/", .file f.2)) ++
      [(["dev", "null"], .file ""), (["tmp"], .folder)] }

end Files

end PointsTo
