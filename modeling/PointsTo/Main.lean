import PointsTo.Cli.Command

/-!
# The program

Looks at the files that the command line may name, runs the command, and prints what it left behind.
-/

namespace PointsTo.Cli

/-- The paths that a command may want to use. -/
def candidatePaths (args : List String) (w : World) : List String :=
  configPaths w ++ args ++ args.filterMap fun a => (splitLong a.toList).2

/-- The paths on the way to a path, the path itself included. -/
def pathsTo (path : String) : List String :=
  let names := path.splitOn "/"
  (List.range names.length).map fun n => "/".intercalate (names.take (n + 1))

/-- What stands at a path. What can be opened but not read is a folder. -/
def look (path : String) : IO (Option FileEntry) := do
  try
    return some (.file (← IO.FS.readFile path))
  catch _ =>
    try
      IO.FS.withFile path .read fun _ => return some .folder
    catch _ => return none

/-- Adds what stands at a path. -/
def note (fs : Files) (path : String) : IO Files := do
  match fs.place path, ← look path with
  | .ok p, some e => return { fs with entries := (p, e) :: fs.entries }
  | _, _ => return fs

/-- The surroundings of a command line. -/
def surroundings (args : List String) : IO World := do
  let top := (← IO.currentDir).toString.splitOn "/"
  let env ← ["HOME", "PTA_LOG_LEVEL", "PTA_MAX_STEPS"].filterMapM fun name => do
    return (← IO.getEnv name).map fun value => (name, value)
  let w : World := { files := { here := top.filter fun name => name ≠ "" }, env }
  let paths := ((candidatePaths args w).flatMap pathsTo).eraseDups
  return { w with files := ← paths.foldlM note w.files }

end PointsTo.Cli

/-- Runs `pta` with the given arguments. -/
def main (args : List String) : IO UInt32 := do
  let out := PointsTo.Cli.run args (← PointsTo.Cli.surroundings args)
  for path in out.created do
    IO.FS.writeFile path ""
  (← IO.getStdout).putStr out.stdout
  (← IO.getStderr).putStr out.stderr
  return out.exit.toUInt32
