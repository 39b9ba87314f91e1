import PointsTo.Cli.Flags
import PointsTo.Config.File
import PointsTo.Files

/-!
# Settings

The number of steps and the log level are taken from a flag, or else from an environment variable
that is not empty, or else from a config file, or else from a default.
-/

namespace PointsTo.Cli

/-- What a command can see of its surroundings. -/
structure World where
  files : Files := {}
  /-- The environment variables. -/
  env : List (String × String) := []

/-- An environment variable that is not empty. -/
def World.var? (w : World) (name : String) : Option String :=
  (w.env.reverse.lookup name).filter fun v => v ≠ ""

/-! ## Looking up settings -/

/-- The paths at which a config file is looked for, in order: here, and in the home folder if a
variable says where it is. -/
def configPaths (w : World) : List String :=
  let folders := "" :: ((w.var? "HOME").map fun home => home ++ "/").toList
  folders.flatMap fun folder => Config.endings.map fun e => folder ++ ".pta." ++ e

/-- The config file that a command line names, or else the first one that is there. -/
def config (p : Parsed) (w : World) : Config :=
  let paths := match (p.last? "config").filter fun s => s ≠ "" with
    | some path => [path]
    | none => configPaths w
  (paths.findSome? fun path => (w.files.read path).toOption.map (Config.ofFile w.env path)).getD []

/-- A setting of the config file. -/
def configValue? (name : String) (p : Parsed) (w : World) : Option ConfigValue :=
  ((config p w).lookup name).join

/-- The log level as it is written. -/
def levelName (p : Parsed) (w : World) : RawText :=
  match p.last? "log-level" with
  | some s => .ofString s
  | none =>
    match w.var? "PTA_LOG_LEVEL" with
    | some s => .ofString s
    | none => ((configValue? "log-level" p w).map ConfigValue.shown).getD (.ofString "info")

/-- The largest number of steps; zero or less means that there is no limit. -/
def maxSteps (p : Parsed) (w : World) : Int :=
  match p.last? "max-steps" with
  | some s => ConfigValue.textInteger s
  | none =>
    match w.var? "PTA_MAX_STEPS" with
    | some s => ConfigValue.textInteger s
    | none => ((configValue? "max-steps" p w).map ConfigValue.integer).getD 0

end PointsTo.Cli
