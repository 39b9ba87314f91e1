import PointsTo.Config.Hcl
import PointsTo.Config.Ini
import PointsTo.Config.Properties
import PointsTo.Config.Toml
import PointsTo.JsonText
import PointsTo.Yaml.Document

/-!
# Config files

The ending of its name says in which format a config file is written. Names of settings may be
written in capitals.
-/

namespace PointsTo

namespace ConfigValue

/-- The value of a YAML node; nothing has none. -/
def ofNode? : Yaml.Node → Option ConfigValue
  | .scalar plain s =>
    match Yaml.Datum.ofScalar plain s with
    | .null => none
    | d => some (.datum d)
  | _ => some .collection

/-- The value of a JSON value; nothing has none. -/
def ofJson? : JsonValue → Option ConfigValue
  | .null => none
  | .bool b => some (.datum (.bool b))
  | .number x => some (.datum (.binary x))
  | .text s => some (.ofText s)
  | .array _ | .object _ => some .collection

end ConfigValue

namespace Config

/-- The config of a YAML text, which must be a mapping, and in which no mapping may have a key
twice. -/
def ofYaml? (text : String) : Option Config := do
  match ← Yaml.read? text with
  | some n =>
    let fields ← n.fields?
    if fields.all fun f => f.2.isKeyed then
      some (fields.map fun f => (f.1, ConfigValue.ofNode? f.2)) else none
  | none => some []

/-- The config of a JSON text, which must be an object; of several fields with one name the last one
counts. -/
def ofJson? (text : String) : Option Config := do
  match ← JsonValue.read? text with
  | .object fields => some (fields.reverse.map fun f => (f.1, ConfigValue.ofJson? f.2))
  | _ => none

/-- The endings of the names of config files, in the order in which they are looked for. -/
def endings : List String :=
  ["json", "toml", "yaml", "yml", "properties", "props", "prop", "hcl", "tfvars", "dotenv",
    "env", "ini"]

/-- The config of a text in the format that an ending stands for. The names in an environment file
have no dashes, so it sets nothing that is looked for here. -/
def ofText? (env : List (String × String)) (ending text : String) : Option Config :=
  if ending == "json" then ofJson? text
  else if ending == "toml" then Toml.config? text
  else if ending ∈ ["yaml", "yml"] then ofYaml? text
  else if ending ∈ ["properties", "props", "prop"] then Properties.config? env text
  else if ending ∈ ["hcl", "tfvars"] then Hcl.config? text
  else if ending == "ini" then Ini.config? text
  else some []

/-- The ending of a path. -/
def ending (path : String) : String :=
  String.ofList (path.toList.reverse.takeWhile fun c => c ≠ '.' && c ≠ '/').reverse

/-- The config of a file with a given path. An ill-formed file sets nothing. -/
def ofFile (env : List (String × String)) (path text : String) : Config :=
  ((ofText? env (ending path) text).map lower).getD []

end Config

end PointsTo
