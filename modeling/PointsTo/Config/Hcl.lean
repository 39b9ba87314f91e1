import PointsTo.Config.Hcl.Assignment
import PointsTo.Config.Hcl.Json
import PointsTo.Text.Blank

/-!
# HCL

An HCL text assigns values to keys, in its own notation (`items?`) or in that of JSON
(`jsonItems?`). The first character that is not blank tells which.
-/

namespace PointsTo.Hcl

/-- The config of an HCL text. -/
def config? (text : String) : Option Config := do
  let cs := text.toList
  let items ←
    if (cs.dropWhile Text.isBlank).head? = some '\x7b' then jsonItems? cs else items? cs
  let held ← assign? (4 * cs.length + 8) items
  return held.filterMap fun (key, v) => key.string?.map fun key => (key, some v.value)

end PointsTo.Hcl
