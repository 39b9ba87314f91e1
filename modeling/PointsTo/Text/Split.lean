/-!
# Cutting a text apart

`cut` divides a text at the first occurrence of a separator, `pieces` at every occurrence of a
character, and `rawLines` at line feeds; `dropReturn` drops the carriage return before one.
-/

namespace PointsTo.Text

/-- The text before and the text after the first occurrence of `sep`, if `sep` occurs. -/
def cut (sep : List Char) : List Char → Option (List Char × List Char)
  | [] => if sep.isEmpty then some ([], []) else none
  | c :: cs =>
    if sep.isPrefixOf (c :: cs) then some ([], (c :: cs).drop sep.length)
    else (cut sep cs).map fun (before, after) => (c :: before, after)

/-- `cut` on strings. -/
def cutText (sep s : String) : Option (String × String) :=
  (cut sep.toList s.toList).map fun (before, after) => (String.ofList before, String.ofList after)

/-- The parts of a text between the occurrences of a character; there is one more part than there
are occurrences. -/
def pieces (sep : Char) : List Char → List (List Char)
  | [] => [[]]
  | c :: cs =>
    if c = sep then [] :: pieces sep cs
    else
      match pieces sep cs with
      | [] => [[c]]
      | p :: ps => (c :: p) :: ps

/-- The texts between line feeds. A last part that is empty does not count. -/
def rawLines (cs : List Char) : List (List Char) :=
  let ps := pieces '\n' cs
  if ps.getLast? = some [] then ps.dropLast else ps

/-- Drops one carriage return at the end of a line. -/
def dropReturn (line : List Char) : List Char :=
  if line.getLast? = some '\r' then line.dropLast else line

end PointsTo.Text
