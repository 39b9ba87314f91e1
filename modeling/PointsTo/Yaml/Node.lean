/-!
# YAML documents

A document is a tree of scalars, sequences and mappings. A scalar remembers whether it was written
plainly or in quotes, because a plain scalar may stand for null or a truth value.
-/

namespace PointsTo.Yaml

/-- A node of a document. -/
inductive Node
  | scalar (plain : Bool) (text : String)
  | seq (items : List Node)
  | map (pairs : List (Node × Node))

namespace Node

/-- The node that stands for nothing. -/
def null : Node := scalar true ""

/-- The plain words for null. -/
def nullWords : List String := ["", "~", "null", "Null", "NULL"]

/-- Whether the node stands for nothing. -/
def isNull : Node → Bool
  | scalar true s => s ∈ nullWords
  | _ => false

/-- Whether the node, as a key, is the plain mark for merging one mapping into another, which is not
read. -/
def isMerge : Node → Bool
  | scalar true s => s == "<<"
  | _ => false

/-- The text of a scalar; nothing is the empty text. -/
def text? : Node → Option String
  | scalar plain s => some (if plain && s ∈ nullWords then "" else s)
  | _ => none

/-- The truth value of a scalar; nothing is false. The plain words of the core schema count, and a
few words of older usage count plainly and in quotes. -/
def bool? (n : Node) : Option Bool :=
  match n with
  | scalar plain s =>
    if plain && s ∈ nullWords then some false
    else if plain && s ∈ ["true", "True", "TRUE"] then some true
    else if plain && s ∈ ["false", "False", "FALSE"] then some false
    else if s ∈ ["y", "Y", "yes", "Yes", "YES", "on", "On", "ON"] then some true
    else if s ∈ ["n", "N", "no", "No", "NO", "off", "Off", "OFF"] then some false
    else none
  | _ => none

/-- The items of a sequence that stand for something; nothing is the empty sequence. -/
def items? : Node → Option (List Node)
  | seq items => some (items.filter fun n => !n.isNull)
  | n => if n.isNull then some [] else none

/-- The text of a scalar that is a key. -/
def keyText? (n : Node) : Option String :=
  match n with
  | scalar _ s => if n.isMerge then none else some s
  | _ => none

/-- Whether all keys of a mapping are scalars with different texts. -/
def hasKeys (pairs : List (Node × Node)) : Bool :=
  match pairs.mapM fun p => p.1.keyText? with
  | some keys => keys.eraseDups.length == keys.length
  | none => false

/-- The pairs of a mapping with their keys as texts; nothing is the empty mapping. Keys must be
scalars with different texts, and a pair whose key stands for nothing is left out. -/
def fields? (n : Node) : Option (List (String × Node)) :=
  match n with
  | map pairs =>
    if hasKeys pairs then
      some (pairs.filterMap fun (k, v) => if k.isNull then none else k.keyText?.map fun s => (s, v))
    else none
  | n => if n.isNull then some [] else none

mutual

/-- Whether every mapping in a node has scalar keys with different texts. -/
def isKeyed : Node → Bool
  | scalar .. => true
  | seq items => itemsKeyed items
  | map pairs => hasKeys pairs && valuesKeyed pairs

/-- Whether this holds of all items. -/
def itemsKeyed : List Node → Bool
  | [] => true
  | n :: rest => n.isKeyed && itemsKeyed rest

/-- Whether this holds of all values. -/
def valuesKeyed : List (Node × Node) → Bool
  | [] => true
  | (_, v) :: rest => v.isKeyed && valuesKeyed rest

end

end Node

end PointsTo.Yaml
