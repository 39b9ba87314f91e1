import PointsTo.Config
import PointsTo.Config.Hcl.Item

/-!
# What items of HCL assign

A key may be assigned several times. The first value fixes the kind of the key, and further ones
must fit that kind; lists and blocks grow. Items that have more keys go into a table under their
first key, together with all other items that have it.
-/

namespace PointsTo.Hcl

/-- What a key holds. -/
inductive Held
  | bool (b : Bool)
  | int (n : Int)
  | binary (x : Binary64)
  | text (t : RawText)
  | list
  | blocks
  deriving DecidableEq, Repr

namespace Held

/-- The integer that characters stand for. -/
def integer? (cs : List Char) : Option Int := (Text.readInteger (String.ofList cs)).toOption

/-- The value of a literal under a key that holds something already, or nothing. -/
def ofLiteral? : Option Held → Literal → Option Held
  | none, .bool b | some (bool _), .bool b => some (bool b)
  | none, .whole cs | some (int _), .whole cs => (integer? cs).map int
  | none, .decimal cs | some (binary _), .decimal cs | some (binary _), .whole cs =>
    (Binary64.ofText? cs).map binary
  | none, .text t | some (text _), .text t => some (text t)
  | some (int _), .text t => t.string?.bind fun s => (integer? s.toList).map int
  | some (text _), .whole cs => some (text (.ofString (String.ofList cs)))
  | _, _ => none

/-- The value in a config. -/
def value : Held → ConfigValue
  | bool b => .datum (.bool b)
  | int n => .datum (.int n)
  | binary x => .datum (.binary x)
  | text t => .ofRaw t
  | list | blocks => .collection

end Held

/-- Whether two keys are the same but for capitals. -/
def sameKey (a b : RawText) : Bool := a = b || a.string?.map Text.lower == b.string?.map Text.lower

/-- The items under a key, with the rest of their keys. -/
def under (key : RawText) (items : List Item) : List Item :=
  items.filterMap fun (keys, v) =>
    match keys with
    | k :: rest => if sameKey k key then some (rest, v) else none
    | [] => none

/-- What the keys of a table hold, the latest first, and the keys for which all items were looked
at. -/
structure Table where
  held : List (RawText × Held) := []
  complete : List RawText := []

mutual

/-- What the items of a table assign, down to a depth; `none` if some value does not fit. An item
without a key is refused. -/
def assign? : Nat → List Item → Option (List (RawText × Held))
  | 0, _ => none
  | n + 1, items => do
    let step (t : Table) (i : Item) : Option Table :=
      match i.1 with
      | [] => none
      | key :: more =>
        if key ∈ t.complete then some t
        else
          let old := t.held.lookup key
          if more.isEmpty then
            (holdNode? n old i.2).map fun h => { t with held := (key, h) :: t.held }
          else
            (holdItems? n old (under key items)).map fun h =>
              { held := (key, h) :: t.held, complete := key :: t.complete }
    return (← items.foldlM step {}).held

/-- What a key holds after it was assigned a node. -/
def holdNode? : Nat → (old : Option Held) → Node → Option Held
  | 0, _, _ => none
  | _ + 1, old, .literal l => Held.ofLiteral? old l
  | n + 1, old, .list nodes =>
    match old with
    | none | some .list => if nodes.all (fits n) then some .list else none
    | some .blocks => if nodes.all (fun v => v.isBlock && fits n v) then some .blocks else none
    | _ => none
  | n + 1, old, .block items =>
    match old with
    | none | some .blocks => (assign? n items).map fun _ => .blocks
    | some .list => (assign? n items).map fun _ => .list
    | _ => none

/-- What a key holds after it was assigned items of its own. -/
def holdItems? : Nat → (old : Option Held) → List Item → Option Held
  | 0, _, _ => none
  | n + 1, old, items =>
    match old with
    | none | some .blocks =>
      if items.all fun i => (assign? n [i]).isSome then some .blocks else none
    | _ => none

/-- Whether a node may stand in a list. -/
def fits : Nat → Node → Bool
  | 0, _ => false
  | _ + 1, .literal l => (Held.ofLiteral? none l).isSome
  | n + 1, .list nodes => nodes.all (fits n)
  | n + 1, .block items => (assign? n items).isSome

end

end PointsTo.Hcl
