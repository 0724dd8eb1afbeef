/-
Looking up a dotted key such as `a.b.0`. Each part leads from a mapping to the value of a key that
is this text, from a sequence to an item by its number, and from a tagged node to what is tagged.
-/
import Taskwork.Text.Blank
import Taskwork.Text.Integer
import Taskwork.Yaml.Node

namespace Taskwork.Yaml

/-- The parts of a dotted key. -/
def keyParts (key : String) : List String :=
  (Text.splitOn (· == '.') key.toList).map String.ofList

/-- The number of an item. -/
def itemNumber? (part : String) : Option Nat :=
  match part.toList with
  | '-' :: _ => none
  | cs => (Text.integer? (.unsigned 64) cs).map Int.toNat

/-- The value of a key that is text. -/
def valueOf? (key : String) : List (Node × Node) → Option Node
  | [] => none
  | (.text k, v) :: rest => if k = key then some v else valueOf? key rest
  | _ :: rest => valueOf? key rest

/-- Where a part of a key leads, if it leads anywhere; from a scalar nothing can. -/
def Node.step (part : String) : Node → Except Node (Option Node)
  | .mapping rows => .ok (valueOf? part rows)
  | .sequence items => .ok ((itemNumber? part).bind fun i => items[i]?)
  | .null => .ok none
  | .tagged _ content => .ok (some content)
  | n => .error n

/-- Where the parts of a key lead. -/
def Node.walk : List String → Node → Except Node (Option Node)
  | [], n => .ok (some n)
  | part :: rest, n =>
    match n.step part with
    | .error e => .error e
    | .ok none => .ok none
    | .ok (some next) => next.walk rest

/-- A scalar was reached before the end of a key. -/
structure LookupFault where
  key : String
  found : Node

def LookupFault.message (f : LookupFault) : String :=
  "encountered unexpected value " ++ f.found.shown ++ " while looking up " ++ f.key

/-- The node under a dotted key; a null counts as nothing. -/
def Node.lookup (key : String) (n : Node) : Except LookupFault (Option Node) :=
  match n.walk (keyParts key) with
  | .error found => .error ⟨key, found⟩
  | .ok (some .null) => .ok none
  | .ok r => .ok r

end Taskwork.Yaml
