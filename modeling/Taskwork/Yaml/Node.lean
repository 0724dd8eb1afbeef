/-
The data in a YAML document.
-/
import Taskwork.Number
import Taskwork.Text.Shown

namespace Taskwork.Yaml

inductive Node where
  | null
  | bool (b : Bool)
  | number (n : Number)
  | text (s : String)
  | sequence (items : List Node)
  | mapping (rows : List (Node × Node))
  | tagged (tag : String) (content : Node)
  deriving Inhabited

namespace Node

mutual

/-- Whether two nodes are the same key. The order of the rows of a mapping does not matter. -/
def isSame : Node → Node → Bool
  | .null, .null => true
  | .bool a, .bool b => a == b
  | .number a, .number b => a.isSame b
  | .text a, .text b => a == b
  | .sequence a, .sequence b => areSame a b
  | .mapping a, .mapping b => a.length == b.length && haveSame a b
  | .tagged s a, .tagged t b => s == t && a.isSame b
  | _, _ => false

def areSame : List Node → List Node → Bool
  | [], [] => true
  | a :: as, b :: bs => a.isSame b && areSame as bs
  | _, _ => false

/-- Whether each row of the first mapping is one of the second. -/
def haveSame : List (Node × Node) → List (Node × Node) → Bool
  | [], _ => true
  | (k, v) :: rest, rows => (rows.any fun r => k.isSame r.1 && v.isSame r.2) && haveSame rest rows

end

mutual

/-- The node without its tags and those of the nodes in it. -/
def untagged : Node → Node
  | .sequence items => .sequence (untaggedItems items)
  | .mapping rows => .mapping (untaggedRows rows)
  | .tagged _ content => content.untagged
  | n => n

def untaggedItems : List Node → List Node
  | [] => []
  | n :: rest => n.untagged :: untaggedItems rest

def untaggedRows : List (Node × Node) → List (Node × Node)
  | [] => []
  | (k, v) :: rest => (k.untagged, v.untagged) :: untaggedRows rest

end

/-- How a scalar is shown in messages. -/
def shown : Node → String
  | .bool b => "Bool(" ++ toString b ++ ")"
  | .number n => "Number(" ++ n.shown ++ ")"
  | .text s => "String(" ++ Text.shown s ++ ")"
  | _ => ""

/-- How a key that is there twice is shown. -/
def shownKey : Node → Option String
  | .null => some "null key"
  | .bool b => some ("key \x60" ++ toString b ++ "\x60")
  | .number n => some ("key " ++ n.shown)
  | .text s => some ("key " ++ Text.shown s)
  | _ => none

end Node
end Taskwork.Yaml
