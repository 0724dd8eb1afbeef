/-
The values a recipe computes with. Besides plain data there are paths and the tasks a recipe has
declared. A map is kept in the order of its keys, each of them once.
-/
import Taskwork.Json.Value
import Taskwork.Task.Basic
import Taskwork.Yaml.Node

namespace Taskwork.Recipe

inductive Value where
  | unit
  | bool (b : Bool)
  | int (n : Int)
  | float (x : Float)
  | text (s : String)
  | array (items : List Value)
  | map (rows : List (String × Value))
  | path (p : String)
  | task (t : Task)
  deriving Inhabited

namespace Value

/-- The name of the type of a value in messages about data. -/
def typeName : Value → String
  | .unit => "()"
  | .bool _ => "bool"
  | .int _ => "i64"
  | .float _ => "f64"
  | .text _ => "string"
  | .array _ => "array"
  | .map _ => "map"
  | .path _ => "rbuild::script::values::ScriptPath"
  | .task _ => "rbuild::script::values::TaskHandle"

/-- The name of the type of a value in messages about calls. -/
def argumentType : Value → String
  | .text _ => "&str | ImmutableString | String"
  | .path _ => "path"
  | .task _ => "task"
  | v => v.typeName

/-- A whole number that a recipe cannot compute with becomes a double. -/
def ofNumber : Number → Value
  | .whole n => if Number.isScriptInt n then .int n else .float (Number.toFloat n)
  | .real x => .float x

mutual

/-- The value that JSON data stand for. -/
def ofJson : Json.Value → Value
  | .null => .unit
  | .bool b => .bool b
  | .number n => ofNumber n
  | .text s => .text s
  | .array items => .array (ofItems items)
  | .object rows => .map (ofRows rows)

def ofItems : List Json.Value → List Value
  | [] => []
  | v :: rest => ofJson v :: ofItems rest

def ofRows : List (String × Json.Value) → List (String × Value)
  | [] => []
  | (key, v) :: rest => (key, ofJson v) :: ofRows rest

end

/-- The value of a scalar that is not null and has no tag. -/
def ofScalar? : Yaml.Node → Option Value
  | .text s => some (.text s)
  | .bool b => some (.bool b)
  | .number n => some (ofNumber n)
  | _ => none

/-- The text of a text. -/
def text? : Value → Option String
  | .text s => some s
  | _ => none

/-- The text of a text or a path. -/
def pathOrText? : Value → Option String
  | .path p => some p
  | .text s => some s
  | _ => none

/-- The value under a key of a map. -/
def lookup (key : String) : List (String × Value) → Option Value
  | [] => none
  | (k, v) :: rest => if k = key then some v else lookup key rest

end Value

/-- What keeps a value from being a list of texts. -/
inductive ListFault where
  | notList (field type : String)
  | badItem (field type : String)
  deriving DecidableEq, Repr, Inhabited

def ListFault.message : ListFault → String
  | .notList field type => field ++ " must be a list, found " ++ type
  | .badItem field type =>
    "expected all items in " ++ field ++ " to be strings but found " ++ type

/-- The texts of a list of texts and paths, found under the key `field`. -/
def Value.texts (field : String) : Value → Except ListFault (List String)
  | .array items => items.mapM fun v =>
    match v.pathOrText? with
    | some s => .ok s
    | none => .error (.badItem field v.typeName)
  | v => .error (.notList field v.typeName)

end Taskwork.Recipe
