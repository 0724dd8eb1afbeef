/-
What can go wrong while a recipe is computed, and how it is told.
-/
import Taskwork.Files.Text
import Taskwork.Json.Fault
import Taskwork.Recipe.Operation
import Taskwork.Recipe.TaskKeys
import Taskwork.Yaml.Document
import Taskwork.Yaml.Lookup

namespace Taskwork.Recipe

/-- What is wrong with a call for a path. -/
inductive PathFault where
  | noFragments
  | notText (index : Nat) (type : String)
  | unexpectedKey (key : String)
  | badBase (type : String)
  | unrelated (base path : String)
  deriving DecidableEq, Repr, Inhabited

def PathFault.message : PathFault → String
  | .noFragments => "resolve_path: expects at least one argument"
  | .notText index type =>
    "resolve_path: only accepts string arguments but argument " ++ toString index ++ " was a " ++ type
  | .unexpectedKey key => "resolve_path: unexpected keyword argument " ++ key
  | .badBase type =>
    "resolve_path: invalid type " ++ type ++ " for keyword base, expected string or path"
  | .unrelated base path => "resolve_path: " ++ path ++ " can not be made relative to " ++ base

/-- What is wrong with a command that a recipe runs. -/
inductive ExecuteFault where
  | unknownFormat (format : String)
  | badType (type : String)
  | words (f : WordFault)
  | script (e : Shell.SyntaxError)
  | notJson (output : Bytes) (f : Json.Fault)
  deriving DecidableEq, Repr, Inhabited

/-- The name of a command that a recipe runs. -/
def executeName : String := "execute"

def ExecuteFault.message (f : ExecuteFault) : String :=
  executeName ++ ": " ++ match f with
    | .unknownFormat format => "unsupported format " ++ format
    | .badType type =>
      "unexpected type " ++ type ++ " for command, only strings and lists are valid"
    | .words f => f.message
    | .script e => e.message executeName
    | .notJson output f => "failed to parse command output: " ++ f.message output

/-- Why a value cannot be taken from a YAML file. -/
inductive YamlFault where
  | unreadable (path : String) (f : TextFault)
  | malformed (path : String) (f : Yaml.Fault)
  | lookup (f : Yaml.LookupFault)
  | notScalar (key : String)

def YamlFault.message : YamlFault → String
  | .unreadable path f => "failed to open file " ++ path ++ ": " ++ f.message
  | .malformed path f => "failed to parse file " ++ path ++ ": " ++ f.message
  | .lookup f => f.message
  | .notScalar key => "read_yaml: can't return value of " ++ key

inductive Problem where
  /-- There is no function of a name for arguments of some types. -/
  | noFunction (name : String) (types : List String)
  | noVariable (name : String)
  | noModule (name : String)
  | noProperty (name type : String)
  | noItems (type index : String)
  | outOfBounds (index : Int) (size : Nat)
  | notCondition (type : String)
  | notIterable
  | overflow (text : String)
  | tooManyCalls
  /-- The recipe has said that something is wrong. -/
  | told (message : String)
  | lateOption
  | notPath (function type : String)
  | notSearchPath (type : String)
  | task (f : TaskFault)
  | path (f : PathFault)
  | execute (f : ExecuteFault)
  | yaml (f : YamlFault)

namespace Problem

/-- How many elements an array has, in words. -/
def elements : Nat → String
  | 0 => "array is empty"
  | 1 => "only 1 element in array"
  | n => "only " ++ toString n ++ " elements in array"

def message : Problem → String
  | .noFunction name types => "Function not found: " ++ name ++ " (" ++ ", ".intercalate types ++ ")"
  | .noVariable name => "Variable not found: " ++ name
  | .noModule name => "Module not found: " ++ name
  | .noProperty name type =>
    "Unknown property '" ++ name ++ "' - a getter is not registered for type '" ++ type ++ "'"
  | .noItems type index => "Indexer unavailable: " ++ type ++ " [" ++ index ++ "]"
  | .outOfBounds index size =>
    "Array index " ++ toString index ++ " out of bounds: " ++ elements size
  | .notCondition type => "Data type incorrect: " ++ type ++ " (expecting bool)"
  | .notIterable => "For loop expects an iterable type"
  | .overflow text => text
  | .tooManyCalls => "Stack overflow"
  | .told message => message
  | .lateOption => "option() can only be used at the top level of the script"
  | .notPath function type => function ++ ": expected a string or path, found " ++ type
  | .notSearchPath type => "prepend_path: got " ++ type ++ ", want path or string"
  | .task f => f.message
  | .path f => f.message
  | .execute f => f.message
  | .yaml f => f.message

end Problem

/-- A problem and its place. -/
structure Fault where
  problem : Problem
  pos : Pos

end Taskwork.Recipe
