/-
What a recipe has declared so far: its options, its tasks and the environment they run in. Options
are declared first; tasks only when the recipe is asked to configure the project.
-/
import Taskwork.Path
import Taskwork.Recipe.Value
import Taskwork.Task.Registry
import Taskwork.Yaml.Node

namespace Taskwork.Recipe

/-- Where a recipe lies. Both paths are absolute and clean. -/
structure Site where
  script : String
  projectRoot : String
  deriving DecidableEq, Repr, Inhabited

namespace Site

/-- The directory of the recipe, where its paths start. -/
def directory (s : Site) : String := (Path.parent? s.script).getD s.projectRoot

/-- How the recipe is named in messages. -/
def shown (s : Site) : String := Path.shown s.projectRoot s.script

/-- The path that some fragments lead to. -/
def resolve (s : Site) (fragments : List String) : String :=
  Path.resolve s.directory s.projectRoot fragments

end Site

inductive Phase where
  | declaringOptions
  | configuring
  deriving DecidableEq, Repr, Inhabited

/-- An option of a project, with the value it has if none is given. -/
structure OptionDeclaration where
  name : String
  default : String
  help : String
  deriving DecidableEq, Repr, Inhabited

structure Draft where
  site : Site
  phase : Phase
  /-- The values given for options, declared or not. -/
  given : Table
  /-- The declared options, the first one first, no two of one name. -/
  options : List OptionDeclaration
  /-- What the recipe has put into the environment. -/
  env : Table
  registry : Registry
  /-- The names of all tasks declared, whether they can be seen or not. -/
  taskNames : List String
  /-- The YAML documents that have been read, by their paths. -/
  documents : List (String × Yaml.Node)
  deriving Inhabited

namespace Draft

/-- The draft before a recipe has done anything. -/
def initial (site : Site) (given : Table) : Draft :=
  ⟨site, .declaringOptions, given, [], [], .empty, [], []⟩

/-! ## Options -/

/-- The value of an option: the one given for it, or else its own. -/
def valueOf (d : Draft) (o : OptionDeclaration) : String := (d.given.get? o.name).getD o.default

/-- Declares an option and gives its value. A second declaration of one name declares nothing. -/
def declareOption (d : Draft) (o : OptionDeclaration) : Option (Draft × String) :=
  if d.phase ≠ .declaringOptions then none
  else
    let known := d.options.any fun p => p.name == o.name
    some (if known then d else { d with options := d.options ++ [o] }, d.valueOf o)

/-- The values of the declared options, by name. -/
def optionTable (d : Draft) : Table := .ofList (d.options.map fun o => (o.name, d.valueOf o))

/-- The names that values were given for without an option of that name. -/
def undeclared (d : Draft) : List String :=
  (d.given.map Prod.fst).filter fun name => !d.options.any fun o => o.name == name

/-! ## Environment -/

/-- The environment of what the recipe runs, on a process with the given one. -/
def shellEnv (d : Draft) (processEnv : Table) : Table :=
  d.env.foldl (fun env row => env.insert row.1 row.2) processEnv

/-- The value of a variable; one that is not set is empty. -/
def getEnv (d : Draft) (processEnv : Table) (name : String) : String :=
  ((d.env.get? name).or (processEnv.get? name)).getD ""

def setEnv (d : Draft) (name value : String) : Draft := { d with env := d.env.insert name value }

/-- Puts a directory in front of those in `PATH`, and gives the new value. -/
def prependPath (d : Draft) (processEnv : Table) (fragment : String) : Draft × String :=
  let directory := d.site.resolve [fragment]
  let current := d.getEnv processEnv "PATH"
  let value := if current.isEmpty then directory else directory ++ ":" ++ current
  (d.setEnv "PATH" value, value)

/-! ## Names -/

/-- A generated name. -/
def generatedName (n : Nat) : String :=
  let digits := Nat.toDigits 16 n
  Task.anonymousMark ++ String.ofList (List.replicate (32 - digits.length) '0' ++ digits)

/-- A generated name that no task has yet. -/
def freshName (d : Draft) : String :=
  let count := d.taskNames.length
  let candidates := (List.range (count + 1)).map fun i => generatedName (count + i)
  (candidates.find? fun name => !d.taskNames.contains name).getD Task.anonymousMark

end Draft
end Taskwork.Recipe
