/-
Declaring a task from a map of its properties. Every key has its kind of value; a task without a
name gets a generated one and cannot be seen. Only a declaration without a fault changes the draft.
-/
import Taskwork.Glob.Literal
import Taskwork.Recipe.Draft
import Taskwork.Recipe.Words
import Taskwork.Task.Declaration

namespace Taskwork.Recipe

/-- Why a map declares no task. -/
inductive TaskFault where
  | notConfiguring
  | unexpectedKey (key : String)
  | badType (key expected found : String)
  | badList (f : ListFault)
  | badEnv (key found : String)
  | command (f : CommandFault)
  | declaration (name : String) (f : DeclarationFault)
  deriving DecidableEq, Repr, Inhabited

def TaskFault.message : TaskFault → String
  | .notConfiguring => "task() can only be called from configure(options)"
  | .unexpectedKey key => "task: unexpected key " ++ key
  | .badType key expected found => "task: " ++ key ++ " must be " ++ expected ++ ", found " ++ found
  | .badList f => "task: " ++ f.message
  | .badEnv key found =>
    "task: found value of type " ++ found ++ " for env key " ++ key ++
      " but only strings are supported"
  | .command f => f.message
  | .declaration name f => f.message name

namespace TaskKeys

def all : List String :=
  ["short", "desc", "hidden", "deps", "base", "skip_if_exists", "inputs", "outputs", "env", "cmds"]

variable (rows : List (String × Value))

/-- The text under a key. -/
def text? (key : String) : Except TaskFault (Option String) :=
  match Value.lookup key rows with
  | none => .ok none
  | some (.text s) => .ok (some s)
  | some v => .error (.badType key "a string" v.typeName)

/-- The texts and paths in the list under a key. -/
def texts (key : String) : Except TaskFault (List String) :=
  match Value.lookup key rows with
  | none => .ok []
  | some v => (v.texts key).mapError .badList

def isHidden : Except TaskFault Bool :=
  match Value.lookup "hidden" rows with
  | none => .ok false
  | some (.bool b) => .ok b
  | some v => .error (.badType "hidden" "a bool" v.typeName)

/-- The path of the directory of a task, as it is written. -/
def base : Except TaskFault String :=
  match Value.lookup "base" rows with
  | none => .ok "."
  | some v => match v.pathOrText? with
    | some path => .ok path
    | none => .error (.badType "base" "a string or path" v.typeName)

/-- The rows of an environment, all of which must be text. -/
def envRows : List (String × Value) → Except TaskFault (List (String × String))
  | [] => .ok []
  | (key, .text s) :: rest => do return (key, s) :: (← envRows rest)
  | (key, v) :: _ => .error (.badEnv key v.typeName)

def env : Except TaskFault Table :=
  match Value.lookup "env" rows with
  | none => .ok []
  | some (.map rows) => (envRows rows).map Table.ofList
  | some v => .error (.badType "env" "a map" v.typeName)

/-- The commands of the task `name`, which run in `directory`. -/
def commands (name directory : String) : Except TaskFault (List TaskCommand) :=
  match Value.lookup "cmds" rows with
  | none => .ok []
  | some (.array items) => (commandsOf name directory items).mapError .command
  | some v => .error (.badType "cmds" "a list" v.typeName)

/-- The first key that no task has. -/
def unexpected? : Option String := (rows.map Prod.fst).find? fun key => !all.contains key

end TaskKeys

namespace Draft

open TaskKeys in
/-- The task that a map describes. -/
def taskOf (d : Draft) (rows : List (String × Value)) : Except TaskFault Task := do
  if d.phase ≠ .configuring then throw .notConfiguring
  if let some key := unexpected? rows then throw (.unexpectedKey key)
  let short ← text? rows "short"
  let hidden ← isHidden rows
  let (name, visible) := match short with
    | some s => if s.isEmpty then (d.freshName, false) else (s, !hidden)
    | none => (d.freshName, false)
  let directory := d.site.resolve [← base rows]
  let patterns (fragments : List String) : List String :=
    fragments.map (Glob.resolve directory d.site.projectRoot)
  let description ← text? rows "desc"
  let deps ← texts rows "deps"
  let skipIfExists ← texts rows "skip_if_exists"
  let inputs ← texts rows "inputs"
  let outputs ← texts rows "outputs"
  let env ← TaskKeys.env rows
  let cmds ← commands rows name directory
  return { name, visible, deps, env, cmds, base := directory, description := description.getD "",
           skipIfExists := patterns skipIfExists, inputs := patterns inputs,
           outputs := patterns outputs }

/-- Adds a task, if it may have its name. -/
def admit? (d : Draft) (t : Task) : Except DeclarationFault Draft := do
  t.checkDeclaration d.taskNames
  let d := { d with taskNames := d.taskNames ++ [t.name] }
  if t.visible then
    match d.registry.insert t with
    | .ok registry => return { d with registry }
    | .error _ => throw .duplicateName
  else return d

/-- Declares the task that a map describes. -/
def declareTask (d : Draft) (rows : List (String × Value)) : Except TaskFault (Draft × Task) := do
  let t ← d.taskOf rows
  let d ← (d.admit? t).mapError (.declaration t.name)
  return (d, t)

end Draft
end Taskwork.Recipe
