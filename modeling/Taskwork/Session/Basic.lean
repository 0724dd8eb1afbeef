/-
Working on a project. Configuring evaluates its recipe with some options and keeps the tasks in a
cache; all else is done with the tasks in the cache, which is made anew with the options it was made
with when the recipe has changed since.
-/
import Taskwork.Execution.Basic
import Taskwork.Project.Discovery
import Taskwork.Session.Fault

namespace Taskwork

/-- The recipe of a project and the directory that counts as its root. -/
structure Session where
  script : String
  projectRoot : String
  deriving DecidableEq, Repr, Inhabited

namespace Session

/-- The session for a recipe in the root of its project. -/
def ofScript (script : String) : Session := ⟨script, (Path.parent? script).getD "."⟩

def cachePath (s : Session) : String := Project.cachePath s.script

/-- The session for the recipe that a search from a directory finds. -/
def discover (fs : Files) (start : String) : Except ProjectFault Session :=
  match Project.findScript fs start with
  | .ok script => .ok (ofScript script)
  | .error searched => .error (.scriptNotFound searched)

/-- The session for the recipe that a search from where one is finds. -/
def discoverHere (fs : Files) : Except ProjectFault Session := discover fs fs.herePath

/-- Doing something in a session: it ends well or with a fault, and changes the host. -/
abbrev Act (α : Type) := ExceptT Fault (StateM Host) α

/-- Something that says itself how the host changes. -/
def Act.of {α ε : Type} (cause : ε → Fault) (act : Host → Host × Except ε α) : Act α := fun host =>
  let (host, result) := act host
  (result.mapError cause, host)

/-- Something that changes nothing. -/
def Act.ofFiles {α ε : Type} (cause : ε → Fault) (look : Files → Except ε α) : Act α :=
  .of cause fun host => (host, look host.files)

def Act.tell (message : String) : Act Unit := modify fun host => host.report .info message

variable (h : Shell.Handlers) (s : Session)

/-- Evaluates the recipe with some options. -/
def evaluate (options : Table) (optionsOnly : Bool) : Act Recipe.Evaluation :=
  .of .recipe (Recipe.evaluate h s.script s.projectRoot options optionsOnly)

/-- Keeps options and tasks in the cache. -/
def store (options : Table) (r : Registry) : Act Unit :=
  .of .cache fun host => match Cache.save host.files s.cachePath options r with
    | .ok files => ({ host with files }, .ok ())
    | .error f => (host, .error f)

/-- Configures the project with some options. -/
def configure (options : Table) : Act Registry := do
  let e ← evaluate h s options false
  store s options e.registry
  Act.tell "configured"
  return e.registry

/-- The options and tasks in the cache. -/
def cached : Act (Table × Registry) := do
  match ← Act.ofFiles .cache fun fs => Cache.load fs s.cachePath with
  | some content => return content
  | none => throw (.project .notConfigured)

/-- The tasks of the project as its recipe is now. -/
def load : Act Registry := do
  let (options, r) ← s.cached
  let scriptTime ← Act.ofFiles .file fun fs => fs.modified s.script
  let cacheTime ← Act.ofFiles .file fun fs => fs.modified s.cachePath
  if scriptTime ≤ cacheTime then return r
  else
    Act.tell "script changed, re-evaluating"
    configure h s options

/-- The options that the recipe declares. -/
def listOptions : Act (List Recipe.OptionDeclaration) := do
  return (← evaluate h s [] true).options

/-- Runs some tasks in turn with the tasks of the project, if they are known already. -/
def runAll (options : Table) (settings : Execution.Settings) :
    Option Registry → List String → Act (List Execution.Report)
  | _, [] => return []
  | known, name :: rest => do
    if name = Task.reservedName then
      let r ← configure h s options
      runAll options settings (some r) rest
    else
      let r ← match known with
        | some r => pure r
        | none => load h s
      let report ← Act.of .execution (Execution.run h settings r name)
      return report :: (← runAll options settings (some r) rest)

/-- Runs some tasks in turn, up to the first fault. Options are for configuring alone. -/
def run (tasks : List String) (options : Table) (settings : Execution.Settings) :
    Act (List Execution.Report) := do
  if !options.isEmpty && tasks != [Task.reservedName] then
    throw (.project .optionsWithoutConfigure)
  runAll h s options settings none tasks

end Session
end Taskwork
