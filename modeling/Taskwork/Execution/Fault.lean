/-
Why a task is not run to its end. A task that fails because of one of its dependencies says which,
and carries the fault of that one.
-/
import Taskwork.Glob.Resolve
import Taskwork.Shell.Parser
import Taskwork.Shell.State

namespace Taskwork.Execution

/-- Why a command of a task fails. -/
inductive CommandFault where
  /-- The script of a name does not parse. -/
  | script (name : String) (e : Shell.SyntaxError)
  | stopped (stop : Shell.Stop)
  deriving DecidableEq, Repr, Inhabited

def CommandFault.message : CommandFault → String
  | .script name e => e.message name
  | .stopped stop => stop.message

inductive Fault where
  | notFound (name : String)
  /-- The task is in progress already. -/
  | recursive (name : String)
  | dependency (task needed : String) (cause : Fault)
  | pattern (task : String) (e : Glob.InvalidPattern)
  | input (task path : String) (f : FileFault)
  | stat (task path : String) (f : FileFault)
  | command (task : String) (f : CommandFault)
  deriving DecidableEq, Repr, Inhabited

namespace Fault

def message : Fault → String
  | .notFound name => "Task " ++ name ++ " not found"
  | .recursive name => "Task " ++ name ++ " was called recursively"
  | .dependency task needed cause =>
    "Task " ++ task ++ " failed due to its dependency " ++ needed ++ ": " ++ cause.message
  | .pattern task e => "Task " ++ task ++ ": " ++ e.message
  | .input task path f =>
    "Task " ++ task ++ ": failed to check input " ++ path ++ ": " ++ f.message
  | .stat task path f => "Task " ++ task ++ ": failed to check " ++ path ++ ": " ++ f.message
  | .command task f => "Task " ++ task ++ ": " ++ f.message

/-- The fault that started it, behind all dependencies. -/
def rootCause : Fault → Fault
  | .dependency _ _ cause => cause.rootCause
  | f => f

end Fault
end Taskwork.Execution
