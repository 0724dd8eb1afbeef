/-
Why a session cannot do what it is asked for.
-/
import Taskwork.Cache.Store
import Taskwork.Execution.Fault
import Taskwork.Recipe.Evaluation

namespace Taskwork.Session

/-- What is wrong with a project or with what is asked of it. -/
inductive ProjectFault where
  /-- There is no script in any of the places it was looked for. -/
  | scriptNotFound (searched : List String)
  | notConfigured
  | optionsWithoutConfigure
  deriving DecidableEq, Repr, Inhabited

def ProjectFault.message : ProjectFault → String
  | .scriptNotFound searched =>
    "Failed to find task script (searched: " ++ ", ".intercalate searched ++ ")"
  | .notConfigured => "Please run the configure task before any other task"
  | .optionsWithoutConfigure => "Options can only be passed to the configure task"

inductive Fault where
  | recipe (f : Recipe.EvaluationFault)
  | execution (f : Execution.Fault)
  | cache (f : Cache.StoreFault)
  | project (f : ProjectFault)
  | file (f : FileFault)

/-- What is told of it; there are no words for a recipe that cannot be parsed. -/
def Fault.message? : Fault → Option String
  | .recipe f => f.message?.map ("Script error: " ++ ·)
  | .execution f => some ("Execution error: " ++ f.message)
  | .cache f => some ("Cache error: " ++ f.message)
  | .project f => some f.message
  | .file f => some ("I/O error: " ++ f.message)

end Taskwork.Session
