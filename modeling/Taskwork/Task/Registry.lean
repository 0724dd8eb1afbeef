/-
The registry of a project: its visible tasks in the order of their declaration, no two of one
name, and the environment its commands run in.
-/
import Taskwork.Task.Basic

namespace Taskwork

structure Registry where
  tasks : List Task
  env : Table
  deriving Inhabited

namespace Registry

def empty : Registry := ⟨[], []⟩

/-- The names of the tasks in the order of declaration. -/
def names (r : Registry) : List String := r.tasks.map (·.name)

/-- The position of the task of a name. -/
def index? (r : Registry) (name : String) : Option Nat := r.tasks.findIdx? fun t => t.name == name

def contains (r : Registry) (name : String) : Bool := (r.index? name).isSome

/-- The task of a name. -/
def get? (r : Registry) (name : String) : Option Task :=
  (r.index? name).bind fun i => r.tasks[i]?

/-- Adds a task at the end; a task whose name is taken is given back. -/
def insert (r : Registry) (t : Task) : Except Task Registry :=
  if r.contains t.name then .error t else .ok { r with tasks := r.tasks ++ [t] }

def setEnv (r : Registry) (env : Table) : Registry := { r with env }

/-- The registry of some tasks; the first one whose name is taken stops it. -/
def ofTasks (env : Table) (tasks : List Task) : Except Task Registry :=
  tasks.foldlM insert ⟨[], env⟩

/-! ## Dependencies -/

/-- The dependencies of a task that name no task of the registry. -/
def missingFrom (r : Registry) (t : Task) : List (String × String) :=
  (t.deps.filter fun d => !r.contains d).map fun d => (t.name, d)

/-- Goes through the tasks of `stack` and the tasks in them, the last ones first, and looks at the
first task of each name only. -/
def missingAmong (r : Registry) (seen : List String) : List Task → List (String × String)
  | [] => []
  | t :: stack =>
    if seen.contains t.name then missingAmong r seen stack
    else r.missingFrom t ++ missingAmong r (t.name :: seen) (t.subTasks.reverse ++ stack)
termination_by stack => Task.sizeOfAll stack
decreasing_by
  · rw [Task.sizeOfAll, Task.size_eq]; omega
  · rw [Task.sizeOfAll_append, Task.sizeOfAll_reverse, Task.sizeOfAll, Task.size_eq]; omega

/-- The order of pairs of names. -/
def pairLe (a b : String × String) : Bool := a.1 < b.1 || (a.1 == b.1 && !(b.2 < a.2))

/-- The pairs of a task and a dependency of it that is not registered, in order. -/
def unknownDependencies (r : Registry) : List (String × String) :=
  (r.missingAmong [] r.tasks.reverse).mergeSort pairLe

end Registry
end Taskwork
