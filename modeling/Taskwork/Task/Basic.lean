/-
Tasks: what a project can do, with the tasks that must run before, the files that show whether
there is something to do, and the commands. A command is a shell script or another task that is
run in its place.
-/
import Taskwork.Table

namespace Taskwork

mutual

structure Task where
  /-- The name it is asked for by. -/
  name : String
  description : String
  /-- Whether it is listed and can be asked for. -/
  visible : Bool
  /-- The directory its commands run in. -/
  base : String
  /-- The tasks that run before it. -/
  deps : List String
  /-- The patterns of the files it reads. -/
  inputs : List String
  /-- The patterns of the files it makes. -/
  outputs : List String
  /-- Patterns of files that make it unnecessary when all of them exist. -/
  skipIfExists : List String
  /-- What its commands find in their environment besides the registry's. -/
  env : Table
  cmds : List TaskCommand

inductive TaskCommand where
  | script (source : String)
  | task (task : Task)

end

namespace Task

/-- The name under which a project is configured; no task may have it. -/
def reservedName : String := "configure"

/-- What the names of tasks without a name of their own start with. -/
def anonymousMark : String := "auto#"

/-- A task of the given name that does nothing. -/
def empty (name base : String) : Task := ⟨name, "", true, base, [], [], [], [], [], []⟩

instance : Inhabited Task := ⟨empty "" ""⟩

/-- Whether the name was generated. -/
def isAnonymous (t : Task) : Bool := anonymousMark.toList.isPrefixOf t.name.toList

/-- The tasks among some commands. -/
def embedded : List TaskCommand → List Task
  | [] => []
  | .script _ :: rest => embedded rest
  | .task t :: rest => t :: embedded rest

/-- The tasks that are commands of a task. -/
def subTasks (t : Task) : List Task := embedded t.cmds

/-- How a task is shown. -/
def shown (t : Task) : String := "<Task " ++ t.name ++ ": " ++ t.description ++ ">"

mutual

/-- The number of tasks in a task, itself included. -/
def size : Task → Nat
  | ⟨_, _, _, _, _, _, _, _, _, cmds⟩ => 1 + sizeOfCommands cmds

def sizeOfCommands : List TaskCommand → Nat
  | [] => 0
  | .script _ :: rest => sizeOfCommands rest
  | .task t :: rest => t.size + sizeOfCommands rest

end

/-- The number of tasks in some tasks. -/
def sizeOfAll : List Task → Nat
  | [] => 0
  | t :: rest => t.size + sizeOfAll rest

theorem sizeOfAll_append (a b : List Task) : sizeOfAll (a ++ b) = sizeOfAll a + sizeOfAll b := by
  induction a with
  | nil => rw [List.nil_append, sizeOfAll, Nat.zero_add]
  | cons t a ih => rw [List.cons_append, sizeOfAll, sizeOfAll, ih, Nat.add_assoc]

theorem sizeOfAll_reverse (a : List Task) : sizeOfAll a.reverse = sizeOfAll a := by
  induction a with
  | nil => rfl
  | cons t a ih =>
    rw [List.reverse_cons, sizeOfAll_append, ih, sizeOfAll, sizeOfAll, sizeOfAll, Nat.add_zero,
      Nat.add_comm]

theorem sizeOfAll_embedded : ∀ cmds : List TaskCommand, sizeOfAll (embedded cmds) = sizeOfCommands cmds
  | [] => rfl
  | .script _ :: rest => by rw [embedded, sizeOfCommands, sizeOfAll_embedded rest]
  | .task t :: rest => by rw [embedded, sizeOfCommands, sizeOfAll, sizeOfAll_embedded rest]

theorem size_eq (t : Task) : t.size = 1 + sizeOfAll t.subTasks := by
  rw [subTasks, sizeOfAll_embedded]; cases t; rfl

end Task
end Taskwork
