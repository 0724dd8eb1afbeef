/-
Which names a task may be declared with: any but the reserved one and those declared before,
whether the tasks that have them are visible or not.
-/
import Taskwork.Task.Basic

namespace Taskwork

/-- What is wrong with a declaration. -/
inductive DeclarationFault where
  | reservedName
  | duplicateName
  deriving DecidableEq, Repr, Inhabited

def DeclarationFault.message (name : String) : DeclarationFault → String
  | .reservedName => "task name \"" ++ name ++ "\" is reserved for the configure step"
  | .duplicateName => "task \"" ++ name ++ "\" is declared twice"

/-- Checks a task against the names declared before it. -/
def Task.checkDeclaration (t : Task) (declared : List String) : Except DeclarationFault Unit :=
  if t.name = Task.reservedName then .error .reservedName
  else if declared.contains t.name then .error .duplicateName
  else .ok ()

end Taskwork
