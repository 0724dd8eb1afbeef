/-
Where the task script of a project is: in the directory one starts from or the nearest one above
it that has one, as far as the path is written.
-/
import Taskwork.Files.Basic

namespace Taskwork.Project

/-- The name of a task script. -/
def scriptName : String := "tasks.rhai"

/-- The file in which the tasks of a script are kept. -/
def cachePath (script : String) : String := script ++ ".cache"

/-- The script in the first of some directories that has one, else the paths looked at. -/
def scriptAmong (fs : Files) : List String → Except (List String) String
  | [] => .error []
  | directory :: above =>
    let script := Path.join directory scriptName
    if fs.isFile script then .ok script
    else match scriptAmong fs above with
      | .ok found => .ok found
      | .error searched => .error (script :: searched)

/-- The script of the directory `start` and those above it. -/
def findScript (fs : Files) (start : String) : Except (List String) String :=
  scriptAmong fs (Path.ancestors start)

end Taskwork.Project
