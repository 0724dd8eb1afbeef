/-
Calls of the file tools, which are run here instead of being looked for on the host.
-/
import Taskwork.FileTools.Basic
import Taskwork.Program.Call

namespace Taskwork.Program

/-- Runs calls of the file tools, and passes all others on. -/
def withTools (inner : Call → Host → Host × Except Failure Outcome) (call : Call) (h : Host) :
    Host × Except Failure Outcome :=
  match call.words with
  | [] => inner call h
  | name :: args =>
    match FileTools.tool? name with
    | none => inner call h
    | some tool =>
      let (files, result) := tool h.files call.directory args
      let h := { h with files }
      let (h, outcome) := match result with
        | .ok () => finish h call.wiring 0 [] []
        | .error f => finish h call.wiring 1 [] (Utf8.encode (name ++ ": " ++ f.message ++ "\n"))
      (h, .ok outcome)

end Taskwork.Program
