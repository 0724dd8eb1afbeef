/-
What a script needs from outside: something that runs programs, and something that opens files.
-/
import Taskwork.Program.Tools

namespace Taskwork.Shell

structure Handlers where
  /-- Runs a program. It fails as starting one does, with the name of the program and the cause; no other error
  of the shell comes from here. -/
  exec : Program.Call → Host → Host × Except Program.Failure Program.Outcome
  /-- Opens a file by its path, seen from a directory. -/
  openFile : (directory path : String) → OpenMode → Host → Host × Except FileFault Nat

namespace Handlers

/-- Opening files as they are. -/
def openDirect (directory path : String) (mode : OpenMode) (h : Host) : Host × Except FileFault Nat :=
  match h.files.openFile (Path.join directory path) mode with
  | .ok (files, handle) => ({ h with files }, .ok handle)
  | .error f => (h, .error f)

/-- The same handlers, with the file tools run here. -/
def withTools (h : Handlers) : Handlers := { h with exec := Program.withTools h.exec }

end Handlers
end Taskwork.Shell
