/-
Files that hold text.
-/
import Taskwork.Files.Open

namespace Taskwork

/-- Why the text of a file cannot be had. -/
inductive TextFault where
  | file (f : FileFault)
  | notText
  deriving DecidableEq, Repr, Inhabited

def TextFault.message : TextFault → String
  | .file f => f.message
  | .notText => "stream did not contain valid UTF-8"

/-- The text in the file at a path. -/
def Files.textAt (fs : Files) (path : String) : Except TextFault String :=
  match fs.bytesAt path with
  | .error f => .error (.file f)
  | .ok bytes => match Utf8.decode? bytes with
    | some text => .ok text
    | none => .error .notText

end Taskwork
