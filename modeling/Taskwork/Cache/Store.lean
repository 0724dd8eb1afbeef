/-
The cache as a file. A cache that is not there is no fault; one that cannot be read is.
-/
import Taskwork.Cache.Layout
import Taskwork.Files.Open

namespace Taskwork.Cache

/-- Why the file of a cache cannot be used. -/
inductive StoreFault where
  | inaccessible (path : String) (f : FileFault)
  /-- It can be opened but not read. -/
  | unreadable (path : String) (f : FileFault)
  | malformed (path : String) (f : Fault)
  deriving DecidableEq, Repr

def StoreFault.message : StoreFault → String
  | .inaccessible path f => "failed to access cache " ++ path ++ ": " ++ f.message
  | .unreadable path f => "failed to decode cache " ++ path ++ ": io error: " ++ f.message
  | .malformed path f => "failed to decode cache " ++ path ++ ": " ++ f.message

/-- Writes a cache. -/
def save (fs : Files) (path : String) (options : Table) (r : Registry) : Except StoreFault Files :=
  (fs.putBytes path (encode options r)).mapError (.inaccessible path)

/-- What a cache holds, if it is there. -/
def load (fs : Files) (path : String) : Except StoreFault (Option (Table × Registry)) :=
  match fs.openFile path .read with
  | .error .notFound => .ok none
  | .error f => .error (.inaccessible path f)
  | .ok (fs, handle) =>
    match fs.readRest handle with
    | .error f => .error (.unreadable path f)
    | .ok (_, bytes) => match decode bytes with
      | .ok content => .ok (some content)
      | .error f => .error (.malformed path f)

end Taskwork.Cache
