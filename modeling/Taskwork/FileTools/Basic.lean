/-
The tools `mv`, `rm` and `mkdir`. Each reads its operands as paths seen from a directory, and
stops at the first one that fails; what it did before stays done.
-/
import Taskwork.FileTools.Arguments
import Taskwork.Files.Change

namespace Taskwork.FileTools

/-- Why a tool stops. -/
inductive Fault where
  | arguments (f : ArgumentFault)
  | missingDestination
  | noName (path : String)
  | move (path target : String) (f : FileFault)
  | targetNotADirectory (path : String)
  | directory (path : String)
  | remove (path : String) (f : FileFault)
  | make (path : String) (f : FileFault)
  deriving DecidableEq, Repr, Inhabited

def Fault.message : Fault → String
  | .arguments f => f.message
  | .missingDestination => "missing destination operand"
  | .noName path => "cannot move '" ++ path ++ "'"
  | .move path target f => "cannot move '" ++ path ++ "' to '" ++ target ++ "': " ++ f.message
  | .targetNotADirectory path => "target '" ++ path ++ "' is not a directory"
  | .directory path => "cannot remove '" ++ path ++ "': Is a directory"
  | .remove path f => "cannot remove '" ++ path ++ "': " ++ f.message
  | .make path f => "cannot create directory '" ++ path ++ "': " ++ f.message

/-- The files after a tool ran, and its fault if it had one. -/
abbrev Outcome := Files × Except Fault Unit

/-- The flags and the operands of a call, the latter as paths. -/
def operands (known : List Flag) (directory : String) (args : List String) :
    Except Fault (List Char × List String) :=
  match Arguments.ofList known args with
  | .ok a => .ok (a.flags, a.operands.map (Path.join directory))
  | .error f => .error (.arguments f)

/-- Does something with each path in turn. -/
def each (act : Files → String → Outcome) (fs : Files) : List String → Outcome
  | [] => (fs, .ok ())
  | path :: rest =>
    match act fs path with
    | (fs, .ok ()) => each act fs rest
    | (fs, .error f) => (fs, .error f)

/-! ## Moving -/

/-- Gives what is at one path another path. -/
def moveTo (target : String) (fs : Files) (path : String) : Outcome :=
  match fs.rename path target with
  | .ok fs => (fs, .ok ())
  | .error f => (fs, .error (.move path target f))

/-- Moves a path into a directory under its own name. -/
def moveInto (directory : String) (fs : Files) (path : String) : Outcome :=
  match Path.fileName? path with
  | none => (fs, .error (.noName path))
  | some name => moveTo (Path.join directory name) fs path

def mv (fs : Files) (directory : String) (args : List String) : Outcome :=
  match operands [] directory args with
  | .error f => (fs, .error f)
  | .ok (_, paths) =>
    match paths.dropLast, paths.getLast? with
    | source :: more, some dest =>
      if fs.isDirectory dest then each (moveInto dest) fs (source :: more)
      else if more.isEmpty then moveTo dest fs source
      else (fs, .error (.targetNotADirectory dest))
    | _, _ => (fs, .error .missingDestination)

/-! ## Removing -/

/-- The paths to remove, each with whether it is a directory; nothing is removed if one of them
may not be. -/
def removable (fs : Files) (recursive force : Bool) : List String → Except Fault (List (String × Bool))
  | [] => .ok []
  | path :: rest =>
    match fs.statLink path with
    | .ok (.directory _) =>
      if recursive then (removable fs recursive force rest).map ((path, true) :: ·)
      else .error (.directory path)
    | .ok _ => (removable fs recursive force rest).map ((path, false) :: ·)
    | .error f => if force then removable fs recursive force rest else .error (.remove path f)

/-- Removes one path. -/
def removeOne (force : Bool) (fs : Files) (path : String) (isDirectory : Bool) : Outcome :=
  let (fs, result) :=
    if isDirectory then fs.removeTree path
    else match fs.removeFile path with
      | .ok fs => (fs, .ok ())
      | .error f => (fs, .error f)
  match result with
  | .ok () => (fs, .ok ())
  | .error f => if force && f == .notFound then (fs, .ok ()) else (fs, .error (.remove path f))

def removeAll (force : Bool) (fs : Files) : List (String × Bool) → Outcome
  | [] => (fs, .ok ())
  | (path, isDirectory) :: rest =>
    match removeOne force fs path isDirectory with
    | (fs, .ok ()) => removeAll force fs rest
    | (fs, .error f) => (fs, .error f)

def rm (fs : Files) (directory : String) (args : List String) : Outcome :=
  match operands [⟨'r', ['R']⟩, ⟨'f', []⟩] directory args with
  | .error f => (fs, .error f)
  | .ok (flags, paths) =>
    let force := flags.contains 'f'
    match removable fs (flags.contains 'r') force paths with
    | .error f => (fs, .error f)
    | .ok targets => removeAll force fs targets

/-! ## Making directories -/

def makeOne (parents : Bool) (fs : Files) (path : String) : Outcome :=
  let (fs, result) :=
    if parents then fs.makeDirectories path
    else match fs.makeDirectory path with
      | .ok fs => (fs, .ok ())
      | .error f => (fs, .error f)
  match result with
  | .ok () => (fs, .ok ())
  | .error f => (fs, .error (.make path f))

def mkdir (fs : Files) (directory : String) (args : List String) : Outcome :=
  match operands [⟨'p', []⟩] directory args with
  | .error f => (fs, .error f)
  | .ok (flags, paths) => each (makeOne (flags.contains 'p')) fs paths

/-! ## Calls -/

/-- The tool of a name. -/
def tool? (name : String) : Option (Files → String → List String → Outcome) :=
  match name with
  | "mv" => some mv
  | "rm" => some rm
  | "mkdir" => some mkdir
  | _ => none

end Taskwork.FileTools
