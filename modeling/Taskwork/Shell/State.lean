/-
The state in which a script runs: its directory, its variables, of which the exported ones are the
environment of the programs it calls, the status of the command before, and the streams it starts
with. Output is captured in a buffer, which a pipeline or substitution replaces for a while.
-/
import Taskwork.Program.Call

namespace Taskwork.Shell

/-- Where an output stream goes. -/
inductive Sink where
  | stdout
  | stderr
  | null
  | capture
  | file (handle : Nat)
  deriving DecidableEq, Repr, Inhabited

/-- Where the input stream comes from. -/
inductive Source where
  | null
  | inherit
  | bytes (content : Bytes)
  | file (handle : Nat)
  deriving DecidableEq, Repr, Inhabited

structure Streams where
  stdin : Source
  stdout : Sink
  stderr : Sink
  deriving DecidableEq, Repr, Inhabited

structure State where
  directory : String
  exported : Table
  locals : Table
  lastStatus : Int
  exited : Bool
  /-- Whether a failing statement ends the script. -/
  errexit : Bool
  /-- How many tests the statement being run is part of; within a test failing is no error. -/
  tests : Nat
  streams : Streams
  deriving Inhabited

namespace State

/-- A state in which nothing is set. -/
def initial (directory : String) : State :=
  ⟨directory, [], [], 0, false, false, 0, ⟨.null, .stdout, .stderr⟩⟩

/-- The value of a variable. -/
def var? (s : State) (name : String) : Option String :=
  (s.locals.get? name).or (s.exported.get? name)

/-- What a parameter stands for; `?` is the last status. -/
def parameter? (s : State) (name : String) : Option String :=
  if name = "?" then some (toString s.lastStatus) else s.var? name

/-- Sets a variable where it is. -/
def set (s : State) (name value : String) : State :=
  if s.exported.contains name then { s with exported := s.exported.insert name value }
  else { s with locals := s.locals.insert name value }

/-- Makes a variable part of the environment, with a new value or the one it has. -/
def publish (s : State) (name : String) (value : Option String) : State :=
  let value := value.or (s.locals.get? name)
  let s := { s with locals := s.locals.erase name }
  match value with
  | some v => { s with exported := s.exported.insert name v }
  | none => s

def unset (s : State) (name : String) : State :=
  { s with locals := s.locals.erase name, exported := s.exported.erase name }

/-- Goes to a directory. -/
def enter (s : State) (directory : String) : State :=
  { s with exported := s.exported.insert "PWD" directory, directory }

/-- Whether a failing command ends the script. -/
def failsOnError (s : State) : Bool := s.errexit && s.tests == 0

end State

/-- Why a script stops before its end. -/
inductive Stop where
  | exit (status : Int)
  | failure (f : Program.Failure)
  deriving DecidableEq, Repr, Inhabited

def Stop.message : Stop → String
  | .exit status => "exit status " ++ toString status
  | .failure f => f.message

/-- A script's state, what it has written for capture, and the host. -/
structure World where
  state : State
  captured : Bytes
  host : Host
  deriving Inhabited

/-- Doing something in a world: it ends well or stops the script, and changes the world. -/
abbrev Act (α : Type) := ExceptT Stop (StateM World) α

namespace Act

def state : Act State := do return (← get).state

def setState (f : State → State) : Act Unit := modify fun w => { w with state := f w.state }

def files : Act Files := do return (← get).host.files

/-- Writes to a stream. -/
def write (sink : Sink) (bytes : Bytes) : Act Unit :=
  if bytes.isEmpty then pure ()
  else modify fun w => match sink with
    | .stdout => { w with host := w.host.printOut bytes }
    | .stderr => { w with host := w.host.printErr bytes }
    | .null => w
    | .capture => { w with captured := w.captured ++ bytes }
    | .file handle => { w with host := w.host.writeTo handle bytes }

def writeText (sink : Sink) (text : String) : Act Unit := write sink (Utf8.encode text)

/-- Does something on a copy of the state, of which only the status is kept. An exit ends the copy
alone. -/
def isolated (act : Act Int) : Act Int := fun w =>
  let (result, w') := act w
  let back (status : Int) : World := { w' with state := { w.state with lastStatus := status } }
  match result with
  | .ok status => (.ok status, back status)
  | .error (.exit status) => (.ok status, back status)
  | .error e => (.error e, { w' with state := w.state })

/-- Does something while a test is being made. -/
def tested (isTest : Bool) (act : Act Int) : Act Int := fun w =>
  if isTest then
    let (result, w') := act { w with state := { w.state with tests := w.state.tests + 1 } }
    (result, { w' with state := { w'.state with tests := w'.state.tests - 1 } })
  else act w

/-- Does something with a capture buffer of its own, and gives back what it holds in the end. -/
def buffered (act : Act Int) : Act (Int × Bytes) := fun w =>
  let (result, w') := act { w with captured := [] }
  let back := { w' with captured := w.captured }
  match result with
  | .ok status => (.ok (status, w'.captured), back)
  | .error e => (.error e, back)

end Act
end Taskwork.Shell
