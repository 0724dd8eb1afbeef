/-
The commands that a script runs itself: they may change its state, as no program can.
-/
import Taskwork.Shell.State
import Taskwork.Text.Integer

namespace Taskwork.Shell.Builtin

/-- Tells what is wrong on the error stream, and ends with a status. -/
def fail (name message : String) (streams : Streams) (status : Int) : Act Int := do
  Act.writeText streams.stderr (name ++ ": " ++ message ++ "\n")
  return status

/-! ## Directories -/

/-- Adds one step to the directory to go to: a `..` takes back any step but the root. -/
def directoryStep (steps : List Component) (c : Component) : List Component :=
  match c, steps with
  | .here, _ => steps
  | .up, [] => [.up]
  | .up, .root :: before => .up :: .root :: before
  | .up, _ :: before => before
  | c, _ => c :: steps

/-- The directory a path leads to, by its text alone. -/
def cleanDirectory (path : String) : String :=
  Path.ofComponents ((Path.components path).foldl directoryStep []).reverse

def cd (args : List String) (streams : Streams) : Act Int := do
  let s ← Act.state
  match args.head?.or (s.var? "HOME") with
  | none => fail "cd" "HOME not set" streams 1
  | some target =>
    let directory := cleanDirectory (Path.join s.directory target)
    if (← Act.files).isDirectory directory then
      Act.setState (·.enter directory)
      return 0
    else fail "cd" (target ++ ": No such file or directory") streams 1

def pwd (streams : Streams) : Act Int := do
  Act.writeText streams.stdout ((← Act.state).directory ++ "\n")
  return 0

/-! ## Output -/

def echo (args : List String) (streams : Streams) : Act Int := do
  let text := match args with
    | "-n" :: words => " ".intercalate words
    | words => " ".intercalate words ++ "\n"
  Act.writeText streams.stdout text
  return 0

/-! ## Ending -/

/-- The status that an operand of `exit` stands for. -/
def exitStatus? (s : String) : Option Int := Text.integer? (.signed 32) s.toList

def exit (args : List String) (streams : Streams) : Act Int := do
  let status ← match args with
    | [] => pure (← Act.state).lastStatus
    | arg :: _ => match exitStatus? arg with
      | some n => pure n
      | none => fail "exit" (arg ++ ": numeric argument required") streams 2
  Act.setState ({ · with exited := true })
  throw (.exit status)

/-! ## Variables -/

/-- The two sides of the first `=` of a text. -/
def splitEqual? (s : String) : Option (String × String) :=
  match s.toList.dropWhile (· != '=') with
  | [] => none
  | _ :: value => some (String.ofList (s.toList.takeWhile (· != '=')), String.ofList value)

def export_ (args : List String) : Act Int := do
  Act.setState fun s => args.foldl (fun s arg => match splitEqual? arg with
    | some (name, value) => s.publish name (some value)
    | none => s.publish arg none) s
  return 0

def unset (args : List String) : Act Int := do
  Act.setState fun s => args.foldl State.unset s
  return 0

/-! ## Tests -/

/-- A test of one operand; none if there is no such test. -/
def unary (fs : Files) (directory op operand : String) : Option Bool :=
  let path := Path.join directory operand
  match op with
  | "-e" => some (fs.exists? path)
  | "-f" => some (fs.isFile path)
  | "-d" => some (fs.isDirectory path)
  | "-z" => some operand.isEmpty
  | "-n" => some (!operand.isEmpty)
  | _ => none

/-- What a test says; none if it is not one. -/
def evaluate (fs : Files) (directory : String) : List String → Option Bool
  | [] => some false
  | "!" :: rest => (evaluate fs directory rest).map (!·)
  | [value] => some (!value.isEmpty)
  | [op, operand] => unary fs directory op operand
  | [left, "=", right] => some (left == right)
  | [left, "!=", right] => some (left != right)
  | _ => none

def test (args : List String) (streams : Streams) : Act Int := do
  match evaluate (← Act.files) (← Act.state).directory args with
  | some true => return 0
  | some false => return 1
  | none => fail "test" "unsupported expression" streams 2

def bracket (args : List String) (streams : Streams) : Act Int :=
  if args.getLast? == some "]" then test args.dropLast streams
  else fail "[" "missing ']'" streams 2

/-! ## Calls -/

/-- The builtin command of a name. -/
def builtin? (name : String) : Option (List String → Streams → Act Int) :=
  match name with
  | "cd" => some cd
  | "pwd" => some fun _ => pwd
  | "echo" => some echo
  | "true" | ":" => some fun _ _ => pure 0
  | "false" => some fun _ _ => pure 1
  | "exit" => some exit
  | "export" => some fun args _ => export_ args
  | "unset" => some fun args _ => unset args
  | "test" => some test
  | "[" => some bracket
  | _ => none

end Taskwork.Shell.Builtin
