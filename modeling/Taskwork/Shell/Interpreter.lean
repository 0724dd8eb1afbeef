/-
Running a script. Statements run one after another; a pipeline of several commands runs each on a
copy of the state, with the output of one as the input of the next; words are expanded from left
to right before anything else of their command is done. What the commands of the outside world do,
and how files are opened, is given by the handlers.
-/
import Taskwork.Shell.Builtin
import Taskwork.Shell.Field
import Taskwork.Shell.Handlers
import Taskwork.Shell.Script

namespace Taskwork.Shell

/-- Where the input of a program comes from. -/
def Source.input : Source → Program.Input
  | .null => .null
  | .inherit => .inherit
  | .bytes content => .bytes content
  | .file handle => .file handle

/-- Where a stream of a program goes. What it cannot write to itself is captured and passed on. -/
def Sink.output (sink own : Sink) : Program.Output :=
  match sink with
  | .null => .null
  | .file handle => .file handle
  | .capture => .capture
  | sink => if sink = own then .inherit else .capture

namespace Act

/-- Opens a file; a fault comes with the path it is for. -/
def openFile (h : Handlers) (path : String) (mode : OpenMode) :
    Act (Except (String × FileFault) Nat) := do
  let directory := (← state).directory
  let w ← get
  let (host, result) := h.openFile directory path mode w.host
  set { w with host }
  return result.mapError fun f => (Path.join directory path, f)

/-- Runs a program with the words of a command. -/
def call (h : Handlers) (words : List String) (assigned : List (String × String)) (streams : Streams) :
    Act Int := do
  let w ← get
  let s := w.state
  let env := assigned.foldl (fun env row => env.insert row.1 row.2) s.exported
  let wiring : Program.Wiring :=
    ⟨streams.stdin.input, streams.stdout.output .stdout, streams.stderr.output .stderr⟩
  let (host, result) := h.exec ⟨s.directory, env, words, wiring⟩ w.host
  set { w with host }
  match result with
  | .error f => throw (.failure f)
  | .ok outcome =>
    write streams.stdout outcome.stdout
    write streams.stderr outcome.stderr
    return outcome.status

/-- Runs a command whose words are expanded and whose streams are in place. -/
def perform (h : Handlers) (words : List String) (assigned : List (String × String))
    (streams : Streams) : Act Int :=
  match words with
  | [] => do
    setState fun s => assigned.foldl (fun s row => s.set row.1 row.2) s
    return 0
  | name :: args => match Builtin.builtin? name with
    | some run => run args streams
    | none => call h words assigned streams

/-- The text without the newlines at its end. -/
def chomp (s : String) : String := String.ofList (Text.dropLastWhile (· == '\n') s.toList)

/-- One redirection of the streams, with its target expanded. -/
def redirect (h : Handlers) (fd : Nat) (kind : RedirectKind) (target : String) (streams : Streams) :
    Act (Except (String × FileFault) Streams) := do
  let place (sink : Sink) : Streams :=
    if fd = 1 then { streams with stdout := sink }
    else if fd = 2 then { streams with stderr := sink }
    else streams
  match kind with
  | .read =>
    return (← openFile h target .read).map fun handle =>
      if fd = 0 then { streams with stdin := .file handle } else streams
  | .write => return (← openFile h target .write).map fun handle => place (.file handle)
  | .append => return (← openFile h target .append).map fun handle => place (.file handle)
  | .duplicate =>
    match target with
    | "1" => return .ok (place streams.stdout)
    | "2" => return .ok (place streams.stderr)
    | _ => return .ok streams
  | .writeBoth =>
    return (← openFile h target .write).map fun handle =>
      { streams with stdout := .file handle, stderr := .file handle }

/-- Goes on with redirected streams; if they could not be had, tells why and ends with status 1. -/
def withStreams (outer : Streams) (streams : Except (String × FileFault) Streams)
    (act : Streams → Act Int) : Act Int :=
  match streams with
  | .ok streams => act streams
  | .error (path, fault) => do
    writeText outer.stderr (path ++ ": " ++ fault.message ++ "\n")
    return 1

/-- What a script writes, without the newlines at its end. It runs on a copy of the state, and its
errors go where the errors of the whole script go. -/
def substitution (run : Streams → Act Int) : Act String := do
  let streams : Streams := ⟨.null, .capture, (← state).streams.stderr⟩
  let (_, written) ← buffered (isolated do
    setState ({ · with exited := false })
    run streams)
  return chomp (Utf8.decodeLossy written)

end Act

namespace Run

variable (h : Handlers)

mutual

/-- The statements of a list, up to an exit; the status of the last one that ran. -/
def list (streams : Streams) : List Statement → Act Int
  | [] => do return (← Act.state).lastStatus
  | statement :: rest => do
    if (← Act.state).exited then return (← Act.state).lastStatus
    else
      let status ← andOr streams statement
      Act.setState ({ · with lastStatus := status })
      list streams rest

/-- Pipelines joined by `&&` and `||`. A failure counts if it comes from the last of them and that
one is not negated. -/
def andOr (streams : Streams) : Statement → Act Int
  | ⟨first, rest, _, _⟩ => do
    let status ← guarded streams (!rest.isEmpty) first
    let (status, counts) ← links streams status (rest.isEmpty && !first.negated) rest
    if status ≠ 0 && counts && (← Act.state).failsOnError then throw (.exit status)
    return status

/-- The pipelines after the first one, each run or not by the status so far; with the status comes
whether a failure counts. -/
def links (streams : Streams) (status : Int) (counts : Bool) : List Link → Act (Int × Bool)
  | [] => return (status, counts)
  | ⟨connector, next⟩ :: rest => do
    let proceed := match connector with
      | .and => status == 0
      | .or => status != 0
    if proceed then
      let status ← guarded streams (!rest.isEmpty) next
      links streams status (rest.isEmpty && !next.negated) rest
    else links streams status false rest

/-- A pipeline whose failure may be part of a test. -/
def guarded (streams : Streams) (isTest : Bool) : Pipeline → Act Int
  | ⟨negated, commands⟩ => Act.tested (isTest || negated) do
    let status ← match commands with
      | [only] => command streams only
      | commands => stages streams streams.stdin commands
    return if negated then (if status = 0 then 1 else 0) else status

/-- The commands of a pipeline from one on, with the input that the one before it wrote. -/
def stages (streams : Streams) (input : Source) : List Command → Act Int
  | [] => return 0
  | [last] => Act.isolated (command { streams with stdin := input } last)
  | stage :: rest => do
    let (_, written) ← Act.buffered (Act.isolated
      (command { streams with stdin := input, stdout := .capture } stage))
    stages streams (.bytes written) rest

def command (streams : Streams) : Command → Act Int
  | .simple assigns words redirects => do
    let arguments ← fields words
    let assigned ← values assigns
    let redirected ← redirections streams redirects
    Act.withStreams streams redirected (Act.perform h arguments assigned)
  | .subshell script redirects => do
    let redirected ← redirections streams redirects
    Act.withStreams streams redirected fun streams => Act.isolated (list streams script)
  | .group script redirects => do
    let redirected ← redirections streams redirects
    Act.withStreams streams redirected fun streams => list streams script

/-- The streams after some redirections, from left to right. -/
def redirections (streams : Streams) : List Redirect → Act (Except (String × FileFault) Streams)
  | [] => return .ok streams
  | ⟨fd, kind, target⟩ :: rest => do
    let target ← text target
    match ← Act.redirect h fd kind target streams with
    | .ok streams => redirections streams rest
    | .error e => return .error e

/-- The names and values of some assignments. -/
def values : List Assign → Act (List (String × String))
  | [] => return []
  | ⟨name, value⟩ :: rest => do
    let value ← text value
    return (name, value) :: (← values rest)

/-- The arguments that some words expand to. -/
def fields : List (List Part) → Act (List String)
  | [] => return []
  | word :: rest => do
    let found ← parts .empty word
    let s ← Act.state
    let arguments := found.finish.flatMap (Field.arguments (← Act.files) s.directory)
    return arguments ++ (← fields rest)

/-- The fields of a word after those of some parts of it. -/
def parts (found : Fields) : List Part → Act Fields
  | [] => return found
  | .literal text quoted :: rest => parts (found.push text quoted) rest
  | .param name fallback quoted :: rest => do
    let value ← parameter name fallback
    parts (found.pushValue value quoted) rest
  | .subst script quoted :: rest => do
    let value ← Act.substitution fun streams => list streams script
    parts (found.pushValue value quoted) rest

/-- The one text a word expands to where it is not split. -/
def text : List Part → Act String
  | [] => return ""
  | .literal t _ :: rest => return t ++ (← text rest)
  | .param name fallback _ :: rest => do
    let value ← parameter name fallback
    return value ++ (← text rest)
  | .subst script _ :: rest => do
    let value ← Act.substitution fun streams => list streams script
    return value ++ (← text rest)

/-- The value of a parameter, or of its fallback if it is empty or not set. -/
def parameter (name : String) : Option (List Part) → Act String
  | none => return ((← Act.state).parameter? name).getD ""
  | some fallback => do
    let value := ((← Act.state).parameter? name).getD ""
    if value.isEmpty then text fallback else return value

end

/-- Runs one statement, unless the script has ended. Ending with status 0 is no failure. -/
def statement (s : Statement) : Act Unit := fun w =>
  if w.state.exited then (.ok (), w)
  else
    let (result, w) := andOr h w.state.streams s w
    let note (status : Int) : World := { w with state := { w.state with lastStatus := status } }
    match result with
    | .ok status => (.ok (), note status)
    | .error (.exit status) =>
      if status = 0 && w.state.exited then (.ok (), note 0) else (.error (.exit status), note status)
    | .error e => (.error e, w)

/-- Runs the statements of a script up to its end or the first failure. -/
def script : Script → Act Unit
  | [] => pure ()
  | s :: rest => do
    statement h s
    script rest

end Run
end Taskwork.Shell
