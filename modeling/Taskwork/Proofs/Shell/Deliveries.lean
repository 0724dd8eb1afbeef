/-
Running a stage of a pipeline and watching what is written to its streams. A stream is marked if it
is the standard error that the stage was given, or a copy of that; whatever is written to a stream
is noted with the mark and with the place where it is delivered. The buffers for captured output are
told apart there by how many of them were in use before, as a sink does not tell which one it means.
-/
import Taskwork.Shell.Interpreter

namespace Taskwork.Shell

/-! ## Places -/

/-- Where something that is written to a stream ends up. -/
inductive Place where
  | stdout
  | stderr
  | null
  /-- The buffer that came into use after `depth` others. -/
  | buffer (depth : Nat)
  | file (handle : Nat)
  deriving DecidableEq, Repr

/-- Where a stream leads to while the buffer at `depth` is the one in use. -/
def Sink.place (depth : Nat) : Sink → Place
  | .stdout => .stdout
  | .stderr => .stderr
  | .null => .null
  | .capture => .buffer depth
  | .file handle => .file handle

/-- An output stream of a command. -/
structure Port where
  sink : Sink
  /-- Whether it is the standard error that the stage was given, or a copy of it. -/
  own : Bool
  deriving DecidableEq, Repr

/-- The streams of a command of the stage. -/
structure Ports where
  stdin : Source
  stdout : Port
  stderr : Port
  deriving DecidableEq, Repr

def Ports.streams (ports : Ports) : Streams := ⟨ports.stdin, ports.stdout.sink, ports.stderr.sink⟩

/-- Something written to a stream while the buffer at `depth` was in use: some bytes, or else
whatever a program wrote that was connected to the stream itself. -/
structure Delivery where
  port : Port
  depth : Nat
  content : Option Bytes
  deriving DecidableEq, Repr

def Delivery.place (d : Delivery) : Place := d.port.sink.place d.depth

/-- The bytes that come to a place. -/
def bytesTo (place : Place) (ds : List Delivery) : Bytes :=
  ds.flatMap fun d => if d.place = place then d.content.getD [] else []

/-! ## Watching -/

/-- Which buffer is in use, and what has been delivered. -/
structure Watch where
  depth : Nat
  deliveries : List Delivery
  deriving DecidableEq, Repr

/-- Notes something written to a stream. -/
def Watch.note (watch : Watch) (port : Port) (content : Option Bytes) : Watch :=
  { watch with deliveries := watch.deliveries ++ [⟨port, watch.depth, content⟩] }

/-- Notes bytes written to a stream, if there are any. -/
def Watch.noteBytes (watch : Watch) (port : Port) (bytes : Bytes) : Watch :=
  if bytes.isEmpty then watch else watch.note port (some bytes)

/-- Running something and watching what is delivered. -/
abbrev Watched (α : Type) := ExceptT Stop (StateM (World × Watch)) α

namespace Watched

variable {α : Type}

/-- Does something that writes nothing. -/
def plainly (act : Act α) : Watched α := fun (w, watch) =>
  let (result, w) := act w
  (result, (w, watch))

def write (port : Port) (bytes : Bytes) : Watched Unit := fun (w, watch) =>
  let (result, w) := Act.write port.sink bytes w
  (result, (w, watch.noteBytes port bytes))

/-- A program may be connected to a stream and write to it itself. -/
def connect (port : Port) (output : Program.Output) : Watched Unit := fun (w, watch) =>
  (.ok (), (w, if output = .capture then watch else watch.note port none))

def isolated (act : Watched Int) : Watched Int := fun (w, watch) =>
  let (result, (w', watch)) := act (w, watch)
  let back (status : Int) : World := { w' with state := { w.state with lastStatus := status } }
  match result with
  | .ok status => (.ok status, (back status, watch))
  | .error (.exit status) => (.ok status, (back status, watch))
  | .error e => (.error e, ({ w' with state := w.state }, watch))

def tested (isTest : Bool) (act : Watched Int) : Watched Int := fun (w, watch) =>
  if isTest then
    let (result, (w', watch)) := act ({ w with state := { w.state with tests := w.state.tests + 1 } }, watch)
    (result, ({ w' with state := { w'.state with tests := w'.state.tests - 1 } }, watch))
  else act (w, watch)

/-- Does something with a buffer of its own. -/
def buffered (act : Watched Int) : Watched (Int × Bytes) := fun (w, watch) =>
  let (result, (w', watch')) := act ({ w with captured := [] }, { watch with depth := watch.depth + 1 })
  let back := ({ w' with captured := w.captured }, { watch' with depth := watch.depth })
  match result with
  | .ok status => (.ok (status, w'.captured), back)
  | .error e => (.error e, back)

/-- What a builtin command writes to its output and to its errors: what is captured if only that
stream is. -/
def said (run : List String → Streams → Act Int) (args : List String) (w : World) : Bytes × Bytes :=
  let added (streams : Streams) : Bytes := (run args streams w).2.captured.drop w.captured.length
  (added ⟨.null, .capture, .null⟩, added ⟨.null, .null, .capture⟩)

def builtin (run : List String → Streams → Act Int) (args : List String) (ports : Ports) : Watched Int :=
  fun (w, watch) =>
    let (out, err) := said run args w
    let (result, w') := run args ports.streams w
    (result, (w', (watch.noteBytes ports.stdout out).noteBytes ports.stderr err))

def call (h : Handlers) (words : List String) (assigned : List (String × String)) (ports : Ports) :
    Watched Int := do
  let w ← plainly get
  let s := w.state
  let env := assigned.foldl (fun env row => env.insert row.1 row.2) s.exported
  let out := ports.stdout.sink.output .stdout
  let err := ports.stderr.sink.output .stderr
  let (host, result) := h.exec ⟨s.directory, env, words, ⟨ports.stdin.input, out, err⟩⟩ w.host
  plainly (set { w with host })
  connect ports.stdout out
  connect ports.stderr err
  match result with
  | .error f => throw (.failure f)
  | .ok outcome =>
    write ports.stdout outcome.stdout
    write ports.stderr outcome.stderr
    return outcome.status

def perform (h : Handlers) (words : List String) (assigned : List (String × String)) (ports : Ports) :
    Watched Int :=
  match words with
  | [] => plainly do
    Act.setState fun s => assigned.foldl (fun s row => s.set row.1 row.2) s
    return 0
  | name :: args => match Builtin.builtin? name with
    | some run => builtin run args ports
    | none => call h words assigned ports

/-- One redirection. A file that is opened is no copy of anything. -/
def redirect (h : Handlers) (fd : Nat) (kind : RedirectKind) (target : String) (ports : Ports) :
    Watched (Except (String × FileFault) Ports) := do
  let place (port : Port) : Ports :=
    if fd = 1 then { ports with stdout := port }
    else if fd = 2 then { ports with stderr := port }
    else ports
  match kind with
  | .read =>
    return (← plainly (Act.openFile h target .read)).map fun handle =>
      if fd = 0 then { ports with stdin := .file handle } else ports
  | .write =>
    return (← plainly (Act.openFile h target .write)).map fun handle => place ⟨.file handle, false⟩
  | .append =>
    return (← plainly (Act.openFile h target .append)).map fun handle => place ⟨.file handle, false⟩
  | .duplicate =>
    match target with
    | "1" => return .ok (place ports.stdout)
    | "2" => return .ok (place ports.stderr)
    | _ => return .ok ports
  | .writeBoth =>
    return (← plainly (Act.openFile h target .write)).map fun handle =>
      { ports with stdout := ⟨.file handle, false⟩, stderr := ⟨.file handle, false⟩ }

def withPorts (outer : Ports) (ports : Except (String × FileFault) Ports) (act : Ports → Watched Int) :
    Watched Int :=
  match ports with
  | .ok ports => act ports
  | .error (path, fault) => do
    write outer.stderr (Utf8.encode (path ++ ": " ++ fault.message ++ "\n"))
    return 1

/-- The errors of a substitution go where those of the whole script go, which is not the standard
error that the stage was given. -/
def substitution (run : Ports → Watched Int) : Watched String := do
  let ports : Ports := ⟨.null, ⟨.capture, false⟩, ⟨(← plainly Act.state).streams.stderr, false⟩⟩
  let (_, written) ← buffered (isolated do
    plainly (Act.setState ({ · with exited := false }))
    run ports)
  return Act.chomp (Utf8.decodeLossy written)

variable (h : Handlers)

mutual

def list (ports : Ports) : List Statement → Watched Int
  | [] => do return (← plainly Act.state).lastStatus
  | statement :: rest => do
    if (← plainly Act.state).exited then return (← plainly Act.state).lastStatus
    else
      let status ← andOr ports statement
      plainly (Act.setState ({ · with lastStatus := status }))
      list ports rest

def andOr (ports : Ports) : Statement → Watched Int
  | ⟨first, rest, _, _⟩ => do
    let status ← guarded ports (!rest.isEmpty) first
    let (status, counts) ← links ports status (rest.isEmpty && !first.negated) rest
    if status ≠ 0 && counts && (← plainly Act.state).failsOnError then throw (.exit status)
    return status

def links (ports : Ports) (status : Int) (counts : Bool) : List Link → Watched (Int × Bool)
  | [] => return (status, counts)
  | ⟨connector, next⟩ :: rest => do
    let proceed := match connector with
      | .and => status == 0
      | .or => status != 0
    if proceed then
      let status ← guarded ports (!rest.isEmpty) next
      links ports status (rest.isEmpty && !next.negated) rest
    else links ports status false rest

def guarded (ports : Ports) (isTest : Bool) : Pipeline → Watched Int
  | ⟨negated, commands⟩ => tested (isTest || negated) do
    let status ← match commands with
      | [only] => command ports only
      | commands => stages ports ports.stdin commands
    return if negated then (if status = 0 then 1 else 0) else status

/-- The stages of a pipeline within the one that is watched. -/
def stages (ports : Ports) (input : Source) : List Command → Watched Int
  | [] => return 0
  | [last] => isolated (command { ports with stdin := input } last)
  | stage :: rest => do
    let (_, written) ← buffered (isolated
      (command { ports with stdin := input, stdout := ⟨.capture, false⟩ } stage))
    stages ports (.bytes written) rest

def command (ports : Ports) : Command → Watched Int
  | .simple assigns words redirects => do
    let arguments ← fields words
    let assigned ← values assigns
    let redirected ← redirections ports redirects
    withPorts ports redirected (perform h arguments assigned)
  | .subshell script redirects => do
    let redirected ← redirections ports redirects
    withPorts ports redirected fun ports => isolated (list ports script)
  | .group script redirects => do
    let redirected ← redirections ports redirects
    withPorts ports redirected fun ports => list ports script

def redirections (ports : Ports) : List Redirect → Watched (Except (String × FileFault) Ports)
  | [] => return .ok ports
  | ⟨fd, kind, target⟩ :: rest => do
    let target ← text target
    match ← redirect h fd kind target ports with
    | .ok ports => redirections ports rest
    | .error e => return .error e

def values : List Assign → Watched (List (String × String))
  | [] => return []
  | ⟨name, value⟩ :: rest => do
    let value ← text value
    return (name, value) :: (← values rest)

def fields : List (List Part) → Watched (List String)
  | [] => return []
  | word :: rest => do
    let found ← parts .empty word
    let s ← plainly Act.state
    let arguments := found.finish.flatMap (Field.arguments (← plainly Act.files) s.directory)
    return arguments ++ (← fields rest)

def parts (found : Fields) : List Part → Watched Fields
  | [] => return found
  | .literal text quoted :: rest => parts (found.push text quoted) rest
  | .param name fallback quoted :: rest => do
    let value ← parameter name fallback
    parts (found.pushValue value quoted) rest
  | .subst script quoted :: rest => do
    let value ← substitution fun ports => list ports script
    parts (found.pushValue value quoted) rest

def text : List Part → Watched String
  | [] => return ""
  | .literal t _ :: rest => return t ++ (← text rest)
  | .param name fallback _ :: rest => do
    let value ← parameter name fallback
    return value ++ (← text rest)
  | .subst script _ :: rest => do
    let value ← substitution fun ports => list ports script
    return value ++ (← text rest)

def parameter (name : String) : Option (List Part) → Watched String
  | none => return ((← plainly Act.state).parameter? name).getD ""
  | some fallback => do
    let value := ((← plainly Act.state).parameter? name).getD ""
    if value.isEmpty then text fallback else return value

end

end Watched

/-! ## The stages of a pipeline -/

/-- What is seen of a stage that is not the last one. The buffer at 0 is the one that its pipeline
finds in use, and the buffer at 1 is the stage's own. -/
structure Sight where
  deliveries : List Delivery
  /-- The input of the next stage, unless the pipeline breaks off. -/
  piped : Option Bytes
  deriving DecidableEq, Repr

/-- What is written to the standard error that the stage was given is delivered where that of the
pipeline leads, and not into the pipe. -/
def Sight.Separate (sink : Sink) (sight : Sight) : Prop :=
  ∀ d ∈ sight.deliveries, d.port.own = true → d.place = sink.place 0 ∧ d.place ≠ .buffer 1

/-- Runs a pipeline and watches each of its stages but the last, whose standard error is marked. -/
def watchedStages (h : Handlers) (streams : Streams) (input : Source) :
    List Command → World → Except Stop Int × World × List Sight
  | [], w => (.ok 0, w, [])
  | [last], w =>
    let (result, w) := Act.isolated (Run.command h { streams with stdin := input } last) w
    (result, w, [])
  | stage :: rest, w =>
    let ports : Ports := ⟨input, ⟨.capture, false⟩, ⟨streams.stderr, true⟩⟩
    let (result, (w, watch)) :=
      Watched.buffered (Watched.isolated (Watched.command h ports stage)) (w, ⟨0, []⟩)
    match result with
    | .ok (_, written) =>
      let (result, w, sights) := watchedStages h streams (.bytes written) rest w
      (result, w, ⟨watch.deliveries, some written⟩ :: sights)
    | .error e => (.error e, w, [⟨watch.deliveries, none⟩])

end Taskwork.Shell
