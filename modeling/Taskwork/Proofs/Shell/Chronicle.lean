/-
Running a script with a chronicle: what completes in a shell is written down when it completes, and
so is every use of a status, with what had completed until then. A copy of a shell goes on with the
history of the shell it is a copy of, which keeps its own.
-/
import Taskwork.Shell.Interpreter

namespace Taskwork.Shell

/-- What completes in a shell, with its exit status. -/
inductive Event where
  | pipeline (status : Int)
  | substitution (status : Int)
  | statement (status : Int)
  /-- A copy of the shell, in which a subshell or a stage of a pipeline was run. -/
  | copy (status : Int)
  deriving DecidableEq, Repr

/-- A use of a status: by `$?`, or by an `exit` without an operand. -/
structure Use where
  value : Int
  /-- What had completed in the shell, the last thing first. -/
  history : List Event
  deriving DecidableEq, Repr

structure Chronicle where
  history : List Event
  uses : List Use
  deriving DecidableEq, Repr

/-- The status of the pipeline or command substitution that completed last, in a shell that started
with a status. -/
def recent (start : Int) : List Event → Int
  | [] => start
  | .pipeline status :: _ => status
  | .substitution status :: _ => status
  | .statement _ :: es => recent start es
  | .copy _ :: es => recent start es

/-- Running something and keeping the chronicle. -/
abbrev Observed (α : Type) := ExceptT Stop (StateM (World × Chronicle)) α

namespace Observed

variable {α : Type}

/-- Does something in which nothing completes and no status is used. -/
def plainly (act : Act α) : Observed α := fun (w, c) =>
  let (result, w) := act w
  (result, (w, c))

def completed (e : Event) : Observed Unit := fun (w, c) =>
  (.ok (), (w, { c with history := e :: c.history }))

def used : Observed Unit := fun (w, c) =>
  (.ok (), (w, { c with uses := c.uses ++ [⟨w.state.lastStatus, c.history⟩] }))

/-- Does something in a copy of the shell; `e` is what completes in the shell then. -/
def isolated (e : Int → Event) (act : Observed Int) : Observed Int := fun (w, c) =>
  let (result, (w', c')) := act (w, c)
  let back (status : Int) : World × Chronicle :=
    ({ w' with state := { w.state with lastStatus := status } },
      { c' with history := e status :: c.history })
  match result with
  | .ok status => (.ok status, back status)
  | .error (.exit status) => (.ok status, back status)
  | .error e => (.error e, ({ w' with state := w.state }, { c' with history := c.history }))

def tested (isTest : Bool) (act : Observed Int) : Observed Int := fun (w, c) =>
  if isTest then
    let (result, (w', c')) := act ({ w with state := { w.state with tests := w.state.tests + 1 } }, c)
    (result, ({ w' with state := { w'.state with tests := w'.state.tests - 1 } }, c'))
  else act (w, c)

def buffered (act : Observed Int) : Observed (Int × Bytes) := fun (w, c) =>
  let (result, (w', c')) := act ({ w with captured := [] }, c)
  let back := { w' with captured := w.captured }
  match result with
  | .ok status => (.ok (status, w'.captured), (back, c'))
  | .error e => (.error e, (back, c'))

def withStreams (outer : Streams) (streams : Except (String × FileFault) Streams)
    (act : Streams → Observed Int) : Observed Int :=
  match streams with
  | .ok streams => act streams
  | .error (path, fault) => do
    plainly (Act.writeText outer.stderr (path ++ ": " ++ fault.message ++ "\n"))
    return 1

def substitution (run : Streams → Observed Int) : Observed String := do
  let streams : Streams := ⟨.null, .capture, (← plainly Act.state).streams.stderr⟩
  let (_, written) ← buffered (isolated .substitution do
    plainly (Act.setState ({ · with exited := false }))
    run streams)
  return Act.chomp (Utf8.decodeLossy written)

/-- An `exit` alone uses the status. -/
def perform (h : Handlers) (words : List String) (assigned : List (String × String))
    (streams : Streams) : Observed Int := do
  if words = ["exit"] then used
  plainly (Act.perform h words assigned streams)

/-- The value of a parameter; that of `?` uses the status. -/
def lookup (name : String) : Observed String := do
  if name = "?" then used
  return ((← plainly Act.state).parameter? name).getD ""

variable (h : Handlers)

mutual

def list (streams : Streams) : List Statement → Observed Int
  | [] => do return (← plainly Act.state).lastStatus
  | statement :: rest => do
    if (← plainly Act.state).exited then return (← plainly Act.state).lastStatus
    else
      let status ← andOr streams statement
      plainly (Act.setState ({ · with lastStatus := status }))
      completed (.statement status)
      list streams rest

def andOr (streams : Streams) : Statement → Observed Int
  | ⟨first, rest, _, _⟩ => do
    let status ← guarded streams (!rest.isEmpty) first
    let (status, counts) ← links streams status (rest.isEmpty && !first.negated) rest
    if status ≠ 0 && counts && (← plainly Act.state).failsOnError then throw (.exit status)
    return status

def links (streams : Streams) (status : Int) (counts : Bool) : List Link → Observed (Int × Bool)
  | [] => return (status, counts)
  | ⟨connector, next⟩ :: rest => do
    let proceed := match connector with
      | .and => status == 0
      | .or => status != 0
    if proceed then
      let status ← guarded streams (!rest.isEmpty) next
      links streams status (rest.isEmpty && !next.negated) rest
    else links streams status false rest

def guarded (streams : Streams) (isTest : Bool) : Pipeline → Observed Int
  | ⟨negated, commands⟩ => do
    let status ← tested (isTest || negated) do
      let status ← match commands with
        | [only] => command streams only
        | commands => stages streams streams.stdin commands
      return if negated then (if status = 0 then 1 else 0) else status
    completed (.pipeline status)
    return status

def stages (streams : Streams) (input : Source) : List Command → Observed Int
  | [] => return 0
  | [last] => isolated .copy (command { streams with stdin := input } last)
  | stage :: rest => do
    let (_, written) ← buffered (isolated .copy
      (command { streams with stdin := input, stdout := .capture } stage))
    stages streams (.bytes written) rest

def command (streams : Streams) : Command → Observed Int
  | .simple assigns words redirects => do
    let arguments ← fields words
    let assigned ← values assigns
    let redirected ← redirections streams redirects
    withStreams streams redirected (perform h arguments assigned)
  | .subshell script redirects => do
    let redirected ← redirections streams redirects
    withStreams streams redirected fun streams => isolated .copy (list streams script)
  | .group script redirects => do
    let redirected ← redirections streams redirects
    withStreams streams redirected fun streams => list streams script

def redirections (streams : Streams) : List Redirect → Observed (Except (String × FileFault) Streams)
  | [] => return .ok streams
  | ⟨fd, kind, target⟩ :: rest => do
    let target ← text target
    match ← plainly (Act.redirect h fd kind target streams) with
    | .ok streams => redirections streams rest
    | .error e => return .error e

def values : List Assign → Observed (List (String × String))
  | [] => return []
  | ⟨name, value⟩ :: rest => do
    let value ← text value
    return (name, value) :: (← values rest)

def fields : List (List Part) → Observed (List String)
  | [] => return []
  | word :: rest => do
    let found ← parts .empty word
    let s ← plainly Act.state
    let arguments := found.finish.flatMap (Field.arguments (← plainly Act.files) s.directory)
    return arguments ++ (← fields rest)

def parts (found : Fields) : List Part → Observed Fields
  | [] => return found
  | .literal text quoted :: rest => parts (found.push text quoted) rest
  | .param name fallback quoted :: rest => do
    let value ← parameter name fallback
    parts (found.pushValue value quoted) rest
  | .subst script quoted :: rest => do
    let value ← substitution fun streams => list streams script
    parts (found.pushValue value quoted) rest

def text : List Part → Observed String
  | [] => return ""
  | .literal t _ :: rest => return t ++ (← text rest)
  | .param name fallback _ :: rest => do
    let value ← parameter name fallback
    return value ++ (← text rest)
  | .subst script _ :: rest => do
    let value ← substitution fun streams => list streams script
    return value ++ (← text rest)

def parameter (name : String) : Option (List Part) → Observed String
  | none => lookup name
  | some fallback => do
    let value ← lookup name
    if value.isEmpty then text fallback else return value

end

def statement (s : Statement) : Observed Unit := fun (w, c) =>
  if w.state.exited then (.ok (), (w, c))
  else
    let (result, (w, c)) := andOr h w.state.streams s (w, c)
    let note (status : Int) : World := { w with state := { w.state with lastStatus := status } }
    match result with
    | .ok status => (.ok (), (note status, { c with history := .statement status :: c.history }))
    | .error (.exit status) =>
      if status = 0 && w.state.exited then (.ok (), (note 0, c))
      else (.error (.exit status), (note status, c))
    | .error e => (.error e, (w, c))

def script : Script → Observed Unit
  | [] => pure ()
  | s :: rest => do
    statement h s
    script rest

end Observed
end Taskwork.Shell
