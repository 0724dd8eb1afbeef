/-
Running a command and looking at its substitutions. A command is run in surroundings, which are the streams
that it is given and the redirections of the groups and subshells it stands in; words know the surroundings of
their command, so that each substitution can be noted with the standard error of the command it is evaluated
for, and with the one that it has itself.
-/
import Taskwork.Proofs.Shell.Deliveries

namespace Taskwork.Shell

/-- What a command is run in. -/
structure Surroundings where
  streams : Streams
  /-- The redirections of the commands around it, up to a substitution that it stands in. -/
  redirects : List Redirect

namespace Surroundings

/-- The surroundings in which nothing is redirected yet. -/
def start (streams : Streams) : Surroundings := ⟨streams, []⟩

/-- The surroundings in a command, after its redirections. -/
def within (around : Surroundings) (redirects : List Redirect) (streams : Streams) : Surroundings :=
  ⟨streams, around.redirects ++ redirects⟩

/-- The surroundings of a stage of a pipeline. -/
def reading (around : Surroundings) (input : Source) : Surroundings :=
  { around with streams := { around.streams with stdin := input } }

/-- The surroundings of a stage whose output is piped. -/
def piping (around : Surroundings) (input : Source) : Surroundings :=
  { around with streams := { around.streams with stdin := input, stdout := .capture } }

end Surroundings

/-- A substitution that has been evaluated for a command while the buffer at `depth` was in use. -/
structure Evaluated where
  around : Surroundings
  depth : Nat
  /-- The standard error that its commands are given. They run with a buffer of their own in use. -/
  errors : Sink

/-- The commands of the substitution send their errors where the command does for which it is evaluated. -/
def Evaluated.Shares (e : Evaluated) : Prop := e.errors.place (e.depth + 1) = e.around.streams.stderr.place e.depth

/-- Which buffer is in use, and which substitutions have been evaluated. -/
structure Survey where
  depth : Nat
  evaluated : List Evaluated

/-- Running something and noting its substitutions. -/
abbrev Surveyed (α : Type) := ExceptT Stop (StateM (World × Survey)) α

namespace Surveyed

variable {α : Type}

/-- Does something in which nothing is substituted. -/
def plainly (act : Act α) : Surveyed α := fun (w, survey) =>
  let (result, w) := act w
  (result, (w, survey))

/-- Notes a substitution whose commands are given `errors` for their standard error. -/
def note (around : Surroundings) (errors : Sink) : Surveyed Unit := fun (w, survey) =>
  (.ok (), (w, { survey with evaluated := survey.evaluated ++ [⟨around, survey.depth, errors⟩] }))

def isolated (act : Surveyed Int) : Surveyed Int := fun (w, survey) =>
  let (result, (w', survey)) := act (w, survey)
  let back (status : Int) : World := { w' with state := { w.state with lastStatus := status } }
  match result with
  | .ok status => (.ok status, (back status, survey))
  | .error (.exit status) => (.ok status, (back status, survey))
  | .error e => (.error e, ({ w' with state := w.state }, survey))

def tested (isTest : Bool) (act : Surveyed Int) : Surveyed Int := fun (w, survey) =>
  if isTest then
    let (result, (w', survey)) := act ({ w with state := { w.state with tests := w.state.tests + 1 } }, survey)
    (result, ({ w' with state := { w'.state with tests := w'.state.tests - 1 } }, survey))
  else act (w, survey)

def buffered (act : Surveyed Int) : Surveyed (Int × Bytes) := fun (w, survey) =>
  let (result, (w', survey')) := act ({ w with captured := [] }, { survey with depth := survey.depth + 1 })
  let back := ({ w' with captured := w.captured }, { survey' with depth := survey.depth })
  match result with
  | .ok status => (.ok (status, w'.captured), back)
  | .error e => (.error e, back)

def withStreams (around : Surroundings) (redirects : List Redirect) (streams : Except (String × FileFault) Streams)
    (act : Surroundings → Surveyed Int) : Surveyed Int :=
  match streams with
  | .ok streams => act (around.within redirects streams)
  | .error (path, fault) => do
    plainly (Act.writeText around.streams.stderr (path ++ ": " ++ fault.message ++ "\n"))
    return 1

def substitution (around : Surroundings) (run : Surroundings → Surveyed Int) : Surveyed String := do
  let streams : Streams := ⟨.null, .capture, (← plainly Act.state).streams.stderr⟩
  note around streams.stderr
  let (_, written) ← buffered (isolated do
    plainly (Act.setState ({ · with exited := false }))
    run (.start streams))
  return Act.chomp (Utf8.decodeLossy written)

variable (h : Handlers)

mutual

def list (around : Surroundings) : List Statement → Surveyed Int
  | [] => do return (← plainly Act.state).lastStatus
  | statement :: rest => do
    if (← plainly Act.state).exited then return (← plainly Act.state).lastStatus
    else
      let status ← andOr around statement
      plainly (Act.setState ({ · with lastStatus := status }))
      list around rest

def andOr (around : Surroundings) : Statement → Surveyed Int
  | ⟨first, rest, _, _⟩ => do
    let status ← guarded around (!rest.isEmpty) first
    let (status, counts) ← links around status (rest.isEmpty && !first.negated) rest
    if status ≠ 0 && counts && (← plainly Act.state).failsOnError then throw (.exit status)
    return status

def links (around : Surroundings) (status : Int) (counts : Bool) : List Link → Surveyed (Int × Bool)
  | [] => return (status, counts)
  | ⟨connector, next⟩ :: rest => do
    let proceed := match connector with
      | .and => status == 0
      | .or => status != 0
    if proceed then
      let status ← guarded around (!rest.isEmpty) next
      links around status (rest.isEmpty && !next.negated) rest
    else links around status false rest

def guarded (around : Surroundings) (isTest : Bool) : Pipeline → Surveyed Int
  | ⟨negated, commands⟩ => tested (isTest || negated) do
    let status ← match commands with
      | [only] => command around only
      | commands => stages around around.streams.stdin commands
    return if negated then (if status = 0 then 1 else 0) else status

def stages (around : Surroundings) (input : Source) : List Command → Surveyed Int
  | [] => return 0
  | [last] => isolated (command (around.reading input) last)
  | stage :: rest => do
    let (_, written) ← buffered (isolated (command (around.piping input) stage))
    stages around (.bytes written) rest

def command (around : Surroundings) : Command → Surveyed Int
  | .simple assigns words redirects => do
    let arguments ← fields around words
    let assigned ← values around assigns
    let redirected ← redirections around around.streams redirects
    withStreams around redirects redirected fun within => plainly (Act.perform h arguments assigned within.streams)
  | .subshell script redirects => do
    let redirected ← redirections around around.streams redirects
    withStreams around redirects redirected fun within => isolated (list within script)
  | .group script redirects => do
    let redirected ← redirections around around.streams redirects
    withStreams around redirects redirected fun within => list within script

/-- Redirections of a command. What is substituted in their targets is evaluated for that command. -/
def redirections (around : Surroundings) (streams : Streams) :
    List Redirect → Surveyed (Except (String × FileFault) Streams)
  | [] => return .ok streams
  | ⟨fd, kind, target⟩ :: rest => do
    let target ← text around target
    match ← plainly (Act.redirect h fd kind target streams) with
    | .ok streams => redirections around streams rest
    | .error e => return .error e

def values (around : Surroundings) : List Assign → Surveyed (List (String × String))
  | [] => return []
  | ⟨name, value⟩ :: rest => do
    let value ← text around value
    return (name, value) :: (← values around rest)

def fields (around : Surroundings) : List (List Part) → Surveyed (List String)
  | [] => return []
  | word :: rest => do
    let found ← parts around .empty word
    let s ← plainly Act.state
    let arguments := found.finish.flatMap (Field.arguments (← plainly Act.files) s.directory)
    return arguments ++ (← fields around rest)

def parts (around : Surroundings) (found : Fields) : List Part → Surveyed Fields
  | [] => return found
  | .literal text quoted :: rest => parts around (found.push text quoted) rest
  | .param name fallback quoted :: rest => do
    let value ← parameter around name fallback
    parts around (found.pushValue value quoted) rest
  | .subst script quoted :: rest => do
    let value ← substitution around fun within => list within script
    parts around (found.pushValue value quoted) rest

def text (around : Surroundings) : List Part → Surveyed String
  | [] => return ""
  | .literal t _ :: rest => return t ++ (← text around rest)
  | .param name fallback _ :: rest => do
    let value ← parameter around name fallback
    return value ++ (← text around rest)
  | .subst script _ :: rest => do
    let value ← substitution around fun within => list within script
    return value ++ (← text around rest)

def parameter (around : Surroundings) (name : String) : Option (List Part) → Surveyed String
  | none => return ((← plainly Act.state).parameter? name).getD ""
  | some fallback => do
    let value := ((← plainly Act.state).parameter? name).getD ""
    if value.isEmpty then text around fallback else return value

end

end Surveyed
end Taskwork.Shell
