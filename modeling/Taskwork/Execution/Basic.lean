/-
Running tasks. A task is run after its dependencies, unless its files make it unnecessary, and once
in a run. The tasks among its commands are run in their place, and find what was run before them
done. A task that is needed while it is in progress is a fault.
-/
import Taskwork.Execution.Freshness
import Taskwork.Execution.Progress
import Taskwork.Shell.Interpreter
import Taskwork.Task.Registry

namespace Taskwork.Execution

structure Settings where
  /-- Whether commands are shown and not run. -/
  dryRun : Bool
  /-- Whether the task asked for, and the tasks in it, are run whatever their files show. -/
  force : Bool
  /-- How far apart outputs may be without a warning, in nanoseconds. -/
  spread : Nat
  deriving DecidableEq, Repr, Inhabited

/-- Ten minutes. -/
def Settings.defaultSpread : Nat := 600 * 1000000000

structure World where
  progress : Progress
  host : Host
  deriving Inhabited

/-- Doing something in a run: it ends well or with a fault, and changes the world. -/
abbrev Act (α : Type) := ExceptT Fault (StateM World) α

namespace Act

def files : Act Files := do return (← get).host.files

def progress : Act Progress := do return (← get).progress

def advance (f : Progress → Progress) : Act Unit :=
  modify fun w => { w with progress := f w.progress }

def report (level : Level) (message : String) : Act Unit :=
  modify fun w => { w with host := w.host.report level message }

def reportAll (messages : List (Level × String)) : Act Unit :=
  messages.forM fun row => report row.1 row.2

end Act

/-! ## Commands -/

/-- The environment of the commands of a task: that of the process, in which the entries of the
registry count before its own, and those of the task before both. -/
def environment (processEnv registryEnv : Table) (t : Task) : Table :=
  (registryEnv ++ t.env).foldl (fun env row => env.insert row.1 row.2) processEnv

/-- The state in which the commands of a task begin. -/
def initialState (processEnv registryEnv : Table) (t : Task) : Shell.State :=
  { Shell.State.initial t.base with
    exported := environment processEnv registryEnv t
    errexit := true
    streams := ⟨.inherit, .stdout, .stderr⟩ }

variable (h : Shell.Handlers) (s : Settings)

/-- Runs the statements of a script, each of which is shown first, up to an exit. -/
def statements (t : Task) : Shell.Script → Shell.State → Act Shell.State
  | [], state => return state
  | statement :: rest, state => do
    Act.report .info statement.text
    if s.dryRun then statements t rest state
    else
      let w ← get
      let (result, sw) := Shell.Run.statement h statement ⟨state, [], w.host⟩
      set { w with host := sw.host }
      match result with
      | .error stop => throw (.command t.name (.stopped stop))
      | .ok () =>
        Act.advance (·.count)
        if sw.state.exited then return sw.state else statements t rest sw.state

/-- The commands of a task from the one at `index` on, up to an exit. -/
def commands (run : Task → Act Unit) (t : Task) (index : Nat) :
    List TaskCommand → Shell.State → Act Unit
  | [], _ => return
  | .script source :: rest, state => do
    match Shell.Script.ofString source with
    | .error e => throw (.command t.name (.script (t.name ++ ":" ++ toString index) e))
    | .ok script =>
      let state ← statements h s t script state
      if state.exited then return else commands run t (index + 1) rest state
  | .task sub :: rest, state => do
    run sub
    commands run t (index + 1) rest state

/-! ## Tasks -/

variable (r : Registry)

/-- Runs the dependencies of a task that are not done. -/
def dependencies (run : Task → Act Unit) (t : Task) : List String → Act Unit
  | [] => return
  | name :: rest => do
    if (← Act.progress).mark? name = some .done then dependencies run t rest
    else
      match r.get? name with
      | none => throw (.notFound name)
      | some dependency =>
        ExceptT.adapt (.dependency t.name name) (run dependency)
        dependencies run t rest

/-- The outcome that the files of a task give it, if they make it unnecessary. -/
def settled (t : Task) : Act (Option Outcome) := do
  if ← liftExcept (isSkipped (← Act.files) t) then
    Act.report .info "skipped because all skip files exist"
    return some .skipped
  else
    let f ← liftExcept (freshness (← Act.files) t)
    Act.reportAll (f.remarks s.spread)
    return if f.isUpToDate then some .upToDate else none
where
  liftExcept {α : Type} (e : Except Fault α) : Act α := fun w => (e, w)

/-- Runs the commands of a task, and says so. -/
def body (run : Task → Act Unit) (t : Task) : Act Outcome := do
  commands h s run t 0 t.cmds (initialState (← get).host.env r.env t)
  return if s.dryRun then .dryRun else .executed

/-- Runs a task; how the tasks it needs are run is given. -/
def taskWith (run : (force : Bool) → Task → Act Unit) (force : Bool) (t : Task) : Act Unit := do
  Act.advance (·.start t.name)
  dependencies r (run false) t t.deps
  let outcome ← match ← (if force then pure none else settled s t) with
    | some outcome => pure outcome
    | none => body h s r (run force) t
  Act.advance (·.finish t.name outcome)

/-- Runs a task that has not been started, in not more than so many levels of tasks that need each
other. -/
def taskAt : Nat → (force : Bool) → Task → Act Unit
  | level, force, t => do
    match (← Act.progress).mark? t.name with
    | some .done => return
    | some .running => throw (.recursive t.name)
    | none =>
      match level with
      | 0 => throw (.recursive t.name)
      | level + 1 => taskWith h s r (taskAt level) force t

/-- The number of tasks in a registry, those in other tasks included. Of more tasks in progress
than that, two would have one name. -/
def maxLevels (r : Registry) : Nat := Task.sizeOfAll r.tasks

/-- Runs the task of a name and what it needs. -/
def run (name : String) (host : Host) : Host × Except Fault Report :=
  match r.get? name with
  | none => (host, .error (.notFound name))
  | some t =>
    match taskAt h.withTools s r (maxLevels r) s.force t ⟨.initial, host⟩ with
    | (.ok (), w) => (w.host, .ok w.progress.report)
    | (.error f, w) => (w.host, .error f)

end Taskwork.Execution
