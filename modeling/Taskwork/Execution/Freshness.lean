/-
Whether the files of a task make it unnecessary. It is skipped when all files of its skip list
exist, and it is up to date when the newest of its outputs is newer than the newest of its inputs.
-/
import Taskwork.Decimal.Fixed
import Taskwork.Execution.Fault
import Taskwork.Number
import Taskwork.Task.Basic

namespace Taskwork.Execution

/-- The paths that patterns of a task stand for. -/
def pathsOf (fs : Files) (t : Task) (patterns : List String) : Except Fault (List String) :=
  (Glob.pathsOfAll fs t.base patterns).mapError (.pattern t.name)

/-! ## Skipping -/

/-- Whether there is something at each of some paths. -/
def allExist (fs : Files) (task : String) : List String → Except Fault Bool
  | [] => .ok true
  | path :: rest =>
    match fs.stat path with
    | .ok _ => allExist fs task rest
    | .error .notFound => .ok false
    | .error f => .error (.stat task path f)

/-- Whether the skip list of a task stands for any paths, and all of them exist. -/
def isSkipped (fs : Files) (t : Task) : Except Fault Bool := do
  let paths ← pathsOf fs t t.skipIfExists
  if paths.isEmpty then return false else allExist fs t.name paths

/-! ## Staleness -/

/-- When the inputs of a task were changed. Each of them must be there. -/
def inputTimes (fs : Files) (task : String) : List String → Except Fault (List Instant)
  | [] => .ok []
  | path :: rest =>
    match fs.modified path with
    | .ok time => do return time :: (← inputTimes fs task rest)
    | .error f => .error (.input task path f)

/-- When the outputs of a task that are there were changed. -/
def outputTimes (fs : Files) (task : String) : List String → Except Fault (List Instant)
  | [] => .ok []
  | path :: rest =>
    match fs.modified path with
    | .ok time => do return time :: (← outputTimes fs task rest)
    | .error .notFound => outputTimes fs task rest
    | .error f => .error (.stat task path f)

/-- What the times of the files of a task show, in nanoseconds. -/
structure Freshness where
  /-- By how much the newest output is newer than the newest input. -/
  lead : Nat
  /-- By how much the oldest output is older than the newest one. -/
  spread : Nat
  deriving DecidableEq, Repr, Inhabited

namespace Freshness

/-- What there is to see when there are no inputs or no outputs. -/
def none : Freshness := ⟨0, 0⟩

def isUpToDate (f : Freshness) : Bool := 0 < f.lead

/-- What the times of inputs and outputs show. -/
def ofTimes (inputs outputs : List Instant) : Freshness :=
  match inputs.max?, outputs.max?, outputs.min? with
  | some input, some newest, some oldest =>
    ⟨(newest - input).toNat, (newest - oldest).toNat⟩
  | _, _, _ => .none

/-- A stretch of time in seconds. -/
def seconds (nanoseconds : Nat) : Float :=
  Number.toFloat (nanoseconds / 1000000000 : Nat) +
    Number.toFloat (nanoseconds % 1000000000 : Nat) / Number.toFloat 1000000000

/-- What is told of the outputs. Those that are further apart than `threshold` are worth a
warning. -/
def remarks (f : Freshness) (threshold : Nat) : List (Level × String) :=
  (if threshold < f.spread then
    [(.warn, "oldest output is " ++ Decimal.onePlace (seconds f.spread / Number.toFloat 60) ++
      " minutes older than the newest output")]
  else []) ++
  (if f.isUpToDate then
    [(.info, "nothing to do (output is " ++ Decimal.onePlace (seconds f.lead) ++ " seconds newer)")]
  else [])

end Freshness

/-- What the files of a task show. Without inputs its outputs are not looked at. -/
def freshness (fs : Files) (t : Task) : Except Fault Freshness := do
  let inputs ← pathsOf fs t t.inputs
  let outputs ← pathsOf fs t t.outputs
  let inputTimes ← inputTimes fs t.name inputs
  if inputTimes.isEmpty then return .none
  else return .ofTimes inputTimes (← outputTimes fs t.name outputs)

end Taskwork.Execution
