/-
What has been done in a run: which tasks are in progress or done, how those that are done ended, and
how many statements were run for them.
-/
import Taskwork.Task.Basic

namespace Taskwork.Execution

/-- How a task ended. -/
inductive Outcome where
  | executed
  | skipped
  | upToDate
  /-- Its commands were shown and not run. -/
  | dryRun
  deriving DecidableEq, Repr, Inhabited

def Outcome.text : Outcome → String
  | .executed => "executed"
  | .skipped => "skipped"
  | .upToDate => "up to date"
  | .dryRun => "dry run"

structure Report where
  /-- The tasks that are done, the first one first. -/
  outcomes : List (String × Outcome)
  statements : Nat
  deriving DecidableEq, Repr, Inhabited

/-- The tasks whose commands were run. -/
def Report.executed (r : Report) : List String :=
  (r.outcomes.filter fun row => row.2 = .executed).map (·.1)

inductive Mark where
  | running
  | done
  deriving DecidableEq, Repr, Inhabited

structure Progress where
  marks : List (String × Mark)
  report : Report
  deriving DecidableEq, Repr, Inhabited

namespace Progress

/-- The progress before anything has been done. -/
def initial : Progress := ⟨[], ⟨[], 0⟩⟩

/-- The mark of a task; one that has not been started has none. -/
def mark? (p : Progress) (name : String) : Option Mark :=
  (p.marks.find? fun row => row.1 == name).map (·.2)

def setMark (p : Progress) (name : String) (m : Mark) : Progress :=
  { p with marks := (name, m) :: p.marks.filter fun row => row.1 != name }

def start (p : Progress) (name : String) : Progress := p.setMark name .running

def finish (p : Progress) (name : String) (outcome : Outcome) : Progress :=
  let p := p.setMark name .done
  { p with report := { p.report with outcomes := p.report.outcomes ++ [(name, outcome)] } }

/-- Counts a statement that was run. -/
def count (p : Progress) : Progress :=
  { p with report := { p.report with statements := p.report.statements + 1 } }

/-- The tasks in progress. -/
def running (p : Progress) : List String :=
  (p.marks.filter fun row => row.2 = .running).map (·.1)

end Progress
end Taskwork.Execution
