/-
What the commands of a project run on: the files, the environment of the process, what it has
written to its output and error streams, and the commands it has been asked to run.
-/
import Taskwork.Files.Open
import Taskwork.Table

namespace Taskwork

/-- How much a message matters. -/
inductive Level where
  | error
  | warn
  | info
  deriving DecidableEq, Repr, Inhabited

structure Host where
  files : Files
  /-- The environment of the process itself. -/
  env : Table
  stdout : Bytes
  stderr : Bytes
  /-- The commands asked for, as lists of words, the first one first. -/
  calls : List (List String)
  /-- The messages about what is done, the first one first. -/
  log : List (Level × String)
  deriving Inhabited

namespace Host

/-- A host on which nothing has happened yet. -/
def ofFiles (files : Files) (env : Table) : Host := ⟨files, env, [], [], [], []⟩

def printOut (h : Host) (bytes : Bytes) : Host := { h with stdout := h.stdout ++ bytes }

def printErr (h : Host) (bytes : Bytes) : Host := { h with stderr := h.stderr ++ bytes }

def writeTo (h : Host) (handle : Nat) (bytes : Bytes) : Host :=
  { h with files := h.files.writeTo handle bytes }

def report (h : Host) (level : Level) (message : String) : Host :=
  { h with log := h.log ++ [(level, message)] }

end Host
end Taskwork
