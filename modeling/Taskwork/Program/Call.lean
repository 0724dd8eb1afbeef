/-
Calls of programs: where a program finds its input, where its output and its errors go, and what
comes back. Output that is to be captured comes back with the outcome; all other is delivered when
it is written.
-/
import Taskwork.Host

namespace Taskwork.Program

/-- Where a program reads from. -/
inductive Input where
  | null
  | inherit
  | bytes (content : Bytes)
  | file (handle : Nat)
  deriving DecidableEq, Repr, Inhabited

/-- Where one of the streams of a program goes. -/
inductive Output where
  | inherit
  | null
  | capture
  | file (handle : Nat)
  deriving DecidableEq, Repr, Inhabited

structure Wiring where
  stdin : Input
  stdout : Output
  stderr : Output
  deriving DecidableEq, Repr, Inhabited

/-- A program with its arguments, the directory it runs in and its environment. -/
structure Call where
  directory : String
  env : Table
  words : List String
  wiring : Wiring
  deriving Inhabited

/-- The status a program ended with, and its captured output and errors. -/
structure Outcome where
  status : Int
  stdout : Bytes
  stderr : Bytes
  deriving DecidableEq, Repr, Inhabited

/-- Why a program was not run to its end. -/
inductive Cause where
  | file (fault : FileFault)
  | refused
  | killed (signal : Nat)
  deriving DecidableEq, Repr, Inhabited

def Cause.message : Cause → String
  | .file fault => fault.message
  | .refused => "refused"
  | .killed signal => "killed by signal " ++ toString signal

structure Failure where
  command : String
  cause : Cause
  deriving DecidableEq, Repr, Inhabited

def Failure.message (f : Failure) : String :=
  "failed to run " ++ f.command ++ ": " ++ f.cause.message

/-- Delivers what was written to a stream, and gives back what of it is captured. -/
def deliver (h : Host) (print : Host → Bytes → Host) (output : Output) (bytes : Bytes) : Host × Bytes :=
  match output with
  | .inherit => (print h bytes, [])
  | .null => (h, [])
  | .capture => (h, bytes)
  | .file handle => (h.writeTo handle bytes, [])

/-- Ends a program that wrote its output and errors in one piece. -/
def finish (h : Host) (wiring : Wiring) (status : Int) (stdout stderr : Bytes) : Host × Outcome :=
  let (h, out) := deliver h Host.printOut wiring.stdout stdout
  let (h, err) := deliver h Host.printErr wiring.stderr stderr
  (h, ⟨status, out, err⟩)

/-- What a program finds on its input. The input of the process itself is empty. -/
def readInput (h : Host) : Input → Except FileFault (Host × Bytes)
  | .null | .inherit => .ok (h, [])
  | .bytes content => .ok (h, content)
  | .file handle => (h.files.readRest handle).map fun (files, bytes) => ({ h with files }, bytes)

end Taskwork.Program
