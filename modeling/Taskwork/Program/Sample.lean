/-
A few programs that need no system: they show what a command was called with, or pass its input
on. A host on which only they exist notes every call of a program.
-/
import Taskwork.Program.Call
import Taskwork.Text.Hex
import Taskwork.Text.Integer

namespace Taskwork.Program.Sample

/-- What a program does: its status, output and errors. -/
structure Effect where
  status : Int
  stdout : Bytes
  stderr : Bytes
  deriving DecidableEq, Repr, Inhabited

def prints (text : String) : Effect := ⟨0, Utf8.encode text, []⟩

def line (words : List String) : String := " ".intercalate words ++ "\n"

def inputName : Input → String
  | .null => "null"
  | .inherit => "inherit"
  | .bytes _ => "bytes"
  | .file _ => "file"

def outputName : Output → String
  | .inherit => "inherit"
  | .null => "null"
  | .capture => "capture"
  | .file _ => "file"

def upperByte (b : UInt8) : UInt8 := if 97 ≤ b && b ≤ 122 then b - 32 else b

/-- What a call does that reads nothing. -/
def effect (call : Call) (name : String) (args : List String) : Effect :=
  match name with
  | "args" => prints (String.join (args.map fun a => "[" ++ a ++ "]") ++ "\n")
  | "env" => prints (String.join (args.map fun a => match call.env.get? a with
      | some value => a ++ "=" ++ value ++ "\n"
      | none => a ++ " unset\n"))
  | "dir" => prints (call.directory ++ "\n")
  | "status" =>
    let n := (args.head?.bind fun a => Text.integer? (.signed 32) a.toList).getD 0
    let words := args.drop 1
    ⟨n, if words.isEmpty then [] else Utf8.encode (line words), []⟩
  | "err" => ⟨0, [], Utf8.encode (line args)⟩
  | "both" => ⟨0, Utf8.encode "out\n", Utf8.encode "err\n"⟩
  | "bytes" => ⟨0, args.flatMap fun a => Text.Hex.decode a.toList, []⟩
  | "io" =>
    prints ("stdin=" ++ inputName call.wiring.stdin ++ " stdout=" ++ outputName call.wiring.stdout ++
      " stderr=" ++ outputName call.wiring.stderr ++ "\n")
  | _ => ⟨127, [], Utf8.encode (name ++ ": command not found\n")⟩

/-- What a program makes of its input, for those that read it. -/
def filter? (name : String) : Option (Bytes → Bytes) :=
  match name with
  | "cat" => some id
  | "upper" => some (·.map upperByte)
  | "count" => some fun input => Utf8.encode (toString input.length ++ "\n")
  | _ => none

/-- Runs one of the programs. -/
def exec (call : Call) (h : Host) : Host × Except Failure Outcome :=
  let h := { h with calls := h.calls ++ [call.words] }
  match call.words with
  | [] => let (h, o) := finish h call.wiring 0 [] []; (h, .ok o)
  | name :: args =>
    if name = "spawnfail" then (h, .error ⟨name, .refused⟩)
    else
      match filter? name with
      | some f =>
        let (h, input) := match readInput h call.wiring.stdin with
          | .ok (h, input) => (h, input)
          | .error _ => (h, [])
        let (h, o) := finish h call.wiring 0 (f input) []
        (h, .ok o)
      | none =>
        let e := effect call name args
        let (h, o) := finish h call.wiring e.status e.stdout e.stderr
        (h, .ok o)

end Taskwork.Program.Sample
