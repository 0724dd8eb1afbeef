/-
Programs that are looked for on the host: by path if their name has a slash, else in the
directories of `PATH`. A host has `sh`, `cat`, `printf`, `ls` and `kill`; any other file is no
program. A call whose program is not found ends with status 127 and a line that says so. That is
so only if nothing is there: any other fault on the way, of the directory the call is made in, of
the call itself or of the last directory that was searched, is the fault the call fails with.
-/
import Taskwork.Program.Format
import Taskwork.Shell.Interpreter
import Taskwork.Shell.Parser

namespace Taskwork.Program.Native

/-- The directories that hold the programs of the host. -/
def programDirectories : List Route := [["bin"], ["usr", "bin"]]

def programNames : List String := ["sh", "cat", "printf", "ls", "kill"]

def programRoutes : List Route := programDirectories.flatMap fun d => programNames.map fun n => d ++ [n]

/-- The program at a place. -/
def programAt? (r : Route) : Option String := if programRoutes.contains r then r.getLast? else none

/-- The files with the programs of the host among them. -/
def withPrograms (files : Files) : Files :=
  { files with entries := programRoutes.map (fun r => (r, .void)) ++ files.entries }

/-- The program at a path, or why there is none. -/
def atPath (files : Files) (path : String) : Except FileFault String :=
  match (withPrograms files).locate true path with
  | .ok (.found r _) => match programAt? r with
    | some name => .ok name
    | none => .error .permission
  | .ok (.vacant _ _) => .error .notFound
  | .error f => .error f

/-- A path of this many bytes cannot be handed to the system. -/
def maxPathLength : Nat := 4096

def isShort (path : String) : Bool := (Utf8.encode path).length < maxPathLength

/-- Makes sure that a program can start in a directory. -/
def startIn (files : Files) (directory : String) : Except FileFault Unit :=
  if isShort directory then
    match files.stat directory with
    | .ok (.directory _) => .ok ()
    | .ok _ => .error .notADirectory
    | .error f => .error f
  else .error .nameTooLong

/-- Whether a search goes on where one directory had this fault. -/
def isPassedOver : FileFault → Bool
  | .notFound | .notADirectory | .permission => true
  | _ => false

/-- The program at a path that is handed to the system in the directory `start`. -/
def seenFrom (files : Files) (start path : String) : Except FileFault String :=
  if isShort path then atPath files (Path.join start path) else .error .nameTooLong

/-- Looks a program up in some directories, seen from `start`. If it is in none of them the last fault
counts, or that it may not be run where it is. -/
def search (files : Files) (start name : String) (denied : Bool) (last : FileFault) :
    List String → Except FileFault String
  | [] => .error (if denied then .permission else last)
  | d :: rest =>
    match seenFrom files start (Path.join d name) with
    | .ok program => .ok program
    | .error f =>
      if isPassedOver f then search files start name (denied || f == .permission) f rest else .error f

/-- The text between colons. -/
def splitColons (s : String) : List String :=
  (Text.splitOn (· == ':') s.toList).map String.ofList

/-- The directories in which the program of a call is looked up. -/
def searchPath (call : Call) : List String := splitColons ((call.env.get? "PATH").getD "/bin:/usr/bin")

def hasNul (s : String) : Bool := s.toList.contains (Char.ofNat 0)

/-- Whether a call cannot be handed to the system, where a NUL ends each text. -/
def isCutShort (call : Call) : Bool :=
  hasNul call.directory || call.words.any hasNul || call.env.any fun row => hasNul row.1 || hasNul row.2

/-- The program a call is for, or the fault that starting it ends with. -/
def find (files : Files) (call : Call) (name : String) : Except FileFault String :=
  if isCutShort call then .error .nulData
  else match startIn files call.directory with
    | .error f => .error f
    | .ok () =>
      if name.isEmpty then .error .notFound
      else if name.toList.contains '/' then seenFrom files call.directory name
      else search files call.directory name false .notFound (searchPath call)

/-! ## The programs -/

/-- The content of the files that `cat` is asked for. -/
def concatenate (call : Call) (h : Host) : List String → Host × Int × Bytes × Bytes
  | [] => (h, 0, [], [])
  | name :: rest =>
    let (h, found) := if name == "-" then
        match readInput h call.wiring.stdin with
        | .ok (h, input) => (h, Except.ok input)
        | .error f => (h, .error f)
      else (h, h.files.bytesAt (Path.join call.directory name))
    let (h, status, out, err) := concatenate call h rest
    match found with
    | .ok bytes => (h, status, bytes ++ out, err)
    | .error f =>
      let text := String.ofList (f.message.toList.takeWhile (· != '('))
      (h, 1, out, Utf8.encode ("cat: " ++ name ++ ": " ++ Text.trimEnd text ++ "\n") ++ err)

/-- The names that `ls` shows. -/
def listing (call : Call) (h : Host) (args : List String) : Bytes :=
  let directories := if args.isEmpty then ["."] else args
  Utf8.encode (String.join (directories.flatMap fun d =>
    match h.files.list (Path.join call.directory d) with
    | .ok names => ((names.filter fun n => n.toList.head? != some '.').mergeSort Glob.textLe).map
        (· ++ "\n")
    | .error _ => []))

/-- The number of a signal. -/
def signal? (text : String) : Option Nat :=
  match text with
  | "TERM" => some 15
  | "KILL" => some 9
  | "INT" => some 2
  | "HUP" => some 1
  | _ => Text.decimal? text.toList

/-- The signal that `kill` sends. -/
def killSignal (args : List String) : Nat :=
  match args with
  | first :: _ =>
    match first.toList with
    | '-' :: name => (signal? (String.ofList name)).getD 15
    | _ => 15
  | [] => 15

/-- The streams of a script that is run as a program. Errors that are to be captured go to a file
of their own. -/
def scriptStreams (h : Host) (wiring : Wiring) : Host × Shell.Streams × Option Nat :=
  let stdin := match wiring.stdin with
    | .null => Shell.Source.null
    | .inherit => .inherit
    | .bytes content => .bytes content
    | .file handle => .file handle
  let output := match wiring.stdout with
    | .inherit => Shell.Sink.stdout
    | .null => .null
    | .capture => .capture
    | .file handle => .file handle
  match wiring.stderr with
  | .inherit => (h, ⟨stdin, output, .stderr⟩, none)
  | .null => (h, ⟨stdin, output, .null⟩, none)
  | .file handle => (h, ⟨stdin, output, .file handle⟩, none)
  | .capture =>
    let n := h.files.contents.length
    let files := { h.files with contents := h.files.contents ++ [Content.mk [] h.files.clock] }
    let (files, handle) := files.handOut (.file n 0 true)
    ({ h with files }, ⟨stdin, output, .file handle⟩, some n)

/-- Runs a script as a program of its own. -/
def runScript (exec : Call → Host → Host × Except Failure Outcome) (call : Call) (h : Host)
    (source : String) : Host × Outcome :=
  let (h, streams, errors) := scriptStreams h call.wiring
  let state := { Shell.State.initial call.directory with exported := call.env, streams }
  let errorsOf (h : Host) : Bytes := match errors with
    | some n => (h.files.content n).bytes
    | none => []
  let say (w : Shell.World) (text : String) : Shell.World :=
    (Shell.Act.writeText streams.stderr text w).2
  let w : Shell.World := ⟨state, [], h⟩
  let (w, status) : Shell.World × Int := match Shell.Script.ofString source with
    | .error e => (say w ("sh: " ++ toString e.line ++ ": Syntax error: " ++ e.fault.message ++ "\n"), 2)
    | .ok script =>
      match Shell.Run.script ⟨exec, Shell.Handlers.openDirect⟩ script w with
      | (.ok (), w) => (w, w.state.lastStatus % 256)
      | (.error (.exit n), w) =>
        if n < 0 then (say w ("sh: 1: exit: Illegal number: " ++ toString n ++ "\n"), 2)
        else (w, n % 256)
      | (.error (.failure f), w) => match f.cause with
        | .killed n => (w, 128 + n)
        | .file _ | .refused => (w, 126)
  (w.host, ⟨status, w.captured, errorsOf w.host⟩)

/-- Looks a program up for a script. It tries all directories; if the program is in none of them the last
fault counts that says more than that. -/
def searchInScript (files : Files) (start name : String) (last : FileFault) : List String → Except FileFault String
  | [] => .error last
  | d :: rest =>
    match atPath files (Path.join (Path.join start d) name) with
    | .ok program => .ok program
    | .error f => searchInScript files start name (if f matches .notFound | .notADirectory then last else f) rest

def findInScript (files : Files) (call : Call) (name : String) : Except FileFault String :=
  if name.toList.contains '/' then atPath files (Path.join call.directory name)
  else searchInScript files call.directory name .notFound (searchPath call)

/-- What a script says of a program that it cannot run. -/
def refusal (name : String) (fault : FileFault) : String :=
  let reason := if fault matches .notFound | .notADirectory then "not found"
    else Text.trimEnd (String.ofList (fault.message.toList.takeWhile (· != '(')))
  "sh: 1: " ++ name ++ ": " ++ reason ++ "\n"

/-- The status of such a program: it is another one where there is something that may not be run. -/
def refusalStatus (name : String) (fault : FileFault) : Int :=
  if name.toList.contains '/' && !(fault matches .notFound | .notADirectory | .tooManyLinks | .nameTooLong) then 126
  else 127

/-- Runs a program that has been found. Scripts may call scripts to a given depth. -/
def run (depth : Nat) (program : String) (args : List String) (call : Call) (h : Host) :
    Host × Except Failure Outcome :=
  let done (h : Host) (status : Int) (out err : Bytes) : Host × Except Failure Outcome :=
    let (h, o) := finish h call.wiring status out err
    (h, .ok o)
  match program with
  | "cat" =>
    let (h, status, out, err) := concatenate call h (if args.isEmpty then ["-"] else args)
    done h status out err
  | "printf" => done h 0 (Format.printf args) []
  | "ls" => done h 0 (listing call h args) []
  | "kill" => (h, .error ⟨"kill", .killed (killSignal args)⟩)
  | _ =>
    match depth, args with
    | depth + 1, "-c" :: source :: _ =>
      let inner (call : Call) (h : Host) : Host × Except Failure Outcome :=
        match call.words with
        | [] => (h, .ok ⟨0, [], []⟩)
        | name :: args => match findInScript h.files call name with
          | .ok program => run depth program args call h
          | .error f =>
            let (h, o) := finish h call.wiring (refusalStatus name f) [] (Utf8.encode (refusal name f))
            (h, .ok o)
      let (h, o) := runScript inner call h source
      (h, .ok o)
    | _, _ => done h 0 [] []
termination_by depth

/-- How deep scripts may call scripts. -/
def maxDepth : Nat := 16

/-- Looks for the program of a call and runs it. That it is not there is said where its errors are
captured, or else on the errors of the process. -/
def exec (call : Call) (h : Host) : Host × Except Failure Outcome :=
  match call.words with
  | [] => let (h, o) := finish h call.wiring 0 [] []; (h, .ok o)
  | name :: args =>
    match find h.files call name with
    | .ok program => run maxDepth program args call h
    | .error .notFound =>
      let line := Utf8.encode (name ++ ": command not found\n")
      if call.wiring.stderr = .capture then (h, .ok ⟨127, [], line⟩)
      else (h.printErr line, .ok ⟨127, [], []⟩)
    | .error f => (h, .error ⟨name, .file f⟩)

end Taskwork.Program.Native
