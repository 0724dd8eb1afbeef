/-
The functions that every recipe has. Which one is called depends on its name and on the number and
the kinds of the arguments; where none fits there is no function.
-/
import Taskwork.Json.Read
import Taskwork.Recipe.Eval
import Taskwork.Shell.Interpreter

namespace Taskwork.Recipe.Builtin

open Eval

/-! ## Options and tasks -/

def option (o : OptionDeclaration) (pos : Pos) : Eval Value := do
  match (← draft).declareOption o with
  | none => fail .lateOption pos
  | some (d, value) =>
    setDraft d
    return .text value

def task (rows : List (String × Value)) (pos : Pos) : Eval Value := do
  match (← draft).declareTask rows with
  | .error f => fail (.task f) pos
  | .ok (d, t) =>
    setDraft d
    if !t.inputs.isEmpty && t.outputs.isEmpty then
      reportAt .warn pos ("task " ++ t.name ++ ": found inputs but no outputs")
    return .task t

/-! ## Paths -/

def resolve (fragments : List String) : Eval Value := do
  return .path ((← draft).site.resolve fragments)

/-- The texts among which no other value may be. -/
def fragments (index : Nat) : List Value → Except PathFault (List String)
  | [] => .ok []
  | .text s :: rest => do return s :: (← fragments (index + 1) rest)
  | v :: _ => .error (.notText index v.typeName)

/-- The base that is asked for, if there is one. -/
def baseOf : List (String × Value) → Except PathFault (Option String)
  | [] => .ok none
  | (key, v) :: rest =>
    if key = "base" then
      match v.pathOrText? with
      | some path => do return (← baseOf rest).or (some path)
      | none => .error (.badBase v.typeName)
    else .error (.unexpectedKey key)

/-- The path that fragments lead to, seen from the base if there is one. -/
def resolvedPath (site : Site) (parts : List Value) (rows : List (String × Value)) :
    Except PathFault String := do
  if parts.isEmpty then throw .noFragments
  let path := site.resolve (← fragments 0 parts)
  match ← baseOf rows with
  | none => return path
  | some base =>
    let base := site.resolve [base]
    match Path.relative? base path with
    | some path => return path
    | none => throw (.unrelated base path)

def resolvePath (parts : List Value) (rows : List (String × Value)) (pos : Pos) : Eval Value := do
  match resolvedPath (← draft).site parts rows with
  | .ok path => return .path path
  | .error f => fail (.path f) pos

/-- Whether there is something of a kind at a path. -/
def check (name : String) (kind : Files → String → Bool) (v : Value) (pos : Pos) : Eval Value := do
  match v.pathOrText? with
  | none => fail (.notPath name v.typeName) pos
  | some path => return .bool (kind (← files) ((← draft).site.resolve [path]))

/-! ## Environment -/

def getEnv (name : String) : Eval Value := do
  return .text ((← draft).getEnv (← get).host.env name)

def setEnv (name value : String) : Eval Value := do
  setDraft ((← draft).setEnv name value)
  return .bool true

def prependPath (v : Value) (pos : Pos) : Eval Value := do
  match v.pathOrText? with
  | none => fail (.notSearchPath v.typeName) pos
  | some path =>
    let (d, value) := (← draft).prependPath (← get).host.env path
    setDraft d
    return .text value

/-! ## Commands -/

/-- The script of a command that runs in a directory. -/
def sourceOf (directory : String) : Value → Except ExecuteFault String
  | .text source => .ok source
  | .array words => (wordLine directory words).mapError .words
  | v => .error (.badType v.typeName)

/-- What a script writes, or why it fails. -/
def outputOf (h : Shell.Handlers) (script : Shell.Script) (showErrors : Bool) :
    Eval (Except Shell.Stop Bytes) := do
  let m ← get
  let streams : Shell.Streams := ⟨.null, .capture, if showErrors then .stderr else .null⟩
  let state := { Shell.State.initial m.draft.site.directory with
    exported := m.draft.shellEnv m.host.env, errexit := true, streams }
  let (result, w) := Shell.Run.script h.withTools script ⟨state, [], m.host⟩
  set { m with host := w.host }
  return result.map fun _ => w.captured

/-- Runs a command in the directory of the recipe. A command that fails gives `false`, any other
what it writes, read as data if the format says so. -/
def execute (h : Shell.Handlers) (command : Value) (format : String) (showErrors : Bool) (pos : Pos) :
    Eval Value := do
  if format ≠ "text" ∧ format ≠ "json" then fail (.execute (.unknownFormat format)) pos
  match sourceOf (← draft).site.directory command with
  | .error f => fail (.execute f) pos
  | .ok source =>
    match Shell.Script.ofString source with
    | .error e => fail (.execute (.script e)) pos
    | .ok script =>
      match ← outputOf h script showErrors with
      | .error stop =>
        if showErrors then reportAt .error pos ("shell error: " ++ stop.message)
        return .bool false
      | .ok bytes =>
        let output := Utf8.decodeLossy bytes
        if format = "json" then
          let bytes := Utf8.encode output
          match Json.read bytes with
          | .ok v => return .ofJson v
          | .error f => fail (.execute (.notJson bytes f)) pos
        else return .text output

/-! ## Data files -/

/-- The document at a path, which is read once. -/
def document (d : Draft) (fs : Files) (path : String) : Except YamlFault (Draft × Yaml.Node) :=
  match d.documents.find? fun row => row.1 == path with
  | some (_, node) => .ok (d, node)
  | none => do
    let text ← (fs.textAt path).mapError (.unreadable path)
    let node ← (Yaml.read text).mapError (.malformed path)
    return ({ d with documents := (path, node) :: d.documents }, node)

/-- The value under a key of a document, or the one that stands for nothing. -/
def valueIn (node : Yaml.Node) (key : String) (default : Value) : Except YamlFault Value := do
  match ← (node.lookup key).mapError .lookup with
  | none => return default
  | some found => match Value.ofScalar? found with
    | some v => return v
    | none => throw (.notScalar key)

def readYaml (file key : String) (default : Value) (pos : Pos) : Eval Value := do
  let d ← draft
  match document d (← files) (d.site.resolve [file]) with
  | .error f => fail (.yaml f) pos
  | .ok (d, node) =>
    setDraft d
    match valueIn node key default with
    | .ok v => return v
    | .error f => fail (.yaml f) pos

/-! ## Calls -/

/-- What the host is called. -/
def hostSystem : String := "linux"
def hostProcessor : String := "x86_64"

def tell (level : Level) (message : String) (pos : Pos) : Eval Value := do
  reportAt level pos message
  return .unit

def print (text : String) : Eval Value := do
  report .info text
  return .unit

/-- The call of a function with some arguments. -/
def call? (h : Shell.Handlers) (name : String) (args : List Value) (pos : Pos) :
    Option (Eval Value) :=
  match name, args with
  | "option", [.text name, .text default] => some (option ⟨name, default, ""⟩ pos)
  | "option", [.text name, .text default, .text help] => some (option ⟨name, default, help⟩ pos)
  | "task", [.map rows] => some (task rows pos)
  | "resolve_path", [.text a] => some (resolve [a])
  | "resolve_path", [.text a, .text b] => some (resolve [a, b])
  | "resolve_path", [.text a, .text b, .text c] => some (resolve [a, b, c])
  | "resolve_path", [.array parts] => some (resolvePath parts [] pos)
  | "resolve_path", [.array parts, .map rows] => some (resolvePath parts rows pos)
  | "isdir", [v] => some (check "isdir" Files.isDirectory v pos)
  | "isfile", [v] => some (check "isfile" Files.isFile v pos)
  | "getenv", [.text name] => some (getEnv name)
  | "setenv", [.text name, .text value] => some (setEnv name value)
  | "prepend_path", [v] => some (prependPath v pos)
  | "load_vcvars", [] | "load_vcvars", [.text _] => some (return .bool true)
  | "execute", [command] => some (execute h command "text" false pos)
  | "execute", [command, .text format] => some (execute h command format false pos)
  | "execute", [command, .text format, .bool showErrors] =>
    some (execute h command format showErrors pos)
  | "read_yaml", [.text file, .text key, default] => some (readYaml file key default pos)
  | "info", [.text message] => some (tell .info message pos)
  | "warn", [.text message] => some (tell .warn message pos)
  | "error", [.text message] => some (fail (.told message) pos)
  | "host_os", [] => some (return .text hostSystem)
  | "host_arch", [] => some (return .text hostProcessor)
  | "print", [] => some (print "")
  | "print", [v] => some (print v.shown)
  | "to_string", [v] => some (return .text v.shown)
  | "len", [.text s] => some (return .int s.length)
  | "len", [.array items] => some (return .int items.length)
  | "len", [.map rows] => some (return .int rows.length)
  | _, _ => none

end Taskwork.Recipe.Builtin
