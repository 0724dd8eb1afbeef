/-
Commands of a task as a recipe gives them: a shell script, a list of words, or a task. A list of
words becomes a script that calls the first word with the others; each word is quoted, so that it
reaches the command as it is, and `NAME=value` words at the start become assignments.
-/
import Taskwork.Path
import Taskwork.Recipe.Value
import Taskwork.Shell.Parser
import Taskwork.Shell.Quoted

namespace Taskwork.Recipe

/-- What is wrong with a list of words. -/
inductive WordFault where
  | empty
  | badType (type : String)
  deriving DecidableEq, Repr, Inhabited

def WordFault.message : WordFault → String
  | .empty => "empty word list in cmds"
  | .badType type =>
    "found argument of type " ++ type ++ " but only strings and paths are supported"

/-- The name and value of a word that is an assignment. -/
def assignment? (word : String) : Option (String × String) :=
  let name := word.toList.takeWhile (· != '=')
  match word.toList.dropWhile (· != '=') with
  | '=' :: value =>
    if Shell.Cursor.isName name then some (String.ofList name, String.ofList value) else none
  | _ => none

/-- A path as a word of a command that runs in `base`. -/
def pathWord (base path : String) : String :=
  if Path.isAbsolute path then (Path.relative? base path).getD path else path

/-- The quoted words; assignments are possible as long as `leading`. -/
def quotedWords (base : String) (leading : Bool) : List Value → Except WordFault (List String)
  | [] => .ok []
  | .text s :: rest =>
    match if leading then assignment? s else none with
    | some (name, value) => do
      return (name ++ "=" ++ Shell.quote value) :: (← quotedWords base true rest)
    | none => do return Shell.quote s :: (← quotedWords base false rest)
  | .path p :: rest => do
    return Shell.quote (pathWord base p) :: (← quotedWords base false rest)
  | v :: _ => .error (.badType v.typeName)

/-- The script that calls a list of words in the directory `base`. -/
def wordLine (base : String) (words : List Value) : Except WordFault String :=
  if words.isEmpty then .error .empty
  else do return " ".intercalate (← quotedWords base true words)

/-- What is wrong with a command of a task. -/
inductive CommandFault where
  | words (f : WordFault)
  /-- The script of a name does not parse. -/
  | script (name source : String) (e : Shell.SyntaxError)
  | badType (type : String)
  deriving DecidableEq, Repr, Inhabited

def CommandFault.message : CommandFault → String
  | .words f => f.message
  | .script name source e => "failed to parse command " ++ source ++ ": " ++ e.message name
  | .badType type =>
    "unexpected type " ++ type ++ " in cmds, only strings, word lists and tasks are valid"

/-- A script as a command, if it parses. -/
def checkedScript (name source : String) : Except CommandFault TaskCommand :=
  match Shell.Script.ofString source with
  | .ok _ => .ok (.script source)
  | .error e => .error (.script name source e)

/-- One command of a task whose commands run in `base`. -/
def commandOf (name base : String) : Value → Except CommandFault TaskCommand
  | .text source => checkedScript name source
  | .array words =>
    match wordLine base words with
    | .ok source => checkedScript name source
    | .error f => .error (.words f)
  | .task t => .ok (.task t)
  | v => .error (.badType v.typeName)

/-- The commands of the task `name`, from the one at `index` on. -/
def commandsFrom (name base : String) (index : Nat) :
    List Value → Except CommandFault (List TaskCommand)
  | [] => .ok []
  | v :: rest => do
    let c ← commandOf (name ++ ":" ++ toString index) base v
    return c :: (← commandsFrom name base (index + 1) rest)

/-- The commands of the task `name`, which run in `base`. -/
def commandsOf (name base : String) (cmds : List Value) : Except CommandFault (List TaskCommand) :=
  commandsFrom name base 0 cmds

end Taskwork.Recipe
