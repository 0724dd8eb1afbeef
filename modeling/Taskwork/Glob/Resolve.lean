/-
The paths that patterns stand for, seen from a directory whose name is text and no pattern. A
pattern without wildcards stands for its path, whether anything is there or not; any other for the
paths it matches.
-/
import Taskwork.Glob.Walk

namespace Taskwork.Glob

/-- The text that a pattern without wildcards stands for; a special character alone in brackets
stands for itself. -/
def literalChars? : List Char → Option (List Char)
  | [] => some []
  | '[' :: c :: ']' :: rest => if isSpecial c then (literalChars? rest).map (c :: ·) else none
  | c :: rest =>
    if c == '*' || c == '?' || c == '[' then none else (literalChars? rest).map (c :: ·)

def literal? (pattern : String) : Option String :=
  (literalChars? pattern.toList).map String.ofList

/-- A directory as a pattern that names go on from. -/
def prefixOf (directory : String) : String :=
  let text := escape directory
  let last := text.toList.getLast?
  if last == some '/' || last == some '\\' then text else text ++ "/"

/-- A text that is no pattern, and why. -/
structure InvalidPattern where
  pattern : String
  fault : PatternFault
  deriving DecidableEq, Repr, Inhabited

def InvalidPattern.message (e : InvalidPattern) : String :=
  "failed to resolve pattern " ++ e.pattern ++ ": " ++ e.fault.message

/-- The paths one pattern stands for. -/
def pathsOf (files : Files) (directory pattern : String) : Except InvalidPattern (List String) :=
  match literal? pattern with
  | some path => .ok [Path.join directory path]
  | none =>
    let full := if Path.isAbsolute pattern then pattern else prefixOf directory ++ pattern
    match search files false full with
    | .ok paths => .ok paths
    | .error fault => .error ⟨pattern, fault⟩

/-- The paths some patterns stand for, in their order. -/
def pathsOfAll (files : Files) (directory : String) (patterns : List String) :
    Except InvalidPattern (List String) := do
  return (← patterns.mapM (pathsOf files directory)).flatten

end Taskwork.Glob
