/-
Fields: the arguments that the expansion of a word yields. An unquoted expansion is cut at blanks;
a piece counts as a field if it holds any text or any quoted part, even an empty one. A field with
an unquoted wildcard stands for the paths it matches, if there are any.
-/
import Taskwork.Glob.Walk

namespace Taskwork.Shell

/-- A field with its stretches of text and whether each is quoted. -/
structure Field where
  segments : List (String × Bool)
  deriving DecidableEq, Repr, Inhabited

namespace Field

def empty : Field := ⟨[]⟩

def push (f : Field) (text : String) (quoted : Bool) : Field := ⟨f.segments ++ [(text, quoted)]⟩

/-- Whether the field is one, and not just nothing between two blanks. -/
def isPresent (f : Field) : Bool := f.segments.any fun s => s.2 || !s.1.isEmpty

def text (f : Field) : String := String.join (f.segments.map (·.1))

/-- Whether a wildcard stands in the field unquoted. -/
def hasWildcard (f : Field) : Bool :=
  f.segments.any fun s => !s.2 && s.1.toList.any fun c => c == '*' || c == '?' || c == '['

/-- The field as a pattern in which quoted text stands for itself. -/
def pattern (f : Field) : String :=
  String.join (f.segments.map fun s => if s.2 then Glob.escape s.1 else s.1)

/-- The directory a relative pattern starts from, as a pattern. -/
def patternPrefix (directory : String) : String :=
  let text := Glob.escape directory
  let last := text.toList.getLast?
  if last == some '/' || last == some '\\' then text else text ++ "/"

/-- The arguments a field stands for in a directory: the paths it matches, in order, or its text
if there are none. Names that start with a dot are not matched. -/
def arguments (files : Files) (directory : String) (f : Field) : List String :=
  if !f.hasWildcard then [f.text]
  else
    let relative := !Path.isAbsolute f.text
    let start := if relative then patternPrefix directory else ""
    let paths := (Glob.search files true (start ++ f.pattern)).toOption.getD []
    let shown := paths.map fun p => if relative then (Path.below? directory p).getD p else p
    if shown.isEmpty then [f.text] else shown.mergeSort Glob.textLe

end Field

/-- The fields of a word so far, of which the last one may go on. -/
structure Fields where
  done : List Field
  current : Field
  deriving DecidableEq, Repr, Inhabited

namespace Fields

def empty : Fields := ⟨[], .empty⟩

/-- Adds text that belongs to the current field. -/
def push (fs : Fields) (text : String) (quoted : Bool) : Fields :=
  { fs with current := fs.current.push text quoted }

/-- Ends the current field. -/
def cut (fs : Fields) : Fields :=
  ⟨if fs.current.isPresent then fs.done ++ [fs.current] else fs.done, .empty⟩

/-- The characters at which an unquoted expansion is cut. -/
def isSeparator (c : Char) : Bool := c == ' ' || c == '\t' || c == '\n'

/-- Adds text that comes from an unquoted expansion. -/
def pushSplit (fs : Fields) (text : String) : Fields :=
  match Text.splitOn isSeparator text.toList with
  | [] => fs
  | first :: more =>
    let add (fs : Fields) (piece : List Char) :=
      if piece.isEmpty then fs else fs.push (String.ofList piece) false
    more.foldl (fun fs piece => add fs.cut piece) (add fs first)

/-- Adds the value of a parameter or substitution. -/
def pushValue (fs : Fields) (value : String) (quoted : Bool) : Fields :=
  if quoted then fs.push value true else fs.pushSplit value

/-- All fields of the word. -/
def finish (fs : Fields) : List Field := fs.cut.done

end Fields
end Taskwork.Shell
