/-
Paths as text. A path denotes its list of components; `clean` writes a path with the least number
of them, and `resolve` reads the fragments of a task script, where `//x` starts at the project
root, `/x` at the root of the file system and anything else at the directory reached so far.
-/
import Taskwork.Text.Blank

namespace Taskwork

/-- One step of a path. A `.` is a step of its own only where a path begins with it. -/
inductive Component where
  | root
  | here
  | up
  | name (text : String)
  deriving DecidableEq, Repr, Inhabited

/-- How a component is written. -/
def Component.text : Component → String
  | .root => "/"
  | .here => "."
  | .up => ".."
  | .name n => n

namespace Path

/-! ## Components -/

/-- The text between slashes. -/
def pieces (cs : List Char) : List (List Char) := Text.splitOn (· == '/') cs

/-- An empty piece or a `.` leads nowhere. -/
def isIdle (piece : List Char) : Bool := piece == [] || piece == ['.']

/-- The components that pieces after the start of a path stand for. -/
def ofPieces (ps : List (List Char)) : List Component :=
  (ps.filter fun p => !isIdle p).map fun p =>
    if p == ['.', '.'] then .up else .name (String.ofList p)

/-- How a path starts, and the text that follows. -/
def start : List Char → Option Component × List Char
  | '/' :: r => (some .root, r)
  | ['.'] => (some .here, [])
  | '.' :: '/' :: r => (some .here, '/' :: r)
  | cs => (none, cs)

/-- The steps a path stands for, from left to right. -/
def components (path : String) : List Component :=
  let (first, body) := start path.toList
  first.toList ++ ofPieces (pieces body)

/-- A path is absolute when it starts at the root. -/
def isAbsolute (path : String) : Bool := path.toList.head? == some '/'

/-- `b` seen from `a`: an absolute `b` stands for itself, any other is written after `a`. -/
def join (a b : String) : String :=
  if isAbsolute b then b
  else if a == "" || a.toList.getLast? == some '/' then a ++ b
  else a ++ "/" ++ b

/-- The text of a list of components. -/
def ofComponents (cs : List Component) : String :=
  cs.foldl (fun path c => join path c.text) ""

/-- The text of pieces, without idle ones at the end. -/
def ofBody (ps : List (List Char)) : String :=
  String.ofList (['/'].intercalate (Text.dropLastWhile isIdle ps))

/-- The path without its last step, as written; the root and the empty path have none. -/
def parent? (path : String) : Option String :=
  let (first, body) := start path.toList
  let lead := (first.map Component.text).getD ""
  match Text.dropLastWhile isIdle (pieces body) with
  | [] => if first = some .here then some "" else none
  | ps => some (lead ++ ofBody ps.dropLast)

/-- A path and the directories above it, the path first, as far as they are written. -/
def ancestors (path : String) : List String :=
  match parent? path with
  | none => [path]
  | some above =>
    if above.length < path.length then path :: ancestors above else [path]
termination_by path.length

/-- The last component, if it is a name. -/
def fileName? (path : String) : Option String :=
  match (components path).getLast? with
  | some (.name n) => some n
  | _ => none

/-! ## Cleaning -/

/-- Adds one step to a clean path, given with its last step first: `.` goes nowhere, `..` takes
back a name and stays at the root. -/
def cleanStep (steps : List Component) (c : Component) : List Component :=
  match c, steps with
  | .here, _ => steps
  | .up, .name _ :: before => before
  | .up, .root :: _ => steps
  | c, _ => c :: steps

/-- The components left when each `.` is dropped and each `..` takes back the name before it. -/
def cleanComponents (cs : List Component) : List Component :=
  (cs.foldl cleanStep []).reverse

/-- The path written without `.`, without a `..` after a name and without idle slashes; a path
that leads nowhere is written `.`. -/
def clean (path : String) : String :=
  match cleanComponents (components path) with
  | [] => "."
  | cs => ofComponents cs

/-! ## Fragments -/

/-- The directory reached from `at` by one fragment. -/
def enter (projectRoot directory fragment : String) : String :=
  match fragment.toList with
  | '/' :: '/' :: rest => join projectRoot (String.ofList rest)
  | '/' :: rest => "/" ++ String.ofList (rest.dropWhile (· == '/'))
  | _ => join directory fragment

/-- The clean path that a list of fragments leads to from `directory`. -/
def resolve (directory projectRoot : String) (fragments : List String) : String :=
  clean (fragments.foldl (enter projectRoot) directory)

/-! ## Relative paths -/

/-- The longest list that both lists start with. -/
def commonPart {α : Type} [DecidableEq α] : List α → List α → List α
  | a :: as, b :: bs => if a = b then a :: commonPart as bs else []
  | _, _ => []

/-- The way from `base` to `path`, when both start at the same place: up out of what `base` has
alone, then down into what `path` has alone. -/
def relative? (base path : String) : Option String :=
  let b := components base
  let p := components path
  if b.head? ≠ p.head? then none
  else
    let shared := (commonPart b p).length
    let steps := List.replicate (b.length - shared) Component.up ++ p.drop shared
    some (if steps.isEmpty then "." else ofComponents steps)

/-- The text left of `pieces` after `n` steps: what comes before the first step and after the last
one is idle and dropped, what stands between them is kept as written. -/
def dropSteps : Nat → List (List Char) → List (List Char)
  | 0, ps => ps.dropWhile isIdle
  | _ + 1, [] => []
  | n + 1, p :: ps => if isIdle p then dropSteps (n + 1) ps else dropSteps n ps

/-- The rest of `path` below `directory`, as written in `path`. -/
def below? (directory path : String) : Option String :=
  let d := components directory
  let p := components path
  if d.isPrefixOf p then
    let (first, body) := start path.toList
    match first, d.length with
    | none, 0 => some (ofBody (pieces body))
    | some c, 0 => some (c.text ++ ofBody (pieces body))
    | none, n => some (ofBody (dropSteps n (pieces body)))
    | some _, n + 1 => some (ofBody (dropSteps n (pieces body)))
  else none

/-- A path as it is shown: below the project root it is written from there after `//`. -/
def shown (projectRoot path : String) : String :=
  match below? projectRoot path with
  | some rest => "//" ++ rest
  | none => path

end Path

end Taskwork
