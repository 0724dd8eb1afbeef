/-
Finding the paths that a pattern matches. The pattern is taken apart at its slashes; a part
without wildcards is looked up by name, any other is compared with the names in a directory, in
their order. Each path found is written as the walk went: the root, then a name for each part.
-/
import Taskwork.Files.Basic
import Taskwork.Glob.Literal
import Taskwork.Glob.Pattern

namespace Taskwork.Glob

/-- The order of texts. -/
def textLe (a b : String) : Bool := !(b < a)

/-- What a walk is about. -/
structure Search where
  files : Files
  /-- Names that start with a dot are not listed. -/
  dots : Bool
  /-- Only directories are results. -/
  onlyDirectories : Bool

namespace Search

/-- Whether a path is the directory that a relative search starts from. -/
def isStart (path : String) : Bool := Path.components path == [.here]

def step (path name : String) : String := if isStart path then name else Path.join path name

/-- Whether something is at a path, be it a link that leads nowhere. -/
def isThere (s : Search) (path : String) : Bool := s.files.exists? path || (s.files.statLink path).isOk

/-- The names to compare with a pattern, in order. -/
def listed (s : Search) (path : String) : List String :=
  match s.files.list path with
  | .ok names =>
    (names.filter fun n => !(s.dots && n.toList.head? == some '.')).mergeSort textLe
  | .error _ => []

/-- A path that matches the whole pattern, if it may be a result. -/
def result (s : Search) (path : String) : List String :=
  if s.onlyDirectories && !s.files.isDirectory path then [] else [path]

/-- The parts after those for any directories. -/
def afterRecursive : List Pattern → List Pattern
  | p :: ps => if p.isRecursive then afterRecursive ps else p :: ps
  | [] => []

mutual

/-- The paths below a directory that match some parts of a pattern. No path has more than `depth`
names below it. -/
def below (s : Search) (depth : Nat) (parts : List Pattern) (path : String) : List String :=
  match depth, parts with
  | 0, _ => []
  | _, [] => s.result path
  | depth + 1, p :: rest =>
    match p.text? with
    | some name =>
      let next := step path name
      let special := name == "." || name == ".."
      if (if special then s.files.isDirectory path else s.isThere next) then
        s.below depth rest next
      else []
    | none =>
      if s.files.isDirectory path then
        let specials :=
          if p.tokens.head? == some (.char '.') then
            ["..", "."].filter (p.matches s.dots ·)
          else []
        specials.flatMap (fun name => s.below depth rest (Path.join path name)) ++
          (s.listed path).flatMap fun name => s.atName depth (p :: rest) name (step path name)
      else []

/-- The paths from one name in a directory on that match some parts of a pattern. -/
def atName (s : Search) (depth : Nat) (parts : List Pattern) (name path : String) : List String :=
  match depth with
  | 0 => []
  | depth + 1 =>
    match parts with
    | [] => []
    | p :: rest =>
      if p.isRecursive then
        let isDir := s.files.isDirectory path
        match afterRecursive rest with
        | [] => if isDir then s.result path ++ s.below depth [p] path else []
        | q :: rest =>
          (if q.matches s.dots name then
            if rest.isEmpty then s.result path else s.below depth rest path
          else []) ++
          (if isDir then s.below depth (p :: q :: rest) path else [])
      else if p.matches s.dots name then
        if rest.isEmpty then s.result path else s.below depth rest path
      else []

end

end Search

/-- The parts of a pattern. -/
def partsOf (cs : List Char) : Except PatternFault (List Pattern) :=
  let pieces := Path.pieces cs
  let pieces := if pieces.getLast? == some [] then pieces.dropLast else pieces
  pieces.mapM Pattern.ofChars

/-- More names than a path can have: it passes a bounded number of links, and goes down between
them and between the parts of the pattern. -/
def depthOf (files : Files) (parts : List Pattern) : Nat :=
  2 * (parts.length + 2) * (Files.maxLinks + 2) * (files.entries.length + 2)

/-- The paths a pattern matches. -/
def search (files : Files) (dots : Bool) (pattern : String) : Except PatternFault (List String) := do
  let _ ← Pattern.ofString pattern
  let cs := pattern.toList
  let (start, body) := match cs with
    | '/' :: rest => ("/", rest)
    | _ => (".", cs)
  let parts ← partsOf body
  let parts := if body.isEmpty then [⟨[]⟩] else parts
  let s : Search := ⟨files, dots, cs.getLast? == some '/'⟩
  return s.below (depthOf files parts) parts start

end Taskwork.Glob
