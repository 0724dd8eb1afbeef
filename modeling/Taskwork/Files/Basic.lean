/-
A tree of files. Each place is named by its route, the names from the root down to it, and holds a
directory, a symbolic link or a file; the bytes of a file are kept apart from its place, so that
moving or removing it does not disturb who has it open, and a file may have several places. Paths
are found by walking over their names, where links lead on to the place their text names.
-/
import Taskwork.Files.Fault
import Taskwork.Path
import Taskwork.Text.Utf8

namespace Taskwork

/-- The names from the root down to a place. -/
abbrev Route := List String

/-- A point in time, in nanoseconds. -/
abbrev Instant := Int

/-- What is at a place. -/
inductive Entry where
  | directory (changed : Instant)
  | file (content : Nat)
  | link (target : String)
  /-- A device that holds nothing and forgets what is written to it. -/
  | void
  deriving DecidableEq, Repr, Inhabited

/-- Whether two entries are names of one file: they have the same content. -/
def Entry.isSameFile : Entry → Entry → Bool
  | .file m, .file n => m == n
  | _, _ => false

/-- The bytes of a file and when they were last changed. -/
structure Content where
  bytes : Bytes
  changed : Instant
  deriving DecidableEq, Repr, Inhabited

/-- What an open file reads from or writes to. -/
inductive Opened where
  | file (content : Nat) (offset : Nat) (atEnd : Bool)
  | directory
  | void
  deriving DecidableEq, Repr, Inhabited

structure Files where
  entries : List (Route × Entry)
  contents : List Content
  /-- The open files, by number. Those who hold one number share its offset. -/
  opened : List Opened
  clock : Instant
  /-- The directory that relative paths start from. -/
  here : Route
  deriving DecidableEq, Repr, Inhabited

namespace Files

/-- The tree of an empty root directory. -/
def empty (clock : Instant) : Files := ⟨[([], .directory clock)], [], [], clock, []⟩

/-! ## Places -/

def entry? (fs : Files) (r : Route) : Option Entry :=
  (fs.entries.find? fun row => row.1 == r).map (·.2)

/-- Whether `r` lies strictly below `top`. -/
def isBelow (top r : Route) : Bool := top.isPrefixOf r && top != r

/-- The names in a directory. -/
def names (fs : Files) (r : Route) : List String :=
  fs.entries.filterMap fun row => match row.1.getLast? with
    | some n => if row.1.dropLast == r then some n else none
    | none => none

/-- Time goes on. -/
def tick (fs : Files) : Files := { fs with clock := fs.clock + 1 }

/-- Puts an entry at a place, in place of what was there. -/
def put (fs : Files) (r : Route) (e : Entry) : Files :=
  if (fs.entry? r).isSome then
    { fs with entries := fs.entries.map fun row => if row.1 == r then (r, e) else row }
  else { fs with entries := fs.entries ++ [(r, e)] }

/-- Takes away the entries of the places satisfying `gone`. -/
def drop (fs : Files) (gone : Route → Bool) : Files :=
  { fs with entries := fs.entries.filter fun row => !gone row.1 }

/-- Notes that the names in a directory have changed. -/
def touch (fs : Files) (r : Route) : Files :=
  match fs.entry? r with
  | some (.directory _) => fs.put r (.directory fs.clock)
  | _ => fs

/-! ## Walking -/

/-- The names of a path; a slash at the end asks for a directory, as a `.` there does. -/
def namesOf (path : String) : List String :=
  let ps := (Path.pieces path.toList).filter (· ≠ [])
  let names := ps.map String.ofList
  if path.toList.getLast? == some '/' && !names.isEmpty then names ++ ["."] else names

/-- Where a path ends. -/
inductive Place where
  | found (route : Route) (entry : Entry)
  | vacant (directory : Route) (name : String)
  deriving DecidableEq, Repr, Inhabited

/-- The number of links a walk may pass. -/
def maxLinks : Nat := 40

/-- A name longer than this cannot be looked up. -/
def maxNameLength : Nat := 255

/-- Walks from a directory over some names. The last one is followed if it is a link and `follow`
is set; all others are. -/
def walk (fs : Files) (follow : Bool) (links : Nat) (at_ : Route) : List String → Except FileFault Place
  | [] =>
    match fs.entry? at_ with
    | some e => .ok (.found at_ e)
    | none => .error .notFound
  | name :: rest =>
    match fs.entry? at_ with
    | none => .error .notFound
    | some (.file _) | some (.link _) | some .void => .error .notADirectory
    | some (.directory _) =>
      if name = "." then walk fs follow links at_ rest
      else if name = ".." then walk fs follow links at_.dropLast rest
      else if maxNameLength < (Utf8.encode name).length then .error .nameTooLong
      else
        match fs.entry? (at_ ++ [name]) with
        | none => if rest.isEmpty then .ok (.vacant at_ name) else .error .notFound
        | some (.directory _) => walk fs follow links (at_ ++ [name]) rest
        | some (.file n) =>
          if rest.isEmpty then .ok (.found (at_ ++ [name]) (.file n)) else .error .notADirectory
        | some .void =>
          if rest.isEmpty then .ok (.found (at_ ++ [name]) .void) else .error .notADirectory
        | some (.link target) =>
          if rest.isEmpty && !follow then .ok (.found (at_ ++ [name]) (.link target))
          else
            match links with
            | 0 => .error .tooManyLinks
            | links + 1 =>
              walk fs follow links (if Path.isAbsolute target then [] else at_)
                (namesOf target ++ rest)
termination_by names => (links, names.length)

/-- Where a walk over a path starts. -/
def origin (fs : Files) (path : String) : Route := if Path.isAbsolute path then [] else fs.here

/-- The path of the directory that relative paths start from. -/
def herePath (fs : Files) : String := "/" ++ "/".intercalate fs.here

/-- A path as it is written from the root, clean. -/
def absolute (fs : Files) (path : String) : String := Path.clean (Path.join fs.herePath path)

/-- The place of a path. -/
def locate (fs : Files) (follow : Bool) (path : String) : Except FileFault Place :=
  if path.toList.contains (Char.ofNat 0) then .error .nulByte
  else if path.isEmpty then .error .notFound
  else fs.walk follow maxLinks (fs.origin path) (namesOf path)

/-- Makes relative paths start from the directory a path leads to. -/
def enter (fs : Files) (path : String) : Except FileFault Files := do
  match ← fs.locate true path with
  | .found r (.directory _) => return { fs with here := r }
  | .found _ _ => .error .notADirectory
  | .vacant _ _ => .error .notFound

/-- What a path leads to. -/
def stat (fs : Files) (path : String) : Except FileFault Entry := do
  match ← fs.locate true path with
  | .found _ e => return e
  | .vacant _ _ => .error .notFound

/-- What is at a path; a link stands for itself. -/
def statLink (fs : Files) (path : String) : Except FileFault Entry := do
  match ← fs.locate false path with
  | .found _ e => return e
  | .vacant _ _ => .error .notFound

def exists? (fs : Files) (path : String) : Bool := (fs.stat path).isOk

def isFile (fs : Files) (path : String) : Bool :=
  match fs.stat path with
  | .ok (.file _) => true
  | _ => false

def isDirectory (fs : Files) (path : String) : Bool :=
  match fs.stat path with
  | .ok (.directory _) => true
  | _ => false

/-- The names in the directory a path leads to. -/
def list (fs : Files) (path : String) : Except FileFault (List String) := do
  match ← fs.locate true path with
  | .found r (.directory _) => return fs.names r
  | .found _ _ => .error .notADirectory
  | .vacant _ _ => .error .notFound

/-- The bytes of a file; a number without content stands for an empty file. -/
def content (fs : Files) (n : Nat) : Content := fs.contents[n]?.getD ⟨[], fs.clock⟩

/-- When what a path leads to was last changed. -/
def modified (fs : Files) (path : String) : Except FileFault Instant := do
  match ← fs.stat path with
  | .directory t => return t
  | .file n => return (fs.content n).changed
  | .void => return fs.clock
  | .link _ => .error .notFound

/-- The last name of a path. -/
inductive LastName where
  | name (text : String)
  | here
  | up
  | root
  deriving DecidableEq, Repr

/-- The directory in which the last name of a path is looked up, that name, and whether a slash
follows it. -/
def parent (fs : Files) (path : String) : Except FileFault (Route × LastName × Bool) := do
  if path.toList.contains (Char.ofNat 0) then .error .nulByte
  else if path.isEmpty then .error .notFound
  else
    let names := (Path.pieces path.toList).filter (· ≠ []) |>.map String.ofList
    let slash := path.toList.getLast? == some '/'
    match names.getLast? with
    | none => return ([], .root, slash)
    | some last =>
      match ← fs.walk true maxLinks (fs.origin path) names.dropLast with
      | .found r (.directory _) =>
        let last ← if last = "." then pure LastName.here
          else if last = ".." then pure LastName.up
          else if maxNameLength < (Utf8.encode last).length then Except.error FileFault.nameTooLong
          else pure (LastName.name last)
        return (r, last, slash)
      | .found _ _ => .error .notADirectory
      | .vacant _ _ => .error .notFound

end Files
end Taskwork
