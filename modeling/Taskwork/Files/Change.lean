/-
Making, moving and removing directories and files, by path.
-/
import Taskwork.Files.Basic

namespace Taskwork.Files

/-- Makes one directory, whose parent must be there. -/
def makeDirectory (fs : Files) (path : String) : Except FileFault Files := do
  match ← fs.parent path with
  | (r, .name n, _) =>
    if (fs.entry? (r ++ [n])).isSome then .error .exists
    else
      let fs := fs.tick
      return (fs.put (r ++ [n]) (.directory fs.clock)).touch r
  | _ => .error .exists

/-- The directories of a path that are not there, the lowest first, once the one above them has
been made or found. -/
def climb (fs : Files) : List String → Except FileFault (Files × List String)
  | [] => .ok (fs, [])
  | path :: above =>
    if path.isEmpty then .ok (fs, [])
    else
      match fs.makeDirectory path with
      | .ok fs => .ok (fs, [])
      | .error .notFound => do
        let (fs, missing) ← climb fs above
        return (fs, path :: missing)
      | .error e => if e == .exists && fs.isDirectory path then .ok (fs, []) else .error e

/-- Makes directories in turn, where one that is already there is as good. -/
def makeEach (fs : Files) : List String → Files × Except FileFault Unit
  | [] => (fs, .ok ())
  | path :: rest =>
    match fs.makeDirectory path with
    | .ok fs => makeEach fs rest
    | .error e => if e == .exists && fs.isDirectory path then makeEach fs rest else (fs, .error e)

/-- Makes a directory and those above it that are missing. What was made before a fault stays. -/
def makeDirectories (fs : Files) (path : String) : Files × Except FileFault Unit :=
  match fs.climb (Path.ancestors path) with
  | .ok (fs, missing) => fs.makeEach missing.reverse
  | .error e => (fs, .error e)

/-- Makes a link. -/
def makeLink (fs : Files) (target path : String) : Except FileFault Files := do
  match ← fs.parent path with
  | (r, .name n, _) =>
    if (fs.entry? (r ++ [n])).isSome then .error .exists
    else return (fs.tick.put (r ++ [n]) (.link target)).touch r
  | _ => .error .exists

/-- Moves an entry with all that is below it from one route to another, where nothing is. -/
def transplant (fs : Files) (old new : Route) : Files :=
  { fs with entries := fs.entries.map fun row =>
      if old.isPrefixOf row.1 then (new ++ row.1.drop old.length, row.2) else row }

/-- Gives a place a new path. A file may take the place of a file or link, a directory that of an
empty directory. Where both paths are names of one file nothing is done, and both names stay. -/
def rename (fs : Files) (oldPath newPath : String) : Except FileFault Files := do
  let (oldDir, oldLast, oldSlash) ← fs.parent oldPath
  let (newDir, newLast, newSlash) ← fs.parent newPath
  match oldLast, newLast with
  | .name oldName, .name newName =>
    let old := oldDir ++ [oldName]
    let new := newDir ++ [newName]
    match fs.entry? old with
    | none => .error .notFound
    | some e =>
      let isDir := e matches .directory _
      if !isDir && (oldSlash || newSlash) then .error .notADirectory
      else if isBelow old new then .error .invalid
      else if isBelow new old then .error .notEmpty
      else if old = new then return fs
      else
        match fs.entry? new with
        | none => return (((fs.tick).transplant old new).touch oldDir).touch newDir
        | some (.directory _) =>
          if !isDir then .error .isADirectory
          else if !(fs.names new).isEmpty then .error .notEmpty
          else return ((((fs.tick).drop (· == new)).transplant old new).touch oldDir).touch newDir
        | some other =>
          if isDir then .error .notADirectory
          else if e.isSameFile other then return fs
          else return ((((fs.tick).drop (· == new)).transplant old new).touch oldDir).touch newDir
  | _, _ => .error .busy

/-- Removes a file or link. -/
def removeFile (fs : Files) (path : String) : Except FileFault Files := do
  match ← fs.parent path with
  | (r, .name n, slash) =>
    match fs.entry? (r ++ [n]) with
    | none => .error .notFound
    | some (.directory _) => .error .isADirectory
    | some _ =>
      if slash then .error .notADirectory
      else return ((fs.tick).drop (· == r ++ [n])).touch r
  | _ => .error .isADirectory

/-- Removes an empty directory. -/
def removeDirectory (fs : Files) (path : String) : Except FileFault Files := do
  match ← fs.parent path with
  | (r, .name n, _) =>
    match fs.entry? (r ++ [n]) with
    | none => .error .notFound
    | some (.directory _) =>
      if !(fs.names (r ++ [n])).isEmpty then .error .notEmpty
      else return ((fs.tick).drop (· == r ++ [n])).touch r
    | some _ => .error .notADirectory
  | (_, .here, _) => .error .invalid
  | (_, .up, _) => .error .notEmpty
  | (_, .root, _) => .error .busy

/-- What is left when the tree below a directory and then the directory itself are removed, and
the fault if the latter fails. What the first step removed stays removed. -/
def removeTree (fs : Files) (path : String) : Files × Except FileFault Unit :=
  match fs.locate false path with
  | .error e => (fs, .error e)
  | .ok (.vacant _ _) => (fs, .error .notFound)
  | .ok (.found _ (.file _)) | .ok (.found _ .void) => (fs, .error .notADirectory)
  | .ok (.found _ (.link _)) =>
    match fs.removeFile path with
    | .ok fs => (fs, .ok ())
    | .error e => (fs, .error e)
  | .ok (.found r (.directory _)) =>
    let bare := if (fs.names r).isEmpty then fs else ((fs.tick).drop (isBelow r)).touch r
    match bare.removeDirectory path with
    | .ok fs => (fs, .ok ())
    | .error .notFound => (bare, .ok ())
    | .error e => (bare, .error e)

end Taskwork.Files
