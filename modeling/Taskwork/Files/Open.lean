/-
Open files. Opening gives a number; all who have the number read and write at one common offset,
and writing at the end goes there whatever the offset.
-/
import Taskwork.Files.Change

namespace Taskwork

/-- What a file is opened for. -/
inductive OpenMode where
  | read
  /-- Makes the file if it is not there, and empties it if it is. -/
  | write
  /-- Makes the file if it is not there, and writes at its end. -/
  | append
  deriving DecidableEq, Repr, Inhabited

namespace Files

/-- Puts an open file into the table. -/
def handOut (fs : Files) (o : Opened) : Files × Nat :=
  ({ fs with opened := fs.opened ++ [o] }, fs.opened.length)

/-- Changes the bytes of a file. -/
def setBytes (fs : Files) (n : Nat) (bytes : Bytes) : Files :=
  let fs := fs.tick
  { fs with contents := fs.contents.set n ⟨bytes, fs.clock⟩ }

/-- Makes an empty file at a free place. -/
def makeFile (fs : Files) (r : Route) (name : String) : Files × Nat :=
  let fs := fs.tick
  let n := fs.contents.length
  ((({ fs with contents := fs.contents ++ [Content.mk [] fs.clock] }).put (r ++ [name]) (.file n)).touch r, n)

/-- Opens a file by path. -/
def openFile (fs : Files) (path : String) (mode : OpenMode) : Except FileFault (Files × Nat) := do
  match mode with
  | .read =>
    match ← fs.locate true path with
    | .found _ (.file n) => return fs.handOut (.file n 0 false)
    | .found _ .void => return fs.handOut .void
    | .found _ _ => return fs.handOut .directory
    | .vacant _ _ => .error .notFound
  | _ =>
    match ← fs.parent path with
    | (_, .name _, false) =>
      match ← fs.locate true path with
      | .found _ (.file n) =>
        if mode = .write then return (fs.setBytes n []).handOut (.file n 0 false)
        else return fs.handOut (.file n 0 true)
      | .found _ .void => return fs.handOut .void
      | .found _ _ => .error .isADirectory
      | .vacant r name =>
        let (fs, n) := fs.makeFile r name
        return fs.handOut (.file n 0 (mode = .append))
    | _ => .error .isADirectory

/-- Reads an open file from its offset to its end. -/
def readRest (fs : Files) (handle : Nat) : Except FileFault (Files × Bytes) :=
  match fs.opened[handle]? with
  | some (.file n offset atEnd) =>
    let bytes := (fs.content n).bytes
    let fs := { fs with opened := fs.opened.set handle (.file n (max offset bytes.length) atEnd) }
    .ok (fs, bytes.drop offset)
  | some .void => .ok (fs, [])
  | _ => .error .isADirectory

/-- The bytes of a file after `new` was written at an offset; a gap before it is filled. -/
def splice (old : Bytes) (offset : Nat) (new : Bytes) : Bytes :=
  old.take offset ++ List.replicate (offset - old.length) 0 ++ new ++ old.drop (offset + new.length)

/-- Writes to an open file. Writing nothing changes nothing. -/
def writeTo (fs : Files) (handle : Nat) (bytes : Bytes) : Files :=
  if bytes.isEmpty then fs
  else
    match fs.opened[handle]? with
    | some (.file n offset atEnd) =>
      let old := (fs.content n).bytes
      let offset := if atEnd then old.length else offset
      let fs := fs.setBytes n (splice old offset bytes)
      { fs with opened := fs.opened.set handle (.file n (offset + bytes.length) atEnd) }
    | _ => fs

/-- The bytes of the file at a path. -/
def bytesAt (fs : Files) (path : String) : Except FileFault Bytes := do
  match ← fs.stat path with
  | .file n => return (fs.content n).bytes
  | .void => return []
  | _ => .error .isADirectory

/-- Makes the file at a path hold some bytes. -/
def putBytes (fs : Files) (path : String) (bytes : Bytes) : Except FileFault Files := do
  let (fs, handle) ← fs.openFile path .write
  return fs.writeTo handle bytes

/-- The directories that any system has. -/
def standardDirectories : List String :=
  ["/bin", "/dev", "/etc", "/home", "/lib", "/opt", "/proc", "/root", "/tmp", "/usr/bin", "/usr/lib",
    "/usr/local", "/var"]

/-- The tree of a system on which nothing is installed. -/
def standard (clock : Instant) : Files :=
  let fs := standardDirectories.foldl (fun fs path => (fs.makeDirectories path).1) (empty clock)
  fs.put ["dev", "null"] .void

/-- Sets the time at which what a path leads to was changed. -/
def setModified (fs : Files) (path : String) (t : Instant) : Except FileFault Files := do
  match ← fs.locate true path with
  | .found r (.directory _) => return fs.put r (.directory t)
  | .found _ (.file n) =>
    return { fs with contents := fs.contents.set n { fs.content n with changed := t } }
  | _ => .error .notFound

end Files
end Taskwork
