/-
Why an operation on files fails.
-/

namespace Taskwork

inductive FileFault where
  | notFound
  | exists
  | notADirectory
  | isADirectory
  | notEmpty
  | invalid
  | busy
  | tooManyLinks
  | nameTooLong
  | permission
  | notExecutable
  | nulByte
  | nulData
  deriving DecidableEq, Repr, Inhabited

/-- How the operating system tells it, with its number for the fault. -/
def FileFault.message : FileFault → String
  | .notFound => "No such file or directory (os error 2)"
  | .exists => "File exists (os error 17)"
  | .notADirectory => "Not a directory (os error 20)"
  | .isADirectory => "Is a directory (os error 21)"
  | .notEmpty => "Directory not empty (os error 39)"
  | .invalid => "Invalid argument (os error 22)"
  | .busy => "Device or resource busy (os error 16)"
  | .tooManyLinks => "Too many levels of symbolic links (os error 40)"
  | .nameTooLong => "File name too long (os error 36)"
  | .permission => "Permission denied (os error 13)"
  | .notExecutable => "Exec format error (os error 8)"
  | .nulByte => "file name contained an unexpected NUL byte"
  | .nulData => "nul byte found in provided data"

end Taskwork
