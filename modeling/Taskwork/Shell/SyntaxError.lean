/-
What can be wrong with the text of a script, and where.
-/

namespace Taskwork.Shell

/-- The reasons for which a text is not a script. -/
inductive SyntaxFault where
  | arithmeticCommand
  | arithmeticExpansion
  | backtick
  | backgroundJob
  | badDescriptor
  | badSubstitution
  | unsupportedExpansion
  | unterminatedExpansion
  | unterminatedSingle
  | unterminatedDouble
  | hereDocument
  | duplicateInput
  | appendBoth
  | missingTarget
  | targetNotDescriptor
  | missingCommand
  | expected (closer : Char)
  | unexpected (found : Char)
  | reserved (word : String)
  deriving DecidableEq, Repr, Inhabited

/-- How each reason is told. -/
def SyntaxFault.message : SyntaxFault → String
  | .arithmeticCommand => "arithmetic commands are not supported"
  | .arithmeticExpansion => "arithmetic expansion is not supported"
  | .backtick => "backtick substitution is not supported, use $(...)"
  | .backgroundJob => "background jobs are not supported"
  | .badDescriptor => "bad file descriptor"
  | .badSubstitution => "bad substitution"
  | .unsupportedExpansion => "unsupported parameter expansion"
  | .unterminatedExpansion => "unterminated parameter expansion"
  | .unterminatedSingle => "unterminated single quote"
  | .unterminatedDouble => "unterminated double quote"
  | .hereDocument => "here-documents are not supported"
  | .duplicateInput => "'<&' is not supported"
  | .appendBoth => "'&>>' is not supported"
  | .missingTarget => "missing redirection target"
  | .targetNotDescriptor => "'>&' expects a file descriptor number"
  | .missingCommand => "expected a command"
  | .expected closer => "expected '" ++ closer.toString ++ "'"
  | .unexpected found => "unexpected '" ++ found.toString ++ "'"
  | .reserved word => "'" ++ word ++ "' is not supported in task commands"

/-- A fault and the place it was found at, both counted from 1. -/
structure SyntaxError where
  line : Nat
  column : Nat
  fault : SyntaxFault
  deriving DecidableEq, Repr, Inhabited

/-- What is told of an error in a script of some name. -/
def SyntaxError.message (name : String) (e : SyntaxError) : String :=
  name ++ ":" ++ toString e.line ++ ":" ++ toString e.column ++ ": " ++ e.fault.message

end Taskwork.Shell
