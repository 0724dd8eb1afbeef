/-
What can be wrong with a JSON text, and where. Places are counted in bytes; a fault is told with
its line, counted from 1, and the number of bytes of that line before it.
-/
import Taskwork.Text.Utf8

namespace Taskwork.Json

inductive Problem where
  | endInList
  | endInObject
  | endInString
  | endInValue
  | expectedColon
  | expectedListEnd
  | expectedObjectEnd
  | expectedWord
  | expectedValue
  | invalidEscape
  | invalidNumber
  | numberOutOfRange
  | controlCharacter
  | keyNotText
  | loneSurrogate
  | trailingComma
  | trailingCharacters
  | brokenPair
  | tooDeep
  deriving DecidableEq, Repr, Inhabited

def Problem.message : Problem → String
  | .endInList => "EOF while parsing a list"
  | .endInObject => "EOF while parsing an object"
  | .endInString => "EOF while parsing a string"
  | .endInValue => "EOF while parsing a value"
  | .expectedColon => "expected \x60:\x60"
  | .expectedListEnd => "expected \x60,\x60 or \x60]\x60"
  | .expectedObjectEnd => "expected \x60,\x60 or \x60\x7d\x60"
  | .expectedWord => "expected ident"
  | .expectedValue => "expected value"
  | .invalidEscape => "invalid escape"
  | .invalidNumber => "invalid number"
  | .numberOutOfRange => "number out of range"
  | .controlCharacter =>
    "control character (\\u0000-\\u001F) found while parsing a string"
  | .keyNotText => "key must be a string"
  | .loneSurrogate => "lone leading surrogate in hex escape"
  | .trailingComma => "trailing comma"
  | .trailingCharacters => "trailing characters"
  | .brokenPair => "unexpected end of hex escape"
  | .tooDeep => "recursion limit exceeded"

/-- A problem and the number of bytes before the place it was found at. -/
structure Fault where
  problem : Problem
  index : Nat
  deriving DecidableEq, Repr, Inhabited

/-- The line of a place, and the bytes before the place in that line. -/
def lineAndColumn (before : Bytes) : Nat × Nat :=
  (1 + before.count 10, (before.reverse.takeWhile (· != 10)).length)

/-- What is told of a fault in a text. -/
def Fault.message (text : Bytes) (f : Fault) : String :=
  let (line, column) := lineAndColumn (text.take f.index)
  f.problem.message ++ " at line " ++ toString line ++ " column " ++ toString column

end Taskwork.Json
