/-
Moving through the text of a YAML document. A place knows what is left of the text and how far it
is into it; a carriage return with the line feed after it is one line break.
-/
import Taskwork.Yaml.Fault

namespace Taskwork.Yaml

def isBreak (c : Char) : Bool :=
  c == '\r' || c == '\n' || c == '\x85' || c == '\u2028' || c == '\u2029'

/-- A space or a tab. -/
def isBlank (c : Char) : Bool := c == ' ' || c == '\t'

/-- A character of names and handles. -/
def isWord (c : Char) : Bool := c.isAlphanum || c == '_' || c == '-'

structure Place where
  rest : List Char
  mark : Mark
  deriving Inhabited

namespace Place

/-- The character `n` places on. -/
def at? (p : Place) (n : Nat) : Option Char := p.rest[n]?

/-- Whether the character `n` places on is `c`. -/
def hasAt (p : Place) (n : Nat) (c : Char) : Bool := p.at? n == some c

def has (p : Place) (c : Char) : Bool := p.hasAt 0 c

def isEnd (p : Place) : Bool := p.rest.isEmpty

/-- Whether the character `n` places on satisfies `test`. -/
def fitsAt (p : Place) (n : Nat) (test : Char → Bool) : Bool := ((p.at? n).map test).getD false

def fits (p : Place) (test : Char → Bool) : Bool := p.fitsAt 0 test

/-- Whether the text or a line ends `n` places on. -/
def endsLineAt (p : Place) (n : Nat) : Bool := ((p.at? n).map isBreak).getD true

def endsLine (p : Place) : Bool := p.endsLineAt 0

/-- Whether the text, a line or a word ends `n` places on. -/
def endsWordAt (p : Place) (n : Nat) : Bool := p.endsLineAt n || p.fitsAt n isBlank

def endsWord (p : Place) : Bool := p.endsWordAt 0

/-- Goes past `n` characters of a line. -/
def skip (p : Place) (n : Nat) : Place :=
  ⟨p.rest.drop n, { p.mark with index := p.mark.index + n, column := p.mark.column + n }⟩

/-- Goes past the characters of a line that satisfy `test`. -/
def skipWhile (p : Place) (test : Char → Bool) : Place := p.skip (p.rest.takeWhile test).length

/-- Goes to the end of the line. -/
def skipLine (p : Place) : Place := p.skipWhile fun c => !isBreak c

/-- Goes past a line break. -/
def skipBreak (p : Place) : Place :=
  match p.rest with
  | '\r' :: '\n' :: rest => ⟨rest, ⟨p.mark.index + 2, p.mark.line + 1, 0⟩⟩
  | c :: rest => if isBreak c then ⟨rest, ⟨p.mark.index + 1, p.mark.line + 1, 0⟩⟩ else p
  | [] => p

/-- The characters that the line break at a place stands for. -/
def breakText (p : Place) : List Char :=
  match p.rest with
  | c :: _ => if c == '\u2028' || c == '\u2029' then [c] else if isBreak c then ['\n'] else []
  | [] => []

/-- Whether a line begins here with three characters that begin or end a document. -/
def atDocumentMark (p : Place) : Bool :=
  p.mark.column == 0 && p.endsWordAt 3 &&
    (p.rest.take 3 == ['-', '-', '-'] || p.rest.take 3 == ['.', '.', '.'])

end Place

/-- Reading from a place on. -/
abbrev Scan (α : Type) := StateT Place (Except Fault) α

namespace Scan

/-- A problem with what is at the place, in something that began at `start`. -/
def fail {α : Type} (context : Context) (start : Mark) (p : Problem) : Scan α := do
  throw (.grammar p (← get).mark (some (context, start)))

def skip (n : Nat) : Scan Unit := modify (Place.skip · n)

def skipWhile (test : Char → Bool) : Scan Unit := modify (Place.skipWhile · test)

/-- Reads the characters that satisfy `test`. -/
def takeWhile (test : Char → Bool) : Scan (List Char) := do
  let taken := (← get).rest.takeWhile test
  skip taken.length
  return taken

/-- Reads a line break. -/
def takeBreak : Scan (List Char) := do
  let text := (← get).breakText
  modify Place.skipBreak
  return text

end Scan
end Taskwork.Yaml
