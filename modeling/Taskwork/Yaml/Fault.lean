/-
What can be wrong with a YAML document, and where. Lines and columns are counted from 0 and told
from 1; a fault at the very beginning is told without its place.
-/

namespace Taskwork.Yaml

/-- A place in a text, in characters. -/
structure Mark where
  index : Nat
  line : Nat
  column : Nat
  deriving DecidableEq, Repr, Inhabited

namespace Mark

def start : Mark := ⟨0, 0, 0⟩

/-- Whether a place is the beginning of the first line. -/
def isStart (m : Mark) : Bool := m.line == 0 && m.column == 0

def shown (m : Mark) : String :=
  "line " ++ toString (m.line + 1) ++ " column " ++ toString (m.column + 1)

/-- The place as it is added to a message. -/
def suffix (m : Mark) : String := if m.isStart then "" else " at " ++ m.shown

end Mark

/-- What a text has, or does not have, against the rules. -/
inductive Problem where
  | noToken
  | noColon
  | blockEntryHere
  | keyHere
  | valueHere
  | noDirectiveName
  | strangeDirectiveName
  | unknownDirective
  | noLineEnd
  | noVersionDigit
  | noVersionNumber
  | longVersion
  | noSpace
  | noSpaceOrLineEnd
  | noBang
  | noAngle
  | noUri
  | noOctet
  | badLeadingOctet
  | badTrailingOctet
  | noName
  | zeroIndent
  | tabForIndent
  | tabInIndent
  | documentMark
  | endOfStream
  | unknownEscape
  | noHexNumber
  | badEscapeCode
  | colonInFlow
  | noDocumentStart
  | noNode
  | undefinedHandle
  | noDash
  | noKey
  | noSequenceEnd
  | noMappingEnd
  | twoVersions
  | badVersion
  | twoTags
  deriving DecidableEq, Repr, Inhabited

def Problem.message : Problem → String
  | .noToken => "found character that cannot start any token"
  | .noColon => "could not find expected ':'"
  | .blockEntryHere => "block sequence entries are not allowed in this context"
  | .keyHere => "mapping keys are not allowed in this context"
  | .valueHere => "mapping values are not allowed in this context"
  | .noDirectiveName => "could not find expected directive name"
  | .strangeDirectiveName => "found unexpected non-alphabetical character"
  | .unknownDirective => "found unknown directive name"
  | .noLineEnd => "did not find expected comment or line break"
  | .noVersionDigit => "did not find expected digit or '.' character"
  | .noVersionNumber => "did not find expected version number"
  | .longVersion => "found extremely long version number"
  | .noSpace => "did not find expected whitespace"
  | .noSpaceOrLineEnd => "did not find expected whitespace or line break"
  | .noBang => "did not find expected '!'"
  | .noAngle => "did not find the expected '>'"
  | .noUri => "did not find expected tag URI"
  | .noOctet => "did not find URI escaped octet"
  | .badLeadingOctet => "found an incorrect leading UTF-8 octet"
  | .badTrailingOctet => "found an incorrect trailing UTF-8 octet"
  | .noName => "did not find expected alphabetic or numeric character"
  | .zeroIndent => "found an indentation indicator equal to 0"
  | .tabForIndent => "found a tab character where an indentation space is expected"
  | .tabInIndent => "found a tab character that violates indentation"
  | .documentMark => "found unexpected document indicator"
  | .endOfStream => "found unexpected end of stream"
  | .unknownEscape => "found unknown escape character"
  | .noHexNumber => "did not find expected hexdecimal number"
  | .badEscapeCode => "found invalid Unicode character escape code"
  | .colonInFlow => "found unexpected ':'"
  | .noDocumentStart => "did not find expected <document start>"
  | .noNode => "did not find expected node content"
  | .undefinedHandle => "found undefined tag handle"
  | .noDash => "did not find expected '-' indicator"
  | .noKey => "did not find expected key"
  | .noSequenceEnd => "did not find expected ',' or ']'"
  | .noMappingEnd => "did not find expected ',' or '\x7d'"
  | .twoVersions => "found duplicate %YAML directive"
  | .badVersion => "found incompatible YAML document"
  | .twoTags => "found duplicate %TAG directive"

/-- What was being read when a problem was found. -/
inductive Context where
  | nextToken
  | simpleKey
  | directive
  | versionDirective
  | tagDirective
  | tagDirectiveHandle
  | tagDirectiveParts
  | tagDirectiveUri
  | tag
  | tagUri
  | anchor
  | alias
  | blockScalar
  | quotedScalar
  | quotedEscape
  | plainScalar
  | node
  | blockNode
  | flowNode
  | blockCollection
  | blockMapping
  | flowSequence
  | flowMapping
  deriving DecidableEq, Repr, Inhabited

def Context.message : Context → String
  | .nextToken => "while scanning for the next token"
  | .simpleKey => "while scanning a simple key"
  | .directive => "while scanning a directive"
  | .versionDirective => "while scanning a %YAML directive"
  | .tagDirective => "while scanning a %TAG directive"
  | .tagDirectiveHandle => "while scanning a tag directive"
  | .tagDirectiveParts => "while parsing a tag directive"
  | .tagDirectiveUri => "while parsing a %TAG directive"
  | .tag => "while scanning a tag"
  | .tagUri => "while parsing a tag"
  | .anchor => "while scanning an anchor"
  | .alias => "while scanning an alias"
  | .blockScalar => "while scanning a block scalar"
  | .quotedScalar => "while scanning a quoted scalar"
  | .quotedEscape => "while parsing a quoted scalar"
  | .plainScalar => "while scanning a plain scalar"
  | .node => "while parsing a node"
  | .blockNode => "while parsing a block node"
  | .flowNode => "while parsing a flow node"
  | .blockCollection => "while parsing a block collection"
  | .blockMapping => "while parsing a block mapping"
  | .flowSequence => "while parsing a flow sequence"
  | .flowMapping => "while parsing a flow mapping"

/-- What a well-formed document has against the rules for data. -/
inductive DataProblem where
  /-- A key of a mapping occurs twice; the key as it is shown, if it is a scalar. -/
  | duplicateKey (shown : Option String)
  | badScalar (text expected : String)
  | wideInteger (n : Int)
  | emptyTag
  deriving DecidableEq, Repr, Inhabited

def DataProblem.message : DataProblem → String
  | .duplicateKey (some key) => "duplicate entry with " ++ key
  | .duplicateKey none => "duplicate entry in YAML map"
  | .badScalar text expected => "invalid value: string " ++ text ++ ", expected " ++ expected
  | .wideInteger n =>
    "invalid type: integer \x60" ++ toString n ++ "\x60 as " ++ (if n < 0 then "i128" else "u128") ++
      ", expected any YAML value"
  | .emptyTag => "empty YAML tag is not allowed"

inductive Fault where
  /-- A character that no document may hold, after so many bytes. -/
  | controlCharacter (offset : Nat)
  | grammar (p : Problem) (mark : Mark) (context : Option (Context × Mark))
  | data (p : DataProblem) (mark : Mark) (path : String)
  | unknownAnchor (mark : Mark)
  | tooDeep (mark : Mark)
  | tooManyRepetitions
  | manyDocuments
  deriving DecidableEq, Repr, Inhabited

def Fault.message : Fault → String
  | .controlCharacter offset =>
    "control characters are not allowed" ++
      (if offset = 0 then "" else " at position " ++ toString offset)
  | .grammar p mark context =>
    p.message ++ mark.suffix ++ (match context with
      | none => ""
      | some (c, m) =>
        ", " ++ c.message ++
          (if m.line = mark.line ∧ m.column = mark.column then "" else m.suffix))
  | .data p mark path => (if path = "." then "" else path ++ ": ") ++ p.message ++ mark.suffix
  | .unknownAnchor mark => "unknown anchor" ++ mark.suffix
  | .tooDeep mark => "recursion limit exceeded" ++ mark.suffix
  | .tooManyRepetitions => "repetition limit exceeded"
  | .manyDocuments => "deserializing from YAML containing more than one document is not supported"

end Taskwork.Yaml
