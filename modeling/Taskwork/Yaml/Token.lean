/-
The tokens of a YAML document, and those of them that are names: anchors, tags and directives.
-/
import Taskwork.Text.Utf8
import Taskwork.Yaml.Scalar

namespace Taskwork.Yaml

inductive Token where
  | streamStart
  | streamEnd
  | version (major minor : Nat)
  /-- A directive by which tags with a handle start with `lead`. -/
  | tagHandle (handle lead : String)
  | documentStart
  | documentEnd
  | blockSequenceStart
  | blockMappingStart
  | blockEnd
  | flowSequenceStart
  | flowSequenceEnd
  | flowMappingStart
  | flowMappingEnd
  | blockEntry
  | flowEntry
  | key
  | value
  | alias (name : String)
  | anchor (name : String)
  | tag (handle suffix : String)
  | scalar (text : String) (isPlain : Bool)
  deriving DecidableEq, Repr, Inhabited

/-- A token and the places where it begins and ends. -/
structure Spot where
  token : Token
  start : Mark
  stop : Mark
  deriving Inhabited

namespace Token

/-! ## Anchors -/

/-- Reads the name of an anchor or an alias, from its sign on. -/
def nameAfterSign (context : Context) : Scan String := do
  let start := (← get).mark
  Scan.skip 1
  let name ← Scan.takeWhile isWord
  let p ← get
  let ends := p.endsWord ||
    p.fits fun c => ['?', ':', ',', ']', '}', '%', '@', '\x60'].contains c
  if name.isEmpty || !ends then Scan.fail context start .noName
  else return String.ofList name

/-! ## Tags -/

/-- The characters of a tag; commas and brackets only count between angles. -/
def isTagCharacter (verbatim : Bool) (c : Char) : Bool :=
  isWord c || [';', '/', '?', ':', '@', '&', '=', '+', '$', '.', '%', '!', '~', '*', '\'', '(', ')'].contains c ||
    (verbatim && (c == ',' || c == '[' || c == ']'))

/-- The number of bytes of the character that starts with a byte. -/
def octetCount (b : Nat) : Nat :=
  if b < 0x80 then 1
  else if 0xC0 ≤ b ∧ b < 0xE0 then 2
  else if 0xE0 ≤ b ∧ b < 0xF0 then 3
  else if 0xF0 ≤ b ∧ b < 0xF8 then 4
  else 0

/-- Reads one byte written as `%xx`. -/
def octet (context : Context) (start : Mark) : Scan Nat := do
  let p ← get
  match p.has '%', (p.at? 1).bind Scalar.hexValue?, (p.at? 2).bind Scalar.hexValue? with
  | true, some a, some b => return 16 * a + b
  | _, _, _ => Scan.fail context start .noOctet

/-- Reads the bytes after the first one of a character. -/
def trailingOctets (context : Context) (start : Mark) : Nat → Scan (List Nat)
  | 0 => return []
  | count + 1 => do
    let b ← octet context start
    if b / 64 ≠ 2 then Scan.fail context start .badTrailingOctet
    else
      Scan.skip 3
      return b :: (← trailingOctets context start count)

/-- Reads a character whose bytes are written as `%xx`. -/
def escapedCharacter (context : Context) (start : Mark) : Scan (List Char) := do
  let b ← octet context start
  let count := octetCount b
  if count = 0 then Scan.fail context start .badLeadingOctet
  else
    Scan.skip 3
    let more ← trailingOctets context start (count - 1)
    return (Utf8.decodeLossy ((b :: more).map UInt8.ofNat)).toList

/-- Reads the characters of a tag, at most so many. -/
def tagCharacters (context : Context) (start : Mark) (verbatim : Bool) : Nat → Scan (List Char)
  | 0 => return []
  | count + 1 => do
    let p ← get
    if !p.fits (isTagCharacter verbatim) then return []
    else if p.has '%' then
      let c ← escapedCharacter context start
      return c ++ (← tagCharacters context start verbatim count)
    else
      Scan.skip 1
      return p.rest.take 1 ++ (← tagCharacters context start verbatim count)

/-- Reads the rest of a tag that begins with `lead`. -/
def tagRest (context : Context) (start : Mark) (verbatim : Bool) (lead : List Char) :
    Scan (List Char) := do
  let more ← tagCharacters context start verbatim ((← get).rest.length + 1)
  if lead.isEmpty && more.isEmpty then Scan.fail context start .noUri
  else return lead.drop 1 ++ more

/-- Reads the handle of a tag: words between two signs, of which the second may be missing. -/
def handle (directive : Bool) (start : Mark) : Scan (List Char) := do
  if !(← get).has '!' then
    Scan.fail (if directive then .tagDirectiveHandle else .tag) start .noBang
  else
    Scan.skip 1
    let word ← Scan.takeWhile isWord
    if (← get).has '!' then
      Scan.skip 1
      return '!' :: word ++ ['!']
    else if directive && !word.isEmpty then Scan.fail .tagDirectiveParts start .noBang
    else return '!' :: word

/-- Reads a tag. -/
def tagName : Scan Token := do
  let start := (← get).mark
  let name ←
    if (← get).hasAt 1 '<' then do
      Scan.skip 2
      let uri ← tagRest .tagUri start true []
      if !(← get).has '>' then Scan.fail .tag start .noAngle
      else
        Scan.skip 1
        pure (Token.tag "" (String.ofList uri))
    else do
      let h ← handle false start
      if 1 < h.length && h.getLast? == some '!' then
        let uri ← tagRest .tagUri start false []
        pure (Token.tag (String.ofList h) (String.ofList uri))
      else
        let uri ← tagRest .tagUri start false h
        pure (if uri.isEmpty then Token.tag "" "!" else Token.tag "!" (String.ofList uri))
  return name

/-- Reads a tag and what must follow it. -/
def tagToken (inFlow : Bool) : Scan Token := do
  let start := (← get).mark
  let t ← tagName
  let p ← get
  if p.endsWord || (inFlow && p.has ',') then return t
  else Scan.fail .tag start .noSpaceOrLineEnd

/-! ## Directives -/

/-- Reads one of the two numbers of a version. -/
def versionNumber (start : Mark) : Scan Nat := do
  let digits := (← get).rest.takeWhile Char.isDigit
  if 9 < digits.length then
    Scan.skip 9
    Scan.fail .versionDirective start .longVersion
  else if digits.isEmpty then Scan.fail .versionDirective start .noVersionNumber
  else
    Scan.skip digits.length
    return digits.foldl (fun n d => 10 * n + (d.toNat - '0'.toNat)) 0

/-- Reads the value of a directive, by its name. -/
def directiveValue (start : Mark) (name : List Char) : Scan Token := do
  if name = "YAML".toList then
    Scan.skipWhile isBlank
    let major ← versionNumber start
    if !(← get).has '.' then Scan.fail .versionDirective start .noVersionDigit
    else
      Scan.skip 1
      return .version major (← versionNumber start)
  else if name = "TAG".toList then
    Scan.skipWhile isBlank
    let h ← handle true start
    if !(← get).fits isBlank then Scan.fail .tagDirective start .noSpace
    else
      Scan.skipWhile isBlank
      let lead ← tagRest .tagDirectiveUri start true []
      if !(← get).endsWord then Scan.fail .tagDirective start .noSpaceOrLineEnd
      else return .tagHandle (String.ofList h) (String.ofList lead)
  else Scan.fail .directive start .unknownDirective

/-- Reads a directive and its line; tells also where its value ends. -/
def directive : Scan (Token × Mark) := do
  let start := (← get).mark
  Scan.skip 1
  let name ← Scan.takeWhile isWord
  if name.isEmpty then Scan.fail .directive start .noDirectiveName
  else if !(← get).endsWord then Scan.fail .directive start .strangeDirectiveName
  else
    let t ← directiveValue start name
    let stop := (← get).mark
    Scan.skipWhile isBlank
    if (← get).has '#' then modify Place.skipLine
    if !(← get).endsLine then Scan.fail .directive start .noLineEnd
    else
      modify Place.skipBreak
      return (t, stop)

end Token
end Taskwork.Yaml
