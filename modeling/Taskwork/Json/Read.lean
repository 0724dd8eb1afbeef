/-
Reading JSON from bytes. Brackets may be nested 127 deep. A whole number stays one if it fits in
64 bits with its sign; any other number is a double, made from its leading digits and a power of
ten by one multiplication or division.
-/
import Taskwork.Json.Fault
import Taskwork.Json.Value

namespace Taskwork.Json

/-- What is left of a text, and the number of bytes before it. -/
structure Cursor where
  rest : Bytes
  index : Nat

abbrev Reader (α : Type) := StateT Cursor (Except Fault) α

namespace Reader

/-- The next byte. -/
def peek : Reader (Option UInt8) := do return (← get).rest.head?

/-- Goes past some bytes. -/
def skip (n : Nat) : Reader Unit := modify fun c => ⟨c.rest.drop n, c.index + n⟩

/-- A problem with what has been read. -/
def failHere {α : Type} (p : Problem) : Reader α := do throw ⟨p, (← get).index⟩

/-- A problem with the next byte. -/
def failNext {α : Type} (p : Problem) : Reader α := do
  let c ← get
  throw ⟨p, if c.rest.isEmpty then c.index else c.index + 1⟩

def isSpace (b : UInt8) : Bool := b == 32 || b == 10 || b == 9 || b == 13

/-- Goes past white space, and looks at what follows. -/
def peekToken : Reader (Option UInt8) := do
  skip ((← get).rest.takeWhile isSpace).length
  peek

/-- Reads the rest of a word whose first letter has been read. -/
def word : List UInt8 → Reader Unit
  | [] => pure ()
  | expected :: more => do
    match ← peek with
    | none => failHere .endInValue
    | some b =>
      skip 1
      if b = expected then word more else failHere .expectedWord

/-! ## Numbers -/

def isDigit (b : UInt8) : Bool := 48 ≤ b && b ≤ 57

def digitOf (b : UInt8) : Nat := b.toNat - 48

/-- The greatest number that leading digits are gathered in. -/
def greatestSignificand : Nat := 0xFFFFFFFFFFFFFFFF

/-- Digits of a number up to the one that would make it greater than `bound`, with their count. -/
def gather (bound significand : Nat) : Bytes → Nat × Nat
  | [] => (significand, 0)
  | b :: rest =>
    if isDigit b && 10 * significand + digitOf b ≤ bound then
      let (s, n) := gather bound (10 * significand + digitOf b) rest
      (s, n + 1)
    else (significand, 0)

/-- Reads digits as `gather` does, and tells how many there were. -/
def digits (bound significand : Nat) : Reader (Nat × Nat) := do
  let (s, n) := gather bound significand (← get).rest
  skip n
  return (s, n)

/-- Whether the next byte is a digit. -/
def atDigit : Reader Bool := do return ((← peek).map isDigit).getD false

/-- Goes past all digits that follow, and tells how many there were. -/
def ignoreDigits : Reader Nat := do
  let n := ((← get).rest.takeWhile isDigit).length
  skip n
  return n

/-- Divides by the greatest power of ten as long as the exponent is far below zero. -/
def reduce : Nat → Float → Int → Float
  | 0, f, _ => f
  | steps + 1, f, exponent =>
    if -308 ≤ exponent then f / Decimal.nearest 1 (-exponent)
    else if f == 0.0 then f
    else reduce steps (f / Decimal.nearest 1 308) (exponent + 308)

/-- The double for leading digits and a power of ten. -/
def double (isPositive : Bool) (significand : Nat) (exponent : Int) : Reader Float := do
  let f := Decimal.nearest significand 0
  let size ←
    if exponent < 0 then pure (reduce 400 f exponent)
    else if exponent ≤ 308 then
      let f := f * Decimal.nearest 1 exponent
      if f.isInf then failHere .numberOutOfRange else pure f
    else if f == 0.0 then pure f
    else failHere .numberOutOfRange
  return if isPositive then size else -size

/-- The greatest exponent that is added to others. -/
def greatestExponent : Nat := 0x7FFFFFFF

/-- Reads the exponent of a number, from its letter on. -/
def exponentPart (isPositive : Bool) (significand : Nat) (start : Int) : Reader Float := do
  skip 1
  let isUp ← match ← peek with
    | some 43 => skip 1; pure true
    | some 45 => skip 1; pure false
    | _ => pure true
  if (← peek).isNone then failHere .endInValue
  else if !(← atDigit) then
    skip 1
    failHere .invalidNumber
  else
    let (e, _) ← digits greatestExponent 0
    if ← atDigit then
      skip 1
      if significand ≠ 0 && isUp then failHere .numberOutOfRange
      else
        let _ ← ignoreDigits
        return if isPositive then 0.0 else -0.0
    else double isPositive significand ((Bounds.signed 32).clamp (if isUp then start + e else start - e))

/-- Whether the next byte begins an exponent. -/
def atExponent : Reader Bool := do
  let b ← peek
  return b == some 101 || b == some 69

/-- Reads the digits after a point, from the point on. -/
def fractionPart (isPositive : Bool) (significand : Nat) (start : Int) : Reader Float := do
  skip 1
  let (s, n) ← digits greatestSignificand significand
  if n = 0 && !(← atDigit) then
    match ← peek with
    | some _ => failNext .invalidNumber
    | none => failNext .endInValue
  else
    let _ ← ignoreDigits
    if ← atExponent then exponentPart isPositive s (start - n)
    else double isPositive s (start - n)

/-- Reads the digits that make a whole number too great, and what follows them. -/
def longNumber (isPositive : Bool) (significand : Nat) : Reader Number := do
  let n ← ignoreDigits
  if (← peek) == some 46 then return .real (← fractionPart isPositive significand n)
  else if ← atExponent then return .real (← exponentPart isPositive significand n)
  else return .real (← double isPositive significand n)

/-- Reads what follows the whole part of a number. -/
def afterWhole (isPositive : Bool) (significand : Nat) : Reader Number := do
  if (← peek) == some 46 then return .real (← fractionPart isPositive significand 0)
  else if ← atExponent then return .real (← exponentPart isPositive significand 0)
  else if isPositive then return .whole significand
  else if significand = 0 || 0x8000000000000000 < significand then
    return .real (-(Decimal.nearest significand 0))
  else return .whole (-(significand : Int))

/-- Reads a number without its sign. -/
def number (isPositive : Bool) : Reader Number := do
  match ← peek with
  | none => failHere .endInValue
  | some b =>
    if b = 48 then
      skip 1
      if ← atDigit then failNext .invalidNumber
      else afterWhole isPositive 0
    else if isDigit b then
      let (s, _) ← digits greatestSignificand 0
      if ← atDigit then longNumber isPositive s
      else afterWhole isPositive s
    else
      skip 1
      failHere .invalidNumber

/-! ## Strings -/

def hexOf? (b : UInt8) : Option Nat :=
  if isDigit b then some (digitOf b)
  else if 97 ≤ b && b ≤ 102 then some (b.toNat - 87)
  else if 65 ≤ b && b ≤ 70 then some (b.toNat - 55)
  else none

/-- Reads four hexadecimal digits. -/
def unit : Reader Nat := do
  let four := (← get).rest.take 4
  skip four.length
  if four.length < 4 then failHere .endInString
  else match four.mapM hexOf? with
    | none => failHere .invalidEscape
    | some ds => return ds.foldl (fun n d => 16 * n + d) 0

/-- Reads one expected byte between the two units of a pair. -/
def between (expected : UInt8) : Reader Unit := do
  match ← peek with
  | none => failHere .endInString
  | some b =>
    skip 1
    if b = expected then pure () else failHere .brokenPair

/-- Reads the character that one or two units stand for. -/
def escapedCharacter : Reader Bytes := do
  let n ← unit
  if 0xDC00 ≤ n && n ≤ 0xDFFF then failHere .loneSurrogate
  else if n < 0xD800 || 0xDBFF < n then return Utf8.encodeChar (Char.ofNat n)
  else
    between 92
    between 117
    let m ← unit
    if m < 0xDC00 || 0xDFFF < m then failHere .loneSurrogate
    else return Utf8.encodeChar (Char.ofNat (0x10000 + (n - 0xD800) * 0x400 + (m - 0xDC00)))

/-- Reads an escape after its backslash. -/
def escape : Reader Bytes := do
  match ← peek with
  | none => failHere .endInString
  | some b =>
    skip 1
    match b with
    | 34 => return [34]
    | 92 => return [92]
    | 47 => return [47]
    | 98 => return [8]
    | 102 => return [12]
    | 110 => return [10]
    | 114 => return [13]
    | 116 => return [9]
    | 117 => escapedCharacter
    | _ => failHere .invalidEscape

/-- Reads a string after its opening quote, in at most so many pieces. -/
def stringBytes : Nat → Reader Bytes
  | 0 => failHere .endInString
  | pieces + 1 => do
    let plain := (← get).rest.takeWhile fun b => 32 ≤ b && b != 34 && b != 92
    skip plain.length
    match ← peek with
    | none => failHere .endInString
    | some b =>
      skip 1
      if b = 34 then return plain
      else if b = 92 then
        let special ← escape
        return plain ++ special ++ (← stringBytes pieces)
      else failHere .controlCharacter

def string : Reader String := do
  let bytes ← stringBytes ((← get).rest.length + 1)
  return Utf8.decodeLossy bytes

/-! ## Values -/

/-- Whether a list goes on after `first` items; a comma before the next one is read. -/
def hasItem (first : Bool) : Reader Bool := do
  match ← peekToken with
  | none => failNext .endInList
  | some b =>
    if b = 93 then return false
    else if first then return true
    else if b = 44 then
      skip 1
      match ← peekToken with
      | none => failNext .endInValue
      | some 93 => failNext .trailingComma
      | some _ => return true
    else failNext .expectedListEnd

/-- Whether an object goes on; a comma before the next key is read. -/
def hasKey (first : Bool) : Reader Bool := do
  match ← peekToken with
  | none => failNext .endInObject
  | some b =>
    if b = 125 then return false
    else if first then
      if b = 34 then return true else failNext .keyNotText
    else if b = 44 then
      skip 1
      match ← peekToken with
      | none => failNext .endInValue
      | some 34 => return true
      | some 125 => failNext .trailingComma
      | some _ => failNext .keyNotText
    else failNext .expectedObjectEnd

/-- Reads the colon after a key. -/
def colon : Reader Unit := do
  match ← peekToken with
  | none => failNext .endInObject
  | some 58 => skip 1
  | some _ => failNext .expectedColon

/-- Reads the items of a list, at most so many. -/
def items (value : Reader Value) : Nat → Bool → Reader (List Value)
  | 0, _ => failNext .endInList
  | count + 1, first => do
    if ← hasItem first then
      let v ← value
      return v :: (← items value count false)
    else
      skip 1
      return []

/-- Reads the rows of an object, at most so many. -/
def rows (value : Reader Value) :
    Nat → Bool → List (String × Value) → Reader (List (String × Value))
  | 0, _, _ => failNext .endInObject
  | count + 1, first, read => do
    if ← hasKey first then
      skip 1
      let key ← string
      colon
      let v ← value
      rows value count false (Json.insert key v read)
    else
      skip 1
      return read

/-- Reads a value; what begins with a bracket is left to `bracket`, told whether it is an object. -/
def valueWith (bracket : Bool → Reader Value) : Reader Value := do
  match ← peekToken with
  | none => failNext .endInValue
  | some b =>
    match b with
    | 110 => skip 1; word [117, 108, 108]; return .null
    | 116 => skip 1; word [114, 117, 101]; return .bool true
    | 102 => skip 1; word [97, 108, 115, 101]; return .bool false
    | 45 => skip 1; return .number (← number false)
    | 34 => skip 1; return .text (← string)
    | 91 => bracket false
    | 123 => bracket true
    | b => if isDigit b then return .number (← number true) else failNext .expectedValue

/-- Reads a value with brackets nested at most `depth` deep. -/
def value : Nat → Reader Value
  | 0 => valueWith fun _ => failNext .tooDeep
  | depth + 1 => valueWith fun isObject => do
    skip 1
    let count := (← get).rest.length + 1
    if isObject then return .object (← rows (value depth) count true [])
    else return .array (← items (value depth) count true)

/-- How deep brackets may be nested. -/
def maxDepth : Nat := 127

/-- Reads a value after which nothing follows but white space. -/
def document : Reader Value := do
  let v ← value maxDepth
  match ← peekToken with
  | none => return v
  | some _ => failNext .trailingCharacters

end Reader

/-- The value a text stands for. -/
def read (text : Bytes) : Except Fault Value :=
  (Reader.document.run ⟨text, 0⟩).map (·.1)

end Taskwork.Json
