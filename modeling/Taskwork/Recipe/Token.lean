/-
The words and signs of a recipe, with their places. Text that is neither is a token of its own,
which no recipe may hold.
-/
import Taskwork.Decimal.Nearest
import Taskwork.Number
import Taskwork.Recipe.Expr
import Taskwork.Text.Blank

namespace Taskwork.Recipe

inductive Token where
  | int (n : Int)
  | float (x : Float)
  | text (s : String)
  | name (s : String)
  /-- A word with a meaning of its own. -/
  | word (s : String)
  | sign (s : String)
  | invalid
  | stop
  deriving Repr, Inhabited

namespace Token

def isWord (t : Token) (s : String) : Bool :=
  match t with
  | .word w => w == s
  | _ => false

def isSign (t : Token) (s : String) : Bool :=
  match t with
  | .sign w => w == s
  | _ => false

/-- The words that mean something. -/
def words : List String :=
  ["true", "false", "let", "if", "else", "for", "in", "fn", "return", "import", "as"]

/-- The words that no recipe may use. -/
def refusedWords : List String :=
  ["eval", "const", "while", "loop", "do", "until", "switch", "break", "continue", "throw", "try",
    "catch", "export", "global", "private", "this", "var", "static", "is", "goto", "exit", "match",
    "case", "public", "protected", "new", "use", "with", "module", "package", "super", "thread",
    "spawn", "go", "await", "async", "sync", "yield", "default", "void", "null", "nil"]

/-- The signs, longer ones before those they begin with. -/
def signs : List String :=
  ["==", "!=", "#\x7b", "+", "-", ">", "=", "(", ")", "[", "]", "\x7b", "\x7d", ",", ";", ":", "."]

/-- A stretch of text and what follows it. -/
def span (p : Char → Bool) (cs : List Char) : List Char × List Char :=
  (cs.takeWhile p, cs.dropWhile p)

/-! ## Numbers -/

def isNumeral (c : Char) : Bool := c.isDigit || c == '_'

def digitValue (cs : List Char) : Nat :=
  (cs.filter Char.isDigit).foldl (fun n d => 10 * n + (d.toNat - '0'.toNat)) 0

/-- The exponent at the beginning of a text, its length and value. -/
def exponent (cs : List Char) : Nat × Int :=
  match cs with
  | c :: rest =>
    if c = 'e' ∨ c = 'E' then
      let (signLength, body) : Nat × List Char := match rest with
        | '-' :: r => (1, r)
        | '+' :: r => (1, r)
        | r => (0, r)
      let digits := body.takeWhile Char.isDigit
      if digits.isEmpty then (0, 0)
      else
        let n : Int := digitValue digits
        (1 + signLength + digits.length, if rest.head? = some '-' then -n else n)
    else (0, 0)
  | [] => (0, 0)

/-- The number at the beginning of a text, and its length. A whole number that is too great to
compute with is a double. -/
def number (cs : List Char) : Token × Nat :=
  let whole := cs.takeWhile isNumeral
  let rest := cs.drop whole.length
  let part := match rest with
    | '.' :: d :: r => if d.isDigit then d :: r.takeWhile isNumeral else []
    | _ => []
  let hasPart := !part.isEmpty
  let used := whole.length + (if hasPart then part.length + 1 else 0)
  let (expLength, exp) := exponent (cs.drop used)
  let places : Int := (part.filter Char.isDigit).length
  if hasPart || expLength ≠ 0 then
    (.float (Decimal.nearest (digitValue (whole ++ part)) (exp - places)), used + expLength)
  else
    let n := digitValue whole
    (if Number.isScriptInt n then .int n else .float (Decimal.nearest n 0), used)

/-! ## Text -/

def hexValue? (c : Char) : Option Nat :=
  if c.isDigit then some (c.toNat - '0'.toNat)
  else if 'a' ≤ c ∧ c ≤ 'f' then some (c.toNat - 'a'.toNat + 10)
  else if 'A' ≤ c ∧ c ≤ 'F' then some (c.toNat - 'A'.toNat + 10)
  else none

/-- The character that some hexadecimal digits stand for. -/
def codePoint? (count : Nat) (cs : List Char) : Option Char :=
  let digits := cs.take count
  if digits.length < count then none
  else (digits.mapM hexValue?).bind fun ds =>
    let n := ds.foldl (fun n d => 16 * n + d) 0
    if h : n.isValidChar then some (Char.ofNatAux n h) else none

/-- What the text after a backslash stands for, and its length. -/
def escape? : List Char → Option (Char × Nat)
  | '\\' :: _ => some ('\\', 1)
  | '"' :: _ => some ('"', 1)
  | '\'' :: _ => some ('\'', 1)
  | 'n' :: _ => some ('\n', 1)
  | 't' :: _ => some ('\t', 1)
  | 'r' :: _ => some ('\r', 1)
  | 'x' :: r => (codePoint? 2 r).map fun c => (c, 3)
  | 'u' :: r => (codePoint? 4 r).map fun c => (c, 5)
  | 'U' :: r => (codePoint? 8 r).map fun c => (c, 9)
  | _ => none

/-- The text after an opening quote, and the length up to the closing one; at most so many
characters are looked at. -/
def quoted : Nat → List Char → Option (List Char × Nat)
  | 0, _ => none
  | _ + 1, [] => none
  | limit + 1, c :: rest =>
    if c = '"' then some ([], 1)
    else if c = '\n' then none
    else if c = '\\' then
      (escape? rest).bind fun (e, n) =>
        (quoted limit (rest.drop n)).map fun (inner, m) => (e :: inner, 1 + n + m)
    else (quoted limit rest).map fun (inner, m) => (c :: inner, 1 + m)

/-! ## Comments -/

/-- The length of a comment in which others may be nested, after its opening sign. -/
def commentLength : Nat → List Char → Nat
  | depth, '/' :: '*' :: rest => 2 + commentLength (depth + 1) rest
  | depth, '*' :: '/' :: rest =>
    match depth with
    | 0 => 2
    | depth + 1 => 2 + commentLength depth rest
  | depth, _ :: rest => 1 + commentLength depth rest
  | _, [] => 0

/-! ## Tokens -/

/-- The token at the beginning of a text that does not begin with white space, and its length; a
comment is no token. -/
def next (cs : List Char) : Option Token × Nat :=
  match cs with
  | '/' :: '/' :: rest => (none, 2 + (rest.takeWhile (· != '\n')).length)
  | '/' :: '*' :: rest => (none, 2 + commentLength 0 rest)
  | '"' :: rest =>
    match quoted (rest.length + 1) rest with
    | some (inner, n) => (some (.text (String.ofList inner)), 1 + n)
    | none => (some .invalid, cs.length)
  | c :: _ =>
    if c.isDigit then
      let (t, n) := number cs
      (some t, n)
    else if c.isAlpha || c == '_' then
      let name := cs.takeWhile fun c => c.isAlphanum || c == '_'
      let s := String.ofList name
      let t := if words.contains s then Token.word s
        else if refusedWords.contains s || name.all (· == '_') then .invalid
        else .name s
      (some t, name.length)
    else match signs.find? fun s => s.toList.isPrefixOf cs with
      | some s => (some (.sign s), s.length)
      | none => (some .invalid, 1)
  | [] => (some .stop, 0)

/-- The place after some text. -/
def advance (pos : Pos) (cs : List Char) : Pos :=
  cs.foldl (fun pos c => if c = '\n' then ⟨pos.line + 1, 1⟩ else ⟨pos.line, pos.column + 1⟩) pos

/-- The tokens of a text from a place on, at most so many; the last one is the end. -/
def scan : Nat → Pos → List Char → List (Token × Pos)
  | 0, pos, _ => [(.stop, pos)]
  | limit + 1, pos, cs =>
    let space := cs.takeWhile Text.isBlank
    let pos := advance pos space
    let cs := cs.drop space.length
    match cs with
    | [] => [(.stop, pos)]
    | cs =>
      let (t, n) := next cs
      let rest := scan limit (advance pos (cs.take n)) (cs.drop n)
      match t with
      | some t => (t, pos) :: rest
      | none => rest

/-- The tokens of a text. -/
def ofText (text : String) : List (Token × Pos) :=
  scan (text.length + 1) ⟨1, 1⟩ text.toList

end Token
end Taskwork.Recipe
