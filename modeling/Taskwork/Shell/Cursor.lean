/-
A place in a source text: the text from there on, with its line and column, both counted from 1.
Every movement of a cursor goes forward, which is what lets the parser end.
-/

namespace Taskwork.Shell

structure Cursor where
  rest : List Char
  line : Nat
  column : Nat
  deriving DecidableEq, Repr, Inhabited

namespace Cursor

/-- The start of a text. -/
def ofString (source : String) : Cursor := ⟨source.toList, 1, 1⟩

/-- How much text is left. -/
def size (c : Cursor) : Nat := c.rest.length

/-- Moves over one character; a newline ends the line. -/
def step (c : Cursor) : Cursor :=
  match c.rest with
  | [] => c
  | '\n' :: r => ⟨r, c.line + 1, 1⟩
  | _ :: r => ⟨r, c.line, c.column + 1⟩

/-- The text between two places of one source. -/
def upTo (c d : Cursor) : List Char := c.rest.take (c.rest.length - d.rest.length)

theorem size_step_le (c : Cursor) : c.step.size ≤ c.size := by
  unfold step size; split <;> simp_all

theorem size_step {c : Cursor} {x : Char} {r : List Char} (h : c.rest = x :: r) :
    c.step.size + 1 = c.size := by
  unfold step size; split <;> simp_all

theorem rest_step {c : Cursor} {x : Char} {r : List Char} (h : c.rest = x :: r) :
    c.step.rest = r := by
  unfold step; split <;> simp_all

/-! ## Character classes -/

/-- Blanks separate words; a newline is not one of them. -/
def isBlank (c : Char) : Bool := c == ' ' || c == '\t' || c == '\r'

/-- The characters that end an unquoted word. -/
def isMeta (c : Char) : Bool :=
  isBlank c || c == '\n' || c == ';' || c == '&' || c == '|' || c == '(' || c == ')' ||
    c == '<' || c == '>'

def isNameStart (c : Char) : Bool := c.isAlpha || c == '_'

def isNameChar (c : Char) : Bool := c.isAlphanum || c == '_'

/-- An identifier: a letter or underscore, then letters, digits and underscores. -/
def isName : List Char → Bool
  | [] => false
  | c :: cs => isNameStart c && cs.all isNameChar

/-! ## Moving over text -/

/-- Moves over `n` characters. -/
def advance : Nat → Cursor → Cursor
  | 0, c => c
  | n + 1, c => advance n c.step

theorem size_advance_le (n : Nat) (c : Cursor) : (c.advance n).size ≤ c.size := by
  induction n generalizing c with
  | zero => exact Nat.le_refl _
  | succ n ih => exact Nat.le_trans (ih c.step) (size_step_le c)

/-- Moves over the longest run of characters satisfying `p`. -/
def skipWhile (p : Char → Bool) (c : Cursor) : Cursor :=
  c.advance (c.rest.takeWhile p).length

/-- The length of the gap before the next piece of a statement: blanks, line continuations,
comments up to the end of their line, and the characters satisfying `between`. -/
def gap (between : Char → Bool) : Bool → List Char → Nat
  | _, [] => 0
  | true, x :: r =>
    if x = '\n' then if between x then 1 + gap between false r else 0
    else 1 + gap between true r
  | false, '\\' :: '\n' :: r => 2 + gap between false r
  | false, x :: r =>
    if x = '#' then 1 + gap between true r
    else if isBlank x || between x then 1 + gap between false r
    else 0

/-- To the next word of a command. -/
def skipBlanks (c : Cursor) : Cursor := c.advance (gap (fun _ => false) false c.rest)

/-- To the command after an operator, which may stand on a later line. -/
def skipLinebreaks (c : Cursor) : Cursor := c.advance (gap (· == '\n') false c.rest)

/-- To the next statement. -/
def skipSeparators (c : Cursor) : Cursor :=
  c.advance (gap (fun x => x == '\n' || x == ';') false c.rest)

theorem size_skipWhile_le (p : Char → Bool) (c : Cursor) : (c.skipWhile p).size ≤ c.size :=
  size_advance_le _ c

theorem size_skipBlanks_le (c : Cursor) : c.skipBlanks.size ≤ c.size := size_advance_le _ c

theorem size_skipLinebreaks_le (c : Cursor) : c.skipLinebreaks.size ≤ c.size := size_advance_le _ c

theorem size_skipSeparators_le (c : Cursor) : c.skipSeparators.size ≤ c.size := size_advance_le _ c

/-- Whether the next character is `x`, alone as a word. -/
def atLone (x : Char) (c : Cursor) : Bool :=
  match c.rest with
  | y :: [] => y == x
  | y :: z :: _ => y == x && isMeta z
  | [] => false

end Cursor
end Taskwork.Shell
