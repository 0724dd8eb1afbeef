/-
Reading a script from its text. Each function takes the place it starts at and answers with what
it read and the place it ended at; the place comes with the fact that it is not before the start
(`Reached`) or lies behind it (`Passed`), and that is the measure by which reading ends.
-/
import Taskwork.Shell.Cursor
import Taskwork.Shell.Script
import Taskwork.Shell.SyntaxError
import Taskwork.Text.Blank
import Taskwork.Text.Integer

namespace Taskwork.Shell

/-- Something read from `c` on, perhaps without moving. -/
structure Reached (c : Cursor) (α : Type) where
  value : α
  next : Cursor
  le : next.size ≤ c.size

/-- Something read from `c` on that took at least one character. -/
structure Passed (c : Cursor) (α : Type) where
  value : α
  next : Cursor
  lt : next.size < c.size

namespace Reached

/-- The place of the next word of a command. -/
def pastBlanks (c : Cursor) : Reached c Unit := ⟨(), c.skipBlanks, c.size_skipBlanks_le⟩

/-- The place of the command after an operator. -/
def pastLinebreaks (c : Cursor) : Reached c Unit := ⟨(), c.skipLinebreaks, c.size_skipLinebreaks_le⟩

/-- The place of the next statement. -/
def pastSeparators (c : Cursor) : Reached c Unit := ⟨(), c.skipSeparators, c.size_skipSeparators_le⟩

/-- The place after the next character. -/
def pastOne (c : Cursor) : Reached c Unit := ⟨(), c.step, c.size_step_le⟩

end Reached

/-- What ends a list of statements. -/
inductive Closer where
  | endOfText
  | paren
  | brace
  deriving DecidableEq, Repr, Inhabited

namespace Closer

/-- Whether the list ends at this place. -/
def holdsAt (closer : Closer) (c : Cursor) : Bool :=
  match closer with
  | .endOfText => c.rest.isEmpty
  | .paren => c.rest.head? == some ')'
  | .brace => c.atLone '\x7d'

def char : Closer → Char
  | .paren => ')'
  | _ => '\x7d'

end Closer

namespace Parser

def fail {α : Type} (c : Cursor) (fault : SyntaxFault) : Except SyntaxError α :=
  .error ⟨c.line, c.column, fault⟩

/-- The words that no command may start with. -/
def reservedWords : List String :=
  ["if", "then", "else", "elif", "fi", "for", "while", "until", "do", "done", "case", "esac",
    "function", "select"]

/-- The number a text stands for, if a descriptor can have it. A `+` may come first. -/
def descriptor? (text : List Char) : Option Nat :=
  match text with
  | '-' :: _ => none
  | cs => (Text.integer? (.unsigned 32) cs).map Int.toNat

/-- The assignment a word stands for before the name of a command: an identifier and `=`, all of
it unquoted, then the value. -/
def assignment? : Word → Option Assign
  | .literal text false :: rest =>
    let name := text.toList.takeWhile (· != '=')
    match text.toList.dropWhile (· != '=') with
    | [] => none
    | _ :: value =>
      if Cursor.isName name then
        some (.mk (String.ofList name)
          (if value.isEmpty then rest else .literal (String.ofList value) false :: rest))
      else none
  | _ => none

/-- The name of a parameter, and the place after it. -/
def parameterName (c : Cursor) : Reached c String :=
  match c.rest with
  | '?' :: _ => ⟨"?", c.step, c.size_step_le⟩
  | x :: _ =>
    if Cursor.isNameStart x then
      ⟨String.ofList (c.rest.takeWhile Cursor.isNameChar), c.skipWhile Cursor.isNameChar,
        c.size_skipWhile_le _⟩
    else ⟨"", c, Nat.le_refl _⟩
  | [] => ⟨"", c, Nat.le_refl _⟩

/-- One thing among those a simple command is made of. -/
inductive Item where
  | assign (a : Assign)
  | word (w : Word)
  | redirect (r : Redirect)

/-- The operator of a redirection, with the descriptor it is for. -/
def redirectOperator? (c : Cursor) : Except SyntaxError (Option (Passed c (Nat × RedirectKind))) :=
  let digits := c.rest.takeWhile Char.isDigit
  let s := c.skipWhile Char.isDigit
  have hs : s.size ≤ c.size := c.size_skipWhile_le _
  match h : s.rest with
  | '&' :: '>' :: r =>
    if !digits.isEmpty then .ok none
    else if r.head? == some '>' then fail s.step.step .appendBoth
    else .ok (some ⟨(1, .writeBoth), s.step.step, by
      have := Cursor.size_step h; have := s.step.size_step_le; omega⟩)
  | '>' :: r =>
    match (if digits.isEmpty then some 1 else descriptor? digits) with
    | none => fail s .badDescriptor
    | some fd =>
      match r with
      | '>' :: _ => .ok (some ⟨(fd, .append), s.step.step, by
          have := Cursor.size_step h; have := s.step.size_step_le; omega⟩)
      | '&' :: _ => .ok (some ⟨(fd, .duplicate), s.step.step, by
          have := Cursor.size_step h; have := s.step.size_step_le; omega⟩)
      | '|' :: _ => .ok (some ⟨(fd, .write), s.step.step, by
          have := Cursor.size_step h; have := s.step.size_step_le; omega⟩)
      | _ => .ok (some ⟨(fd, .write), s.step, by have := Cursor.size_step h; omega⟩)
  | '<' :: r =>
    match (if digits.isEmpty then some 0 else descriptor? digits) with
    | none => fail s .badDescriptor
    | some fd =>
      match r with
      | '<' :: _ => fail s.step .hereDocument
      | '&' :: _ => fail s.step .duplicateInput
      | _ => .ok (some ⟨(fd, .read), s.step, by have := Cursor.size_step h; omega⟩)
  | _ => .ok none

/-- The characters up to the next single quote, and the place after that. -/
def singleQuoted (c : Cursor) : Except SyntaxError (Passed c String) :=
  let start := c
  let s := c.step.skipWhile (· != '\'')
  match h : s.rest with
  | [] => fail start .unterminatedSingle
  | _ :: _ => .ok ⟨String.ofList (c.step.rest.takeWhile (· != '\'')), s.step, by
      have := Cursor.size_step h
      have : s.size ≤ c.step.size := c.step.size_skipWhile_le _
      have := c.size_step_le
      omega⟩

/-- Whether a word goes on with this character. Only `}` ends the text of a default. -/
def continues (inDefault : Bool) (x : Char) : Bool :=
  if inDefault then x != '\x7d' else !Cursor.isMeta x

mutual

/-- Statements up to `closer`, at which the cursor is left. -/
def statements (closer : Closer) (c : Cursor) : Except SyntaxError (Reached c Script) := do
  let ⟨_, s, hs⟩ := Reached.pastSeparators c
  if closer.holdsAt s then
    return ⟨[], s, hs⟩
  else if s.rest.isEmpty then
    fail s (.expected closer.char)
  else
    let ⟨(first, rest), e, he⟩ ← andOr s
    let text := Text.trim (String.ofList (s.upTo e))
    let statement := Statement.mk first rest text s.line
    let ⟨_, e', he'⟩ := Reached.pastBlanks e
    let continue? : Bool := match e'.rest with
      | [] => true
      | x :: _ => x == '\n' || x == ';' || (x == ')' && closer == .paren)
    if continue? then
      let ⟨more, f, hf⟩ ← statements closer e'
      return ⟨statement :: more, f, by omega⟩
    else
      match e'.rest with
      | '&' :: _ => fail e' .backgroundJob
      | x :: _ => fail e' (.unexpected x)
      | [] => fail e' .missingCommand
termination_by 16 * c.size + 9
decreasing_by all_goals omega

/-- Pipelines joined by `&&` and `||`. -/
def andOr (c : Cursor) : Except SyntaxError (Passed c (Pipeline × List Link)) := do
  let ⟨first, s, hs⟩ ← pipeline c
  let ⟨rest, e, he⟩ ← links s
  return ⟨(first, rest), e, by omega⟩
termination_by 16 * c.size + 8
decreasing_by all_goals omega

def links (c : Cursor) : Except SyntaxError (Reached c (List Link)) := do
  let ⟨_, s, hs⟩ := Reached.pastBlanks c
  let connector? : Option Connector := match s.rest with
    | '&' :: '&' :: _ => some .and
    | '|' :: '|' :: _ => some .or
    | _ => none
  match connector? with
  | none => return ⟨[], s, hs⟩
  | some connector =>
    have := s.size_step_le
    have := s.step.size_step_le
    let ⟨_, p, hp⟩ := Reached.pastLinebreaks s.step.step
    let ⟨next, e, he⟩ ← pipeline p
    let ⟨more, f, hf⟩ ← links e
    return ⟨.mk connector next :: more, f, by omega⟩
termination_by 16 * c.size + 8
decreasing_by all_goals omega

/-- Commands joined by `|`, after a `!` that stands alone or none. -/
def pipeline (c : Cursor) : Except SyntaxError (Passed c Pipeline) := do
  let ⟨_, s, hs⟩ := Reached.pastBlanks c
  let negated := s.atLone '!'
  let ⟨_, b, hb⟩ := if negated then Reached.pastOne s else ⟨(), s, Nat.le_refl _⟩
  let ⟨first, e, he⟩ ← command b
  let ⟨more, f, hf⟩ ← piped e
  return ⟨.mk negated (first :: more), f, by omega⟩
termination_by 16 * c.size + 7
decreasing_by all_goals omega

def piped (c : Cursor) : Except SyntaxError (Reached c (List Command)) := do
  let ⟨_, s, hs⟩ := Reached.pastBlanks c
  let pipe : Bool := match s.rest with
    | '|' :: '|' :: _ => false
    | '|' :: _ => true
    | _ => false
  if pipe then
    have := s.size_step_le
    let ⟨_, p, hp⟩ := Reached.pastLinebreaks s.step
    let ⟨next, e, he⟩ ← command p
    let ⟨more, f, hf⟩ ← piped e
    return ⟨next :: more, f, by omega⟩
  else return ⟨[], s, hs⟩
termination_by 16 * c.size + 7
decreasing_by all_goals omega

def command (c : Cursor) : Except SyntaxError (Passed c Command) := do
  let ⟨_, s, hs⟩ := Reached.pastBlanks c
  match h : s.rest with
  | '(' :: r =>
    if r.head? == some '(' then fail s .arithmeticCommand
    else
      have hb := Cursor.size_step h
      let ⟨script, e, he⟩ ← statements .paren s.step
      have := e.size_step_le
      let ⟨redirects, f, hf⟩ ← trailing e.step
      return ⟨.subshell script redirects, f, by omega⟩
  | '\x7b' :: _ =>
    if s.atLone '\x7b' then
      have hb := Cursor.size_step h
      let ⟨script, e, he⟩ ← statements .brace s.step
      have := e.size_step_le
      let ⟨redirects, f, hf⟩ ← trailing e.step
      return ⟨.group script redirects, f, by omega⟩
    else
      let ⟨found, e, he⟩ ← simple s
      return ⟨found, e, by omega⟩
  | _ =>
    let ⟨found, e, he⟩ ← simple s
    return ⟨found, e, by omega⟩
termination_by 16 * c.size + 6
decreasing_by all_goals omega

/-- The redirections after a subshell or group. -/
def trailing (c : Cursor) : Except SyntaxError (Reached c (List Redirect)) := do
  let ⟨_, s, hs⟩ := Reached.pastBlanks c
  match ← redirect? s with
  | none => return ⟨[], s, hs⟩
  | some ⟨first, e, he⟩ =>
    let ⟨more, f, hf⟩ ← trailing e
    return ⟨first :: more, f, by omega⟩
termination_by 16 * c.size + 6
decreasing_by all_goals omega

/-- A command of assignments, words and redirections, at least one of any kind. -/
def simple (c : Cursor) : Except SyntaxError (Passed c Command) := do
  match ← item? true c with
  | ⟨none, _, _⟩ => fail c .missingCommand
  | ⟨some ⟨first, e, he⟩, _, _⟩ =>
    let ⟨(assigns, words, redirects), f, hf⟩ ← items (first matches .word _) e
    let whole := match first with
      | .assign a => .simple (a :: assigns) words redirects
      | .word w => .simple assigns (w :: words) redirects
      | .redirect r => .simple assigns words (r :: redirects)
    return ⟨whole, f, by omega⟩
termination_by 16 * c.size + 5
decreasing_by all_goals omega

/-- The further items of a command, of which a word has been read already or not. -/
def items (named : Bool) (c : Cursor) :
    Except SyntaxError (Reached c (List Assign × List Word × List Redirect)) := do
  match ← item? (!named) c with
  | ⟨none, s, hs⟩ => return ⟨([], [], []), s, hs⟩
  | ⟨some ⟨first, e, he⟩, _, _⟩ =>
    let ⟨(assigns, words, redirects), f, hf⟩ ← items (named || first matches .word _) e
    let all := match first with
      | .assign a => (a :: assigns, words, redirects)
      | .word w => (assigns, w :: words, redirects)
      | .redirect r => (assigns, words, r :: redirects)
    return ⟨all, f, by omega⟩
termination_by 16 * c.size + 5
decreasing_by all_goals omega

/-- The next item of a command, or none and the place where the command ends. Before its first
word a command may have assignments, and that word must not be a reserved one. -/
def item? (leading : Bool) (c : Cursor) :
    Except SyntaxError (Reached c (Option (Passed c Item))) := do
  let ⟨_, s, hs⟩ := Reached.pastBlanks c
  match h : s.rest with
  | [] => return ⟨none, s, hs⟩
  | x :: r =>
    if x == '\n' || x == ';' || x == '|' || x == ')' || (x == '&' && r.head? != some '>') then
      return ⟨none, s, hs⟩
    else if x == '(' then
      fail s (.unexpected '(')
    else
      match ← redirect? s with
      | some ⟨found, e, he⟩ => return ⟨some ⟨.redirect found, e, by omega⟩, s, hs⟩
      | none =>
        let ⟨parts, e, he⟩ ← piece s
        let ⟨more, f, hf⟩ ← word false e
        let found := parts.foldr Word.cons more
        if leading then
          match assignment? found with
          | some a => return ⟨some ⟨.assign a, f, by omega⟩, s, hs⟩
          | none =>
            match Word.plain? found with
            | some text =>
              if reservedWords.contains text then fail s (.reserved text)
              else return ⟨some ⟨.word found, f, by omega⟩, s, hs⟩
            | none => return ⟨some ⟨.word found, f, by omega⟩, s, hs⟩
        else return ⟨some ⟨.word found, f, by omega⟩, s, hs⟩
termination_by 16 * c.size + 4
decreasing_by all_goals omega

/-- A redirection, if one starts here. -/
def redirect? (c : Cursor) : Except SyntaxError (Option (Passed c Redirect)) := do
  match ← redirectOperator? c with
  | none => return none
  | some ⟨(fd, kind), s, hs⟩ =>
    let ⟨_, t, ht⟩ := Reached.pastBlanks s
    let ⟨target, e, he⟩ ← word false t
    if target.isEmpty then fail t .missingTarget
    else if kind == .duplicate &&
        ((Word.plain? target).bind fun text => descriptor? text.toList).isNone then
      fail t .targetNotDescriptor
    else return some ⟨.mk fd kind target, e, by omega⟩
termination_by 16 * c.size + 3
decreasing_by all_goals omega

/-- The rest of a word. -/
def word (inDefault : Bool) (c : Cursor) : Except SyntaxError (Reached c Word) := do
  match c.rest with
  | [] => return ⟨[], c, Nat.le_refl _⟩
  | x :: _ =>
    if continues inDefault x then
      let ⟨parts, e, he⟩ ← piece c
      let ⟨more, f, hf⟩ ← word inDefault e
      return ⟨parts.foldr Word.cons more, f, by omega⟩
    else return ⟨[], c, Nat.le_refl _⟩
termination_by 16 * c.size + 2
decreasing_by all_goals omega

/-- One stretch of a word: a character, an escape, a quotation or an expansion. -/
def piece (c : Cursor) : Except SyntaxError (Passed c Word) := do
  match h : c.rest with
  | [] => fail c .missingCommand
  | '\\' :: '\n' :: _ =>
    return ⟨[], c.step.step, by have := Cursor.size_step h; have := c.step.size_step_le; omega⟩
  | '\\' :: x :: _ =>
    return ⟨[.literal x.toString true], c.step.step, by
      have := Cursor.size_step h; have := c.step.size_step_le; omega⟩
  | '\'' :: _ =>
    let ⟨text, e, he⟩ ← singleQuoted c
    return ⟨[.literal text true], e, he⟩
  | '"' :: _ =>
    have hs := Cursor.size_step h
    let ⟨parts, e, he⟩ ← doubleQuoted c c.step
    return ⟨Word.cons (.literal "" true) parts, e, by omega⟩
  | '$' :: _ =>
    let ⟨part, e, he⟩ ← dollar false c
    return ⟨[part], e, he⟩
  | '\x60' :: _ => fail c .backtick
  | x :: _ =>
    return ⟨[.literal x.toString false], c.step, by have := Cursor.size_step h; omega⟩
termination_by 16 * c.size + 1
decreasing_by all_goals omega

/-- The text after an opening double quote at `start`, up to and over the closing one. -/
def doubleQuoted (start c : Cursor) : Except SyntaxError (Reached c Word) := do
  match h : c.rest with
  | [] => fail start .unterminatedDouble
  | '"' :: _ => return ⟨[], c.step, c.size_step_le⟩
  | '\\' :: x :: _ =>
    have hs := Cursor.size_step h
    have := c.step.size_step_le
    if x == '\n' then
      let ⟨more, f, hf⟩ ← doubleQuoted start c.step.step
      return ⟨more, f, by omega⟩
    else if x == '$' || x == '\x60' || x == '"' || x == '\\' then
      let ⟨more, f, hf⟩ ← doubleQuoted start c.step.step
      return ⟨Word.cons (.literal x.toString true) more, f, by omega⟩
    else
      let ⟨more, f, hf⟩ ← doubleQuoted start c.step
      return ⟨Word.cons (.literal "\\" true) more, f, by omega⟩
  | '$' :: _ =>
    let ⟨part, e, he⟩ ← dollar true c
    let ⟨more, f, hf⟩ ← doubleQuoted start e
    return ⟨Word.cons part more, f, by omega⟩
  | '\x60' :: _ => fail c .backtick
  | x :: _ =>
    have hs := Cursor.size_step h
    let ⟨more, f, hf⟩ ← doubleQuoted start c.step
    return ⟨Word.cons (.literal x.toString true) more, f, by omega⟩
termination_by 16 * c.size + 1
decreasing_by all_goals omega

/-- What a `$` starts: a parameter, a substitution, or just itself. -/
def dollar (quoted : Bool) (c : Cursor) : Except SyntaxError (Passed c Part) := do
  match h : c.rest with
  | [] => fail c .missingCommand
  | _ :: r =>
    have hs := Cursor.size_step h
    have hs' := c.step.size_step_le
    match r with
    | '\x7b' :: _ =>
      let ⟨name, e, he⟩ := parameterName c.step.step
      if name.isEmpty then fail c .badSubstitution
      else
        match h' : e.rest with
        | '\x7d' :: _ => return ⟨.param name none quoted, e.step, by
            have := Cursor.size_step h'; omega⟩
        | ':' :: '-' :: _ =>
          have := Cursor.size_step h'
          have := e.step.size_step_le
          let ⟨fallback, f, hf⟩ ← word true e.step.step
          match f.rest with
          | '\x7d' :: _ =>
            return ⟨.param name (some fallback) quoted, f.step, by have := f.size_step_le; omega⟩
          | _ => fail c .unterminatedExpansion
        | _ => fail c .unsupportedExpansion
    | '(' :: r' =>
      if r'.head? == some '(' then fail c .arithmeticExpansion
      else
        let ⟨script, e, he⟩ ← statements .paren c.step.step
        return ⟨.subst script quoted, e.step, by have := e.size_step_le; omega⟩
    | x :: _ =>
      if x == '?' || Cursor.isNameStart x then
        let ⟨name, e, he⟩ := parameterName c.step
        return ⟨.param name none quoted, e, by omega⟩
      else return ⟨.literal "$" quoted, c.step, by omega⟩
    | [] => return ⟨.literal "$" quoted, c.step, by omega⟩
termination_by 16 * c.size
decreasing_by all_goals omega

end

end Parser

/-- The script that a text stands for. -/
def Script.ofString (source : String) : Except SyntaxError Script :=
  (Parser.statements .endOfText (.ofString source)).map (·.value)

end Taskwork.Shell
