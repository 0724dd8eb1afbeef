/-
Reading a text by positions. A position is a number of characters; moving on adds to it, whatever the
text holds, and a stretch of the text, a line or a column can be asked for only within the text. What a
function of the parser does at a position is a course: it asks for such things and calls functions at
positions, and a round of a loop that goes on calls the loop at the position it goes on from. Running a
course with fuel bounds how deep the calls go, so that a run comes to an end if it has an outcome.
-/
import Taskwork.Proofs.Shell.Composition

namespace Taskwork.Shell

open Parser (Parts)

/-! ## What can be asked of a text -/

/-- The place at a position of a text. -/
def place (text : List Char) (n : Nat) : Cursor := (⟨text, 1, 1⟩ : Cursor).advance n

/-- The characters between two positions. -/
def slice? (text : List Char) (first last : Nat) : Option (List Char) :=
  if first ≤ last ∧ last ≤ text.length then some ((text.take last).drop first) else none

/-- The position of the last newline. -/
def lastNewline? : List Char → Option Nat
  | [] => none
  | x :: r => match lastNewline? r with
    | some i => some (i + 1)
    | none => if x = '\n' then some 0 else none

/-- The line of a position: one more than there are newlines before it. -/
def lineAt? (text : List Char) (n : Nat) : Option Nat :=
  (slice? text 0 n).map fun before => before.count '\n' + 1

/-- The column of a position: how far it is from the newline before it. -/
def columnAt? (text : List Char) (n : Nat) : Option Nat :=
  (slice? text 0 n).bind fun before => match lastNewline? before with
    | some i => if i ≤ n then some (n - i) else none
    | none => some (n + 1)

/-- A fault at a position; it stands at the end of the text if the position does not. -/
def faultAt? (text : List Char) (n : Nat) (fault : SyntaxFault) : Option SyntaxError := do
  let line ← lineAt? text (min n text.length)
  let column ← columnAt? text (min n text.length)
  return ⟨line, column, fault⟩

/-- Whether some characters are next; they are looked at only if the text is long enough. -/
def startsAt (text : List Char) (cs : List Char) (n : Nat) : Bool :=
  n + cs.length ≤ text.length && cs.isPrefixOf (text.drop n)

theorem Cursor.advance_of_rest_nil {c : Cursor} (h : c.rest = []) (k : Nat) : c.advance k = c := by
  induction k with
  | zero => rfl
  | succ k ih =>
    rw [Cursor.advance, show c.step = c by unfold Cursor.step; rw [h]]
    exact ih

section Places

variable (text : List Char)

@[simp] theorem rest_place (n : Nat) : (place text n).rest = text.drop n := Cursor.rest_advance n _

theorem advance_place (n k : Nat) : (place text n).advance k = place text (n + k) := (Cursor.advance_add n k _).symm

theorem step_place (n : Nat) : (place text n).step = place text (n + 1) := advance_place text n 1

/-- The position of a place. -/
def positionOf (c : Cursor) : Nat := text.length - c.size

theorem size_place (n : Nat) : (place text n).size = text.length - n := by
  rw [Cursor.size, rest_place, List.length_drop]

@[simp] theorem positionOf_place {n : Nat} (h : n ≤ text.length) : positionOf text (place text n) = n := by
  rw [positionOf, size_place, Nat.sub_sub_self h]

theorem place_inj {m n : Nat} (hm : m ≤ text.length) (hn : n ≤ text.length) (h : place text m = place text n) :
    m = n := by
  have := congrArg (positionOf text) h
  rwa [positionOf_place text hm, positionOf_place text hn] at this

theorem place_min (n : Nat) : place text (min n text.length) = place text n := by
  rcases Nat.le_total n text.length with h | h
  · rw [Nat.min_eq_left h]
  · have hend : (place text text.length).rest = [] := by rw [rest_place, List.drop_length]
    have := advance_place text text.length (n - text.length)
    rw [Cursor.advance_of_rest_nil hend, Nat.add_sub_cancel' h] at this
    rw [Nat.min_eq_right h, this]

/-- What moving forward from a position leads to is a position in the text. -/
theorem exists_place {n : Nat} {e : Cursor} (hn : n ≤ text.length) (h : (place text n).Within e) :
    ∃ m, e = place text m ∧ n ≤ m ∧ m ≤ text.length := by
  obtain ⟨k, rfl⟩ := h
  refine ⟨min (n + k) text.length, ?_, Nat.le_min.mpr ⟨Nat.le_add_right .., hn⟩, Nat.min_le_right ..⟩
  rw [place_min, advance_place]

theorem slice?_eq {first last : Nat} (h : first ≤ last) (hlast : last ≤ text.length) :
    slice? text first last = some ((place text first).upTo (place text last)) := by
  have hlength : text.length - first - (text.length - last) = last - first := by omega
  rw [slice?, if_pos ⟨h, hlast⟩, Cursor.upTo, rest_place, rest_place, List.length_drop, List.length_drop, hlength,
    List.drop_take]

theorem lineAt?_eq {n : Nat} (h : n ≤ text.length) : lineAt? text n = some (place text n).line := by
  have hline : (place text n).line + (text.drop n).count '\n' = 1 + text.count '\n' := by
    have := Cursor.Within.line_eq (o := ⟨text, 1, 1⟩) (c := place text n) ⟨n, rfl⟩
    rwa [rest_place] at this
  have hcount : (text.take n).count '\n' + (text.drop n).count '\n' = text.count '\n' := by
    rw [← List.count_append, List.take_append_drop]
  rw [lineAt?, slice?, if_pos ⟨Nat.zero_le n, h⟩, List.drop_zero, Option.map_some]
  congr 1
  omega

theorem lastNewline?_lt {cs : List Char} {i : Nat} (h : lastNewline? cs = some i) : i < cs.length := by
  induction cs generalizing i with
  | nil => cases h
  | cons x r ih =>
    rw [lastNewline?] at h
    split at h
    · rename_i j hj
      cases h
      exact Nat.succ_lt_succ (ih hj)
    · split at h
      · cases h
        exact Nat.zero_lt_succ _
      · cases h

/-- The column after some characters of a line, and of those after it if they hold newlines. -/
theorem column_advance (n : Nat) (c : Cursor) (h : n ≤ c.rest.length) :
    (c.advance n).column = match lastNewline? (c.rest.take n) with
      | some i => n - i
      | none => c.column + n := by
  induction n generalizing c with
  | zero => rfl
  | succ n ih =>
    cases hrest : c.rest with
    | nil => rw [hrest] at h; cases h
    | cons x r =>
      have hstep := Cursor.rest_step hrest
      rw [hrest] at h
      rw [Cursor.advance, ih c.step (hstep ▸ Nat.le_of_succ_le_succ h), hstep, List.take_succ_cons, lastNewline?]
      cases lastNewline? (r.take n) with
      | some i => exact (Nat.succ_sub_succ n i).symm
      | none =>
        dsimp only
        by_cases hx : x = '\n'
        · subst hx
          rw [if_pos rfl, Cursor.step, hrest]
          exact Nat.add_comm 1 n
        · rw [if_neg hx]
          have hcolumn : c.step.column = c.column + 1 := by
            unfold Cursor.step
            split <;> rename_i heq <;> rw [hrest] at heq <;> cases heq
            exact absurd rfl hx
          rw [hcolumn, Nat.add_assoc, Nat.add_comm 1 n]

theorem columnAt?_eq {n : Nat} (h : n ≤ text.length) : columnAt? text n = some (place text n).column := by
  rw [columnAt?, slice?, if_pos ⟨Nat.zero_le n, h⟩, List.drop_zero, Option.bind_some, place, column_advance n _ h]
  cases hlast : lastNewline? (text.take n) with
  | some i =>
    have hi := lastNewline?_lt hlast
    rw [List.length_take, Nat.min_eq_left h] at hi
    exact if_pos (Nat.le_of_lt hi)
  | none => exact congrArg some (Nat.add_comm n 1)

theorem faultAt?_eq (n : Nat) (fault : SyntaxFault) :
    faultAt? text n fault = some ⟨(place text n).line, (place text n).column, fault⟩ := by
  rw [faultAt?, lineAt?_eq text (Nat.min_le_right ..), columnAt?_eq text (Nat.min_le_right ..), place_min]
  rfl

theorem startsAt_eq {cs : List Char} (hcs : cs ≠ []) (n : Nat) : startsAt text cs n = cs.isPrefixOf (text.drop n) := by
  rw [startsAt, Bool.and_eq_right_iff_imp, decide_eq_true_iff]
  intro h
  have hlength := (List.isPrefixOf_iff_prefix.1 h).length_le
  have hpos := List.length_pos_iff.mpr hcs
  rw [List.length_drop] at hlength
  omega

theorem isPrefixOf_singleton (x : Char) (cs : List Char) : [x].isPrefixOf cs = (cs.head? == some x) := by
  cases cs with
  | nil => rfl
  | cons y r => simp [List.isPrefixOf, Bool.beq_comm]

theorem startsAt_singleton (x : Char) (n : Nat) : startsAt text [x] n = ((text.drop n).head? == some x) := by
  rw [startsAt_eq text (List.cons_ne_nil _ _), isPrefixOf_singleton]

variable {text} {n : Nat}

theorem lt_of_drop {x : Char} {r : List Char} (h : text.drop n = x :: r) : n < text.length := by
  refine Nat.lt_of_not_le fun hn => ?_
  rw [List.drop_eq_nil_iff.mpr hn] at h
  cases h

theorem drop_succ_of_drop {x : Char} {r : List Char} (h : text.drop n = x :: r) : text.drop (n + 1) = r := by
  rw [List.drop_add_one_eq_tail_drop, h, List.tail_cons]

theorem add_le_of_isPrefixOf {cs : List Char} (hn : n ≤ text.length) (h : cs.isPrefixOf (text.drop n) = true) :
    n + cs.length ≤ text.length := by
  have hlength := (List.isPrefixOf_iff_prefix.1 h).length_le
  rw [List.length_drop] at hlength
  omega

theorem lt_of_any {p : Char → Bool} (h : (text.drop n).head?.any p = true) : n < text.length := by
  cases hrest : text.drop n with
  | nil =>
    rw [hrest] at h
    cases h
  | cons x r => exact lt_of_drop hrest

end Places

/-! ## Calls and courses -/

/-- A call of a function of the parser, or of a loop in one, at a position. -/
inductive Call where
  | blanks (n : Nat)
  | linebreaks (n : Nat)
  | separators (n : Nat)
  /-- The characters from here on that satisfy a condition. -/
  | span (p : Char → Bool) (n : Nat)
  | statements (closer : Closer) (n : Nat)
  | andOr (n : Nat)
  | links (n : Nat)
  | pipeline (n : Nat)
  | piped (n : Nat)
  | command (n : Nat)
  | trailing (n : Nat)
  | simple (n : Nat)
  | items (named : Bool) (n : Nat)
  | redirect (n : Nat)
  | word (inDefault : Bool) (n : Nat)
  /-- A quotation from its opening quote on. -/
  | quotation (n : Nat)
  /-- The rest of the quotation that was opened at `start`. -/
  | quoted (start n : Nat)
  | parameter (n : Nat)
  | dollar (quoted : Bool) (n : Nat)

namespace Call

/-- The position of a call. -/
def pos : Call → Nat
  | blanks n | linebreaks n | separators n | span _ n | statements _ n | andOr n | links n | pipeline n | piped n
  | command n | trailing n | simple n | items _ n | redirect n | word _ n | quotation n | quoted _ n
  | parameter n | dollar _ n => n

/-- What a call reads. -/
@[reducible] def Answer : Call → Type
  | blanks _ | linebreaks _ | separators _ => Unit
  | span _ _ => List Char
  | statements _ _ => Script
  | andOr _ => Pipeline × List Link
  | links _ => List Link
  | pipeline _ => Pipeline
  | piped _ => List Command
  | command _ | simple _ => Command
  | trailing _ => List Redirect
  | items _ _ => Parts
  | redirect _ => Option Redirect
  | word _ _ | quotation _ | quoted _ _ => Word
  | parameter _ => String
  | dollar _ _ => Part

/-- A list of statements, or the word of a default. -/
def isNested : Call → Bool
  | statements _ _ => true
  | word inDefault _ => inDefault
  | _ => false

/-- A call is at a position in the text, and before a character where the function does not look for one. -/
def Stands (text : List Char) : Call → Prop
  | quotation n | dollar _ n => n < text.length
  | k => k.pos ≤ text.length

/-- A call of the same function or loop: one that is made in the course of a loop is its next round. -/
def Again (k k' : Call) : Prop := k.ctorIdx = k'.ctorIdx

end Call

/-- What is done in the course of a call. -/
inductive Course (α : Type) where
  | done (a : α)
  | fail (n : Nat) (fault : SyntaxFault)
  | slice (first last : Nat) (go : List Char → Course α)
  | line (n : Nat) (go : Nat → Course α)
  | call (k : Call) (go : k.Answer × Nat → Course α)

namespace Course

variable {α β : Type}

def bind : Course α → (α → Course β) → Course β
  | done a, f => f a
  | fail n fault, _ => fail n fault
  | slice first last go, f => slice first last fun cs => (go cs).bind f
  | line n go, f => line n fun l => (go l).bind f
  | call k go, f => call k fun r => (go r).bind f

instance : Monad Course where
  pure := done
  bind := bind

/-- Calls a function, and answers with what it reads and the position after it. -/
def ask (k : Call) : Course (k.Answer × Nat) := call k done

/-- The outcome of a course; there is none if something is asked for that is not in the text, or if a
call has none. -/
def run (text : List Char) (answers : (k : Call) → Option (Except SyntaxError (k.Answer × Nat))) :
    Course α → Option (Except SyntaxError α)
  | done a => some (.ok a)
  | fail n fault => (faultAt? text n fault).map .error
  | slice first last go => (slice? text first last).bind fun cs => (go cs).run text answers
  | line n go => (lineAt? text n).bind fun l => (go l).run text answers
  | call k go => (answers k).bind fun
    | .ok r => (go r).run text answers
    | .error e => some (.error e)

/-- The calls made in a course that comes to an end, or to a call that does not. -/
inductive Makes (text : List Char) (answers : (k : Call) → Option (Except SyntaxError (k.Answer × Nat))) :
    Course α → Call → Prop where
  | here {k : Call} {go : k.Answer × Nat → Course α} : Makes text answers (.call k go) k
  | later {k k' : Call} {go : k.Answer × Nat → Course α} {x : k.Answer × Nat} (hx : answers k = some (.ok x))
    (h : Makes text answers (go x) k') : Makes text answers (.call k go) k'
  | slice {first last : Nat} {go : List Char → Course α} {cs : List Char} {k : Call}
    (hcs : slice? text first last = some cs) (h : Makes text answers (go cs) k) :
    Makes text answers (.slice first last go) k
  | line {n l : Nat} {go : Nat → Course α} {k : Call} (hl : lineAt? text n = some l)
    (h : Makes text answers (go l) k) : Makes text answers (.line n go) k

end Course

/-! ## The functions of the parser -/

section Courses

variable (text : List Char)

open Course (ask fail)
open Parser (endsStatement strayAfter endsCommand atPipe connector? descriptor? continues isEscapable
  startsParameter reservedWords assignment?)

/-- The descriptor that the digits before an operator stand for, if there are any. -/
def descriptorBefore? (digits : List Char) : Option (Option Nat) :=
  if digits.isEmpty then some none else (descriptor? digits).map some

/-- What the `>` at a position starts. -/
def outputCourse (fd s : Nat) : Course (Option (Nat × RedirectKind) × Nat) :=
  if startsAt text ['>'] (s + 1) then return (some (fd, .append), s + 2)
  else if startsAt text ['&'] (s + 1) then return (some (fd, .duplicate), s + 2)
  else if startsAt text ['|'] (s + 1) then return (some (fd, .write), s + 2)
  else return (some (fd, .write), s + 1)

/-- What the `<` at a position starts. -/
def inputCourse (fd s : Nat) : Course (Option (Nat × RedirectKind) × Nat) :=
  if startsAt text ['<'] (s + 1) then fail (s + 1) .hereDocument
  else if startsAt text ['&'] (s + 1) then fail (s + 1) .duplicateInput
  else return (some (fd, .read), s + 1)

/-- The operator of a redirection at `s`, after its digits, with the descriptor it is for. -/
def operatorCourse (digits : List Char) (s : Nat) : Course (Option (Nat × RedirectKind) × Nat) :=
  if !digits.isEmpty && !(startsAt text ['<'] s || startsAt text ['>'] s) then return (none, s)
  else match descriptorBefore? digits with
  | none => fail s .badDescriptor
  | some fd =>
    if startsAt text ['&', '>'] s then
      if startsAt text ['>'] (s + 2) then fail (s + 2) .appendBoth
      else return (some (1, .writeBoth), s + 2)
    else if startsAt text ['>'] s then outputCourse text (fd.getD 1) s
    else if startsAt text ['<'] s then inputCourse text (fd.getD 0) s
    else return (none, s)

/-- One stretch of a word that starts with `x` at `n`. -/
def pieceCourse (x : Char) (n : Nat) : Course (Word × Nat) :=
  if x = '\\' then match text.drop (n + 1) with
    | [] => return ([.literal "\\" false], n + 1)
    | y :: _ => if y = '\n' then return ([], n + 2) else return ([.literal y.toString true], n + 2)
  else if x = '\'' then do
    let (cs, e) ← ask (.span (· != '\'') (n + 1))
    if text.length ≤ e then fail n .unterminatedSingle
    else return ([.literal (String.ofList cs) true], e + 1)
  else if x = '"' then ask (.quotation n)
  else if x = '$' then do
    let (part, e) ← ask (.dollar false n)
    return ([part], e)
  else if x = '\x60' then fail n .backtick
  else return ([.literal x.toString false], n + 1)

/-- The reserved word that a word is, where none may stand. -/
def reserved? (named : Bool) (w : Word) : Option String :=
  if named then none else (Word.plain? w).filter fun t => reservedWords.contains t

/-- What is done in the course of each call. -/
def course : (k : Call) → Course (k.Answer × Nat)
  | .blanks n => match text.drop n with
    | [] => return ((), n)
    | x :: r =>
      if Cursor.isBlank x then ask (.blanks (n + 1))
      else if x = '\\' ∧ r.head? = some '\n' then ask (.blanks (n + 2))
      else if x = '#' then do
        let (_, m) ← ask (.span (· != '\n') n)
        ask (.blanks m)
      else return ((), n)
  | .linebreaks n => do
    let (_, m) ← ask (.blanks n)
    if startsAt text ['\n'] m then ask (.linebreaks (m + 1)) else return ((), m)
  | .separators n => do
    let (_, m) ← ask (.blanks n)
    if startsAt text ['\n'] m || startsAt text [';'] m then ask (.separators (m + 1)) else return ((), m)
  | .span p n => match text.drop n with
    | [] => return ([], n)
    | x :: _ =>
      if p x then do
        let (xs, m) ← ask (.span p (n + 1))
        return (x :: xs, m)
      else return ([], n)
  | .statements closer n => do
    let (_, s) ← ask (.separators n)
    if closer.holdsAt (place text s) then return ([], s)
    else if text.length ≤ s then fail s (.expected closer.char)
    else do
      let ((first, rest), e) ← ask (.andOr s)
      let written ← Course.slice s e .done
      let line ← Course.line s .done
      let (_, b) ← ask (.blanks e)
      if !endsStatement closer (text.drop b) then fail b (strayAfter (text.drop b))
      else do
        let (more, f) ← ask (.statements closer b)
        return (.mk first rest (Text.trim (String.ofList written)) line :: more, f)
  | .andOr n => do
    let (first, s) ← ask (.pipeline n)
    let (rest, e) ← ask (.links s)
    return ((first, rest), e)
  | .links n => do
    let (_, s) ← ask (.blanks n)
    match connector? (place text s) with
    | none => return ([], s)
    | some connector => do
      let (_, p) ← ask (.linebreaks (s + 2))
      let (next, e) ← ask (.pipeline p)
      let (more, f) ← ask (.links e)
      return (.mk connector next :: more, f)
  | .pipeline n => do
    let (_, s) ← ask (.blanks n)
    let negated := (place text s).atLone '!'
    let (first, e) ← ask (.command (if negated then s + 1 else s))
    let (more, f) ← ask (.piped e)
    return (.mk negated (first :: more), f)
  | .piped n => do
    let (_, s) ← ask (.blanks n)
    if atPipe (place text s) then do
      let (_, p) ← ask (.linebreaks (s + 1))
      let (next, e) ← ask (.command p)
      let (more, f) ← ask (.piped e)
      return (next :: more, f)
    else return ([], s)
  | .command n => do
    let (_, s) ← ask (.blanks n)
    if startsAt text ['('] s then
      if startsAt text ['('] (s + 1) then fail s .arithmeticCommand
      else do
        let (script, e) ← ask (.statements .paren (s + 1))
        let (redirects, f) ← ask (.trailing (e + 1))
        return (.subshell script redirects, f)
    else if (place text s).atLone '\x7b' then do
      let (script, e) ← ask (.statements .brace (s + 1))
      let (redirects, f) ← ask (.trailing (e + 1))
      return (.group script redirects, f)
    else ask (.simple s)
  | .trailing n => do
    let (_, s) ← ask (.blanks n)
    match ← ask (.redirect s) with
    | (none, e) => return ([], e)
    | (some first, e) => do
      let (more, f) ← ask (.trailing e)
      return (first :: more, f)
  | .simple n => do
    let ((assigns, words, redirects), e) ← ask (.items false n)
    if assigns.isEmpty && words.isEmpty && redirects.isEmpty then fail n .missingCommand
    else return (.simple assigns words redirects, e)
  | .items named n => do
    let (_, s) ← ask (.blanks n)
    match text.drop s with
    | [] => return (([], [], []), s)
    | x :: r =>
      if endsCommand x r then return (([], [], []), s)
      else if x = '(' then fail s (.unexpected '(')
      else match ← ask (.redirect s) with
      | (some redirect, e) => do
        let (parts, f) ← ask (.items named e)
        return (Parser.Item.onto (.redirect redirect) parts, f)
      | (none, b) => do
        let (w, e) ← ask (.word false b)
        match (if named then none else assignment? w), reserved? named w with
        | some a, _ => do
          let (parts, f) ← ask (.items named e)
          return (Parser.Item.onto (.assign a) parts, f)
        | none, some t => fail s (.reserved t)
        | none, none => do
          let (parts, f) ← ask (.items true e)
          return (Parser.Item.onto (.word w) parts, f)
  | .redirect n => do
    let (digits, s) ← ask (.span Char.isDigit n)
    match ← operatorCourse text digits s with
    | (none, _) => return (none, n)
    | (some (fd, kind), o) => do
      let (_, t) ← ask (.blanks o)
      let (target, e) ← ask (.word false t)
      if target.isEmpty then fail t .missingTarget
      else if kind == .duplicate && ((Word.plain? target).bind fun s => descriptor? s.toList).isNone then
        fail t .targetNotDescriptor
      else return (some (.mk fd kind target), e)
  | .word inDefault n => match text.drop n with
    | [] => return ([], n)
    | x :: _ =>
      if continues inDefault x then do
        let (parts, e) ← pieceCourse text x n
        let (more, f) ← ask (.word inDefault e)
        return (parts.foldr Word.cons more, f)
      else return ([], n)
  | .quotation n => do
    let (parts, e) ← ask (.quoted n (n + 1))
    return (Word.cons (.literal "" true) parts, e)
  | .quoted start n => match text.drop n with
    | [] => fail start .unterminatedDouble
    | x :: r =>
      if x = '"' then return ([], n + 1)
      else if x = '\\' ∧ r.head? = some '\n' then ask (.quoted start (n + 2))
      else if x = '$' then do
        let (part, e) ← ask (.dollar true n)
        let (more, f) ← ask (.quoted start e)
        return (Word.cons part more, f)
      else if x = '\x60' then fail n .backtick
      else match (if x = '\\' then r.head?.filter isEscapable else none) with
      | some y => do
        let (more, f) ← ask (.quoted start (n + 2))
        return (Word.cons (.literal y.toString true) more, f)
      | none => do
        let (more, f) ← ask (.quoted start (n + 1))
        return (Word.cons (.literal x.toString true) more, f)
  | .parameter n =>
    if startsAt text ['?'] n then return ("?", n + 1)
    else if (text.drop n).head?.any Cursor.isNameStart then do
      let (cs, e) ← ask (.span Cursor.isNameChar n)
      return (String.ofList cs, e)
    else return ("", n)
  | .dollar quoted n => match text.drop (n + 1) with
    | [] => return (.literal "$" quoted, n + 1)
    | x :: r =>
      if x = '\x7b' then do
        let (name, e) ← ask (.parameter (n + 2))
        if name.isEmpty then fail n .badSubstitution
        else if startsAt text ['\x7d'] e then return (.param name none quoted, e + 1)
        else if startsAt text [':', '-'] e then do
          let (fallback, f) ← ask (.word true (e + 2))
          if startsAt text ['\x7d'] f then return (.param name (some fallback) quoted, f + 1)
          else fail n .unterminatedExpansion
        else fail n .unsupportedExpansion
      else if x = '(' then
        if r.head? == some '(' then fail n .arithmeticExpansion
        else do
          let (script, e) ← ask (.statements .paren (n + 2))
          return (.subst script quoted, e + 1)
      else if startsParameter x then do
        let (name, e) ← ask (.parameter (n + 1))
        return (.param name none quoted, e)
      else return (.literal "$" quoted, n + 1)

/-- The outcome of a call whose calls, and theirs, go no deeper than there is fuel. -/
def unroll : Nat → (k : Call) → Option (Except SyntaxError (k.Answer × Nat))
  | 0, _ => none
  | fuel + 1, k => (course text k).run text (unroll fuel)

/-- A call is made in the course of another. -/
def Calls (k k' : Call) : Prop := ∃ fuel, (course text k).Makes text (unroll text fuel) k'

end Courses

end Taskwork.Shell
