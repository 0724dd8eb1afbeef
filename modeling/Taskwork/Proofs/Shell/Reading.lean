/-
The equations of reading. The functions of the parser carry the fact that they move forward; here
each is seen as what it reads and the place after it (`seen`, `passed`), and is given by one
equation in those terms. Everything about scripts that are read is proved from these.
-/
import Taskwork.Shell.Parser
import Mathlib.Data.Nat.Init
import Mathlib.Tactic.SplitIfs

namespace Taskwork.Shell.Parser

/-- What was read and the place after it, or what is wrong. -/
def seen {α : Type} {c : Cursor} (r : Except SyntaxError (Reached c α)) :
    Except SyntaxError (α × Cursor) :=
  r.map fun x => (x.value, x.next)

/-- The same for what took at least one character. -/
def passed {α : Type} {c : Cursor} (r : Except SyntaxError (Passed c α)) :
    Except SyntaxError (α × Cursor) :=
  r.map fun x => (x.value, x.next)

/-- What was read if anything was, and the place after it. -/
def passed? {α : Type} {c : Cursor} (r : Except SyntaxError (Option (Passed c α))) :
    Except SyntaxError (Option (α × Cursor)) :=
  r.map fun x => x.map fun y => (y.value, y.next)

/-- An item with the place after it if there is one, and the place where it starts or would. -/
def found {α : Type} {c : Cursor} (r : Except SyntaxError (Reached c (Option (Passed c α)))) :
    Except SyntaxError (Option (α × Cursor) × Cursor) :=
  r.map fun x => (x.value.map fun y => (y.value, y.next), x.next)

/-! ## Words -/

theorem word_nil {d : Bool} {c : Cursor} (h : c.rest = []) : seen (word d c) = .ok ([], c) := by
  rw [word, h]; rfl

theorem word_stop {d : Bool} {c : Cursor} {x : Char} {r : List Char} (h : c.rest = x :: r)
    (hx : continues d x = false) : seen (word d c) = .ok ([], c) := by
  rw [word, h]
  dsimp only
  rw [if_neg (by simp [hx])]; rfl

theorem word_step {d : Bool} {c : Cursor} {x : Char} {r : List Char} (h : c.rest = x :: r)
    (hx : continues d x = true) :
    seen (word d c) = do
      let (parts, e) ← passed (piece c)
      let (more, f) ← seen (word d e)
      return (parts.foldr Word.cons more, f) := by
  rw [word, h]
  dsimp only
  rw [if_pos hx]
  cases piece c with
  | error e => rfl
  | ok p =>
    show seen (word d p.next >>= fun x => _) = seen (word d p.next) >>= fun x => _
    cases word d p.next <;> rfl

/-- The characters that start something in a word. -/
def isSpecial (x : Char) : Bool := x == '\\' || x == '\'' || x == '"' || x == '$' || x == '\x60'

theorem piece_plain {c : Cursor} {x : Char} {r : List Char} (h : c.rest = x :: r)
    (hx : isSpecial x = false) : passed (piece c) = .ok ([.literal x.toString false], c.step) := by
  rw [piece]
  split <;> rename_i heq <;> rw [h] at heq <;> cases heq <;> first | rfl | exact absurd hx (by decide)

theorem piece_escape {c : Cursor} {x : Char} {r : List Char} (h : c.rest = '\\' :: x :: r)
    (hx : x ≠ '\n') : passed (piece c) = .ok ([.literal x.toString true], c.step.step) := by
  rw [piece]
  split <;> rename_i heq <;> rw [h] at heq <;> cases heq
  · exact absurd rfl hx
  · rfl
  · rename_i hn
    exact (hn _ _ rfl rfl).elim

theorem piece_single {c : Cursor} {r : List Char} (h : c.rest = '\'' :: r) :
    passed (piece c) = do
      let (text, e) ← passed (singleQuoted c)
      return ([.literal text true], e) := by
  rw [piece]
  split <;> rename_i heq <;> rw [h] at heq <;> cases heq
  · cases singleQuoted c <;> rfl
  · contradiction

theorem piece_nil {c : Cursor} (h : c.rest = []) : passed (piece c) = fail c .missingCommand := by
  rw [piece]
  split <;> rename_i heq <;> rw [h] at heq <;> cases heq
  rfl

theorem piece_continuation {c : Cursor} {r : List Char} (h : c.rest = '\\' :: '\n' :: r) :
    passed (piece c) = .ok ([], c.step.step) := by
  rw [piece]
  split <;> rename_i heq <;> rw [h] at heq <;> cases heq
  · rfl
  · contradiction
  · rename_i hn _
    exact (hn _ rfl rfl).elim

/-- A backslash at the end of the text stands for itself. -/
theorem piece_backslash {c : Cursor} (h : c.rest = ['\\']) :
    passed (piece c) = .ok ([.literal "\\" false], c.step) := by
  rw [piece]
  split <;> rename_i heq <;> rw [h] at heq <;> cases heq
  rfl

theorem piece_double {c : Cursor} {r : List Char} (h : c.rest = '"' :: r) :
    passed (piece c) = do
      let (parts, e) ← seen (doubleQuoted c c.step)
      return (Word.cons (.literal "" true) parts, e) := by
  rw [piece]
  split <;> rename_i heq <;> rw [h] at heq <;> cases heq
  · cases doubleQuoted c c.step <;> rfl
  · contradiction

theorem piece_dollar {c : Cursor} {r : List Char} (h : c.rest = '$' :: r) :
    passed (piece c) = do
      let (part, e) ← passed (dollar false c)
      return ([part], e) := by
  rw [piece]
  split <;> rename_i heq <;> rw [h] at heq <;> cases heq
  · cases dollar false c <;> rfl
  · contradiction

theorem piece_backtick {c : Cursor} {r : List Char} (h : c.rest = '\x60' :: r) :
    passed (piece c) = fail c .backtick := by
  rw [piece]
  split <;> rename_i heq <;> rw [h] at heq <;> cases heq
  · rfl
  · contradiction

/-! ## Double quotes -/

theorem doubleQuoted_nil {start c : Cursor} (h : c.rest = []) :
    seen (doubleQuoted start c) = fail start .unterminatedDouble := by
  rw [doubleQuoted]
  split <;> rename_i heq <;> rw [h] at heq <;> cases heq
  rfl

theorem doubleQuoted_close {start c : Cursor} {r : List Char} (h : c.rest = '"' :: r) :
    seen (doubleQuoted start c) = .ok ([], c.step) := by
  rw [doubleQuoted]
  split <;> rename_i heq <;> rw [h] at heq <;> cases heq
  · rfl
  · contradiction

/-- The characters before which a backslash in double quotes counts. -/
def isEscapable (x : Char) : Bool := x == '$' || x == '\x60' || x == '"' || x == '\\'

theorem doubleQuoted_escape {start c : Cursor} {x : Char} {r : List Char} (h : c.rest = '\\' :: x :: r) :
    seen (doubleQuoted start c) =
      if x == '\n' then seen (doubleQuoted start c.step.step)
      else if isEscapable x then do
        let (more, f) ← seen (doubleQuoted start c.step.step)
        return (Word.cons (.literal x.toString true) more, f)
      else do
        let (more, f) ← seen (doubleQuoted start c.step)
        return (Word.cons (.literal "\\" true) more, f) := by
  rw [doubleQuoted]
  split <;> rename_i heq <;> rw [h] at heq <;> cases heq
  · unfold isEscapable
    split_ifs
    · cases doubleQuoted start c.step.step <;> rfl
    · cases doubleQuoted start c.step.step <;> rfl
    · cases doubleQuoted start c.step <;> rfl
  · rename_i hn
    exact (hn _ _ rfl rfl).elim

theorem doubleQuoted_dollar {start c : Cursor} {r : List Char} (h : c.rest = '$' :: r) :
    seen (doubleQuoted start c) = do
      let (part, e) ← passed (dollar true c)
      let (more, f) ← seen (doubleQuoted start e)
      return (Word.cons part more, f) := by
  rw [doubleQuoted]
  split <;> rename_i heq <;> rw [h] at heq <;> cases heq
  · cases dollar true c with
    | error e => rfl
    | ok p =>
      simp only [passed, Except.map, bind, Except.bind]
      cases doubleQuoted start p.next <;> rfl
  · contradiction

theorem doubleQuoted_backtick {start c : Cursor} {r : List Char} (h : c.rest = '\x60' :: r) :
    seen (doubleQuoted start c) = fail c .backtick := by
  rw [doubleQuoted]
  split <;> rename_i heq <;> rw [h] at heq <;> cases heq
  · rfl
  · contradiction

theorem doubleQuoted_plain {start c : Cursor} {x : Char} {r : List Char} (h : c.rest = x :: r)
    (hx : x ≠ '"' ∧ x ≠ '$' ∧ x ≠ '\x60') (hr : x = '\\' → r = []) :
    seen (doubleQuoted start c) = do
      let (more, f) ← seen (doubleQuoted start c.step)
      return (Word.cons (.literal x.toString true) more, f) := by
  rw [doubleQuoted]
  split <;> rename_i heq <;> rw [h] at heq <;> cases heq
  · exact absurd rfl hx.1
  · cases hr rfl
  · exact absurd rfl hx.2.1
  · exact absurd rfl hx.2.2
  · cases doubleQuoted start c.step <;> rfl

/-! ## Expansions -/

theorem isNameChar_of_isNameStart {x : Char} (hx : Cursor.isNameStart x = true) :
    Cursor.isNameChar x = true := by
  unfold Cursor.isNameStart at hx
  unfold Cursor.isNameChar Char.isAlphanum
  rw [Bool.or_eq_true] at hx ⊢
  rcases hx with hx | hx
  · exact .inl (by rw [hx, Bool.true_or])
  · exact .inr hx

theorem parameterName_eq (c : Cursor) :
    ((parameterName c).value, (parameterName c).next) =
      if c.rest.head? == some '?' then ("?", c.step)
      else if c.rest.head?.any Cursor.isNameStart then
        (String.ofList (c.rest.takeWhile Cursor.isNameChar), c.skipWhile Cursor.isNameChar)
      else ("", c) := by
  unfold parameterName
  split <;> rename_i hrest
  · simp [hrest]
  · rename_i x r hx
    have hne : (x == '?') = false := beq_false_of_ne hx
    simp only [hrest, List.head?_cons, Option.any_some, Option.some_beq_some, hne]
    split <;> rfl
  · simp [hrest]

theorem dollar_brace {quoted : Bool} {c : Cursor} {y : Char} {r : List Char} (h : c.rest = y :: '\x7b' :: r) :
    passed (dollar quoted c) =
      if (parameterName c.step.step).value.isEmpty then fail c .badSubstitution
      else if ['\x7d'].isPrefixOf (parameterName c.step.step).next.rest then
        .ok (.param (parameterName c.step.step).value none quoted, (parameterName c.step.step).next.step)
      else if [':', '-'].isPrefixOf (parameterName c.step.step).next.rest then do
        let (fallback, f) ← seen (word true (parameterName c.step.step).next.step.step)
        if ['\x7d'].isPrefixOf f.rest then
          return (.param (parameterName c.step.step).value (some fallback) quoted, f.step)
        else fail c .unterminatedExpansion
      else fail c .unsupportedExpansion := by
  rw [dollar]
  split <;> rename_i heq <;> rw [h] at heq <;> cases heq
  dsimp only
  split <;> rename_i heq <;> cases heq
  · split
    · rfl
    · split <;> rename_i h'
      · simp only [h', List.isPrefixOf_cons_cons_self, List.isPrefixOf_nil_left, if_true]
        rfl
      · rw [if_neg (by simp [h']), if_pos (by simp [h'])]
        cases word true (parameterName c.step.step).next.step.step with
        | error e => rfl
        | ok p =>
          simp only [seen, Except.map, bind, Except.bind]
          split <;> rename_i hf
          · rw [if_pos (by simp [hf])]
            rfl
          · rw [if_neg]
            · rfl
            · rw [List.isPrefixOf_iff_prefix]
              rintro ⟨r, hr⟩
              exact hf _ hr.symm
      · rename_i hclose
        rw [if_neg, if_neg]
        · rfl
        · rw [List.isPrefixOf_iff_prefix]
          rintro ⟨r, hr⟩
          exact h' _ hr.symm
        · rw [List.isPrefixOf_iff_prefix]
          rintro ⟨r, hr⟩
          exact hclose _ hr.symm
  · contradiction

theorem dollar_paren {quoted : Bool} {c : Cursor} {y : Char} {r : List Char} (h : c.rest = y :: '(' :: r) :
    passed (dollar quoted c) =
      if r.head? == some '(' then fail c .arithmeticExpansion
      else do
        let (script, e) ← seen (statements .paren c.step.step)
        return (.subst script quoted, e.step) := by
  rw [dollar]
  split <;> rename_i heq <;> rw [h] at heq <;> cases heq
  dsimp only
  split <;> rename_i heq <;> cases heq
  · split
    · rfl
    · cases statements .paren c.step.step <;> rfl
  · contradiction

/-- Whether a parameter without braces starts with a character. -/
def startsParameter (x : Char) : Bool := x == '?' || Cursor.isNameStart x

theorem dollar_name {quoted : Bool} {c : Cursor} {y x : Char} {r : List Char} (h : c.rest = y :: x :: r)
    (hx : startsParameter x = true) :
    passed (dollar quoted c) =
      .ok (.param (parameterName c.step).value none quoted, (parameterName c.step).next) := by
  rw [dollar]
  split <;> rename_i heq <;> rw [h] at heq <;> cases heq
  dsimp only
  split <;> rename_i heq <;> cases heq
  · exact absurd hx (by decide)
  · exact absurd hx (by decide)
  · unfold startsParameter at hx
    rw [if_pos hx]
    rfl

/-- A `$` before anything else stands for itself. -/
theorem dollar_alone {quoted : Bool} {c : Cursor} {y : Char} {r : List Char} (h : c.rest = y :: r)
    (hr : ∀ x ∈ r.head?, x ≠ '\x7b' ∧ x ≠ '(' ∧ startsParameter x = false) :
    passed (dollar quoted c) = .ok (.literal "$" quoted, c.step) := by
  rw [dollar]
  split <;> rename_i heq <;> rw [h] at heq <;> cases heq
  dsimp only
  split
  · exact absurd rfl (hr _ rfl).1
  · exact absurd rfl (hr _ rfl).2.1
  · have hx := (hr _ rfl).2.2
    unfold startsParameter at hx
    rw [if_neg (by simp [hx])]
    rfl
  · rfl

/-! ## Commands -/

theorem not_isPrefixOf {cs r : List Char} (h : ∀ r', r = cs ++ r' → False) : ¬ cs.isPrefixOf r = true := by
  rw [List.isPrefixOf_iff_prefix]
  rintro ⟨r', hr⟩
  exact h r' hr.symm

/-- The operator of a redirection that the text at `s` starts with, after the digits before it. -/
def operatorAfter (digits : List Char) (s : Cursor) (text : List Char) :
    Except SyntaxError (Option ((Nat × RedirectKind) × Cursor)) :=
  if ['&', '>'].isPrefixOf text then
    if !digits.isEmpty then .ok none
    else if ['&', '>', '>'].isPrefixOf text then fail s.step.step .appendBoth
    else .ok (some ((1, .writeBoth), s.step.step))
  else if ['>'].isPrefixOf text then
    match (if digits.isEmpty then some 1 else descriptor? digits) with
    | none => fail s .badDescriptor
    | some fd =>
      if ['>', '>'].isPrefixOf text then .ok (some ((fd, .append), s.step.step))
      else if ['>', '&'].isPrefixOf text then .ok (some ((fd, .duplicate), s.step.step))
      else if ['>', '|'].isPrefixOf text then .ok (some ((fd, .write), s.step.step))
      else .ok (some ((fd, .write), s.step))
  else if ['<'].isPrefixOf text then
    match (if digits.isEmpty then some 0 else descriptor? digits) with
    | none => fail s .badDescriptor
    | some fd =>
      if ['<', '<'].isPrefixOf text then fail s.step .hereDocument
      else if ['<', '&'].isPrefixOf text then fail s.step .duplicateInput
      else .ok (some ((fd, .read), s.step))
  else .ok none

theorem passed?_redirectOperator (c : Cursor) :
    passed? (redirectOperator? c) =
      operatorAfter (c.rest.takeWhile Char.isDigit) (c.skipWhile Char.isDigit)
        (c.skipWhile Char.isDigit).rest := by
  unfold redirectOperator?
  dsimp only
  split <;> rename_i heq
  · rename_i r
    have hhead : ['&', '>', '>'].isPrefixOf ('&' :: '>' :: r) = (r.head? == some '>') := by
      cases r with
      | nil => rfl
      | cons x r => simp [List.isPrefixOf, Bool.beq_comm]
    refine Eq.trans ?_ (congrArg (operatorAfter _ _) heq.symm)
    rw [operatorAfter, if_pos (show ['&', '>'].isPrefixOf ('&' :: '>' :: r) = true from rfl), hhead]
    split_ifs <;> rfl
  · rename_i r
    refine Eq.trans ?_ (congrArg (operatorAfter _ _) heq.symm)
    rw [operatorAfter, if_neg (show ¬ ['&', '>'].isPrefixOf ('>' :: r) = true from Bool.false_ne_true),
      if_pos (show ['>'].isPrefixOf ('>' :: r) = true from rfl)]
    generalize (if (c.rest.takeWhile Char.isDigit).isEmpty then some 1 else descriptor? _) = fd
    cases fd with
    | none => rfl
    | some fd =>
      dsimp only
      split
      · rfl
      · rfl
      · rfl
      · rename_i happend hduplicate hclobber
        rw [if_neg, if_neg, if_neg]
        · rfl
        · exact not_isPrefixOf fun r' hr => by cases hr; exact hclobber r' heq rfl HEq.rfl
        · exact not_isPrefixOf fun r' hr => by cases hr; exact hduplicate r' heq rfl HEq.rfl
        · exact not_isPrefixOf fun r' hr => by cases hr; exact happend r' heq rfl HEq.rfl
  · rename_i r
    refine Eq.trans ?_ (congrArg (operatorAfter _ _) heq.symm)
    rw [operatorAfter, if_neg (show ¬ ['&', '>'].isPrefixOf ('<' :: r) = true from Bool.false_ne_true),
      if_neg (show ¬ ['>'].isPrefixOf ('<' :: r) = true from Bool.false_ne_true),
      if_pos (show ['<'].isPrefixOf ('<' :: r) = true from rfl)]
    generalize (if (c.rest.takeWhile Char.isDigit).isEmpty then some 0 else descriptor? _) = fd
    cases fd with
    | none => rfl
    | some fd =>
      dsimp only
      split
      · rfl
      · rfl
      · rename_i hhere hduplicate
        rw [if_neg, if_neg]
        · rfl
        · exact not_isPrefixOf fun r' hr => by cases hr; exact hduplicate r' heq rfl HEq.rfl
        · exact not_isPrefixOf fun r' hr => by cases hr; exact hhere r' heq rfl HEq.rfl
  · rename_i hboth hwrite
    rw [operatorAfter, if_neg (not_isPrefixOf hboth), if_neg (not_isPrefixOf hwrite), if_neg (not_isPrefixOf heq)]
    rfl

theorem passed_singleQuoted (c : Cursor) :
    passed (singleQuoted c) =
      if (c.step.skipWhile (· != '\'')).rest.isEmpty then fail c .unterminatedSingle
      else .ok (String.ofList (c.step.rest.takeWhile (· != '\'')), (c.step.skipWhile (· != '\'')).step) := by
  unfold singleQuoted
  dsimp only
  split <;> rename_i heq
  · rw [heq]
    rfl
  · rw [if_neg (by simp [heq])]
    rfl

theorem passed?_redirect (c : Cursor) :
    passed? (redirect? c) = do
      match ← passed? (redirectOperator? c) with
      | none => return none
      | some ((fd, kind), s) =>
        let (target, e) ← seen (word false s.skipBlanks)
        if target.isEmpty then fail s.skipBlanks .missingTarget
        else if kind == .duplicate &&
            ((Word.plain? target).bind fun text => descriptor? text.toList).isNone then
          fail s.skipBlanks .targetNotDescriptor
        else return some (.mk fd kind target, e) := by
  rw [redirect?]
  cases redirectOperator? c with
  | error e => rfl
  | ok o =>
    cases o with
    | none => rfl
    | some p =>
      obtain ⟨⟨fd, kind⟩, s, hs⟩ := p
      simp only [passed?, Except.map, bind, Except.bind, Option.map, Reached.pastBlanks]
      cases word false s.skipBlanks with
      | error e => rfl
      | ok q =>
        simp only [seen, Except.map]
        split_ifs <;> rfl

/-- Whether a command ends at a character, given those after it. -/
def endsCommand (x : Char) (r : List Char) : Bool :=
  x == '\n' || x == ';' || x == '|' || x == ')' || (x == '&' && r.head? != some '>')

/-- What a word of a command is that starts at `s`: before the first word an assignment perhaps,
and not a reserved word. -/
def itemOf (leading : Bool) (s : Cursor) (w : Word) : Except SyntaxError Item :=
  if leading then
    match assignment? w with
    | some a => .ok (.assign a)
    | none =>
      match Word.plain? w with
      | some text => if reservedWords.contains text then fail s (.reserved text) else .ok (.word w)
      | none => .ok (.word w)
  else .ok (.word w)

theorem found_item (leading : Bool) (c : Cursor) :
    found (item? leading c) = match c.skipBlanks.rest with
      | [] => .ok (none, c.skipBlanks)
      | x :: r =>
        if endsCommand x r then .ok (none, c.skipBlanks)
        else if x == '(' then fail c.skipBlanks (.unexpected '(')
        else do
          match ← passed? (redirect? c.skipBlanks) with
          | some (r, e) => return (some (.redirect r, e), c.skipBlanks)
          | none =>
            let (parts, e) ← passed (piece c.skipBlanks)
            let (more, f) ← seen (word false e)
            let i ← itemOf leading c.skipBlanks (parts.foldr Word.cons more)
            return (some (i, f), c.skipBlanks) := by
  rw [item?]
  simp only [Reached.pastBlanks]
  split <;> rename_i heq
  · rw [heq]; rfl
  · rw [heq]
    dsimp only
    unfold endsCommand
    split
    · rfl
    · split
      · rfl
      · cases redirect? c.skipBlanks with
        | error e => rfl
        | ok o =>
          cases o with
          | some p => rfl
          | none =>
            cases piece c.skipBlanks with
            | error e => rfl
            | ok p =>
              simp only [passed?, passed, Except.map, bind, Except.bind, Option.map]
              cases word false p.next with
              | error e => rfl
              | ok q =>
                cases leading with
                | false => rfl
                | true =>
                  simp only [itemOf, seen, Except.map, if_true]
                  cases assignment? (p.value.foldr Word.cons q.value) with
                  | some a => rfl
                  | none =>
                    cases Word.plain? (p.value.foldr Word.cons q.value) with
                    | none => rfl
                    | some text => dsimp only; split <;> rfl

/-- Where a word stands that nothing else can be, what it is is the next item. -/
theorem found_item_word {leading : Bool} {c f : Cursor} {x : Char} {r : List Char} {w : Word}
    (hc : c.skipBlanks.rest = x :: r) (hends : endsCommand x r = false) (hparen : x ≠ '(')
    (hredirect : passed? (redirect? c.skipBlanks) = .ok none) (hx : continues false x = true)
    (hword : seen (word false c.skipBlanks) = .ok (w, f)) :
    found (item? leading c) =
      (itemOf leading c.skipBlanks w).map fun i => (some (i, f), c.skipBlanks) := by
  have hfalse : (x == '(') = false := beq_false_of_ne hparen
  rw [word_step hc hx] at hword
  rw [found_item, hc]
  dsimp only
  rw [hends, hfalse, hredirect]
  simp only [bind, Except.bind, Bool.false_eq_true, if_false] at hword ⊢
  cases hp : passed (piece c.skipBlanks) with
  | error e => simp [hp] at hword
  | ok p =>
    simp only [hp] at hword ⊢
    cases hw : seen (word false p.2) with
    | error e => simp [hw] at hword
    | ok q =>
      simp only [hw] at hword ⊢
      obtain ⟨hread, rfl⟩ : p.1.foldr Word.cons q.1 = w ∧ q.2 = f := by
        simpa [pure, Except.pure] using hword
      rw [hread]
      cases itemOf leading c.skipBlanks w <;> rfl

/-- What a command is made of: its assignments, words and redirections. -/
abbrev Parts := List Assign × List Word × List Redirect

/-- Puts an item in front of what a command is made of. -/
def Item.onto : Item → Parts → Parts
  | .assign a, (assigns, words, redirects) => (a :: assigns, words, redirects)
  | .word w, (assigns, words, redirects) => (assigns, w :: words, redirects)
  | .redirect r, (assigns, words, redirects) => (assigns, words, r :: redirects)

theorem seen_items (named : Bool) (c : Cursor) :
    seen (items named c) = do
      match ← found (item? (!named) c) with
      | (none, s) => return (([], [], []), s)
      | (some (i, e), _) =>
        let (parts, f) ← seen (items (named || i matches .word _) e)
        return (i.onto parts, f) := by
  rw [items]
  cases item? (!named) c with
  | error e => rfl
  | ok r =>
    obtain ⟨o, s, hs⟩ := r
    cases o with
    | none => rfl
    | some p =>
      obtain ⟨i, e, he⟩ := p
      simp only [found, Except.map, bind, Except.bind, Option.map]
      cases i <;> simp only [] <;> split <;> rename_i heq <;> rw [heq] <;> rfl

theorem passed_simple (c : Cursor) :
    passed (simple c) = do
      match ← found (item? true c) with
      | (none, _) => fail c .missingCommand
      | (some (i, e), _) =>
        let (parts, f) ← seen (items (i matches .word _) e)
        let (assigns, words, redirects) := i.onto parts
        return (.simple assigns words redirects, f) := by
  rw [simple]
  cases item? true c with
  | error e => rfl
  | ok r =>
    obtain ⟨o, s, hs⟩ := r
    cases o with
    | none => rfl
    | some p =>
      obtain ⟨i, e, he⟩ := p
      simp only [found, Except.map, bind, Except.bind, Option.map]
      cases i <;> simp only [] <;> split <;> rename_i heq <;> rw [heq] <;> rfl

/-- What does not start with a parenthesis or a lone brace is a simple command. -/
theorem passed_command_simple {c : Cursor} (hp : c.skipBlanks.rest.head? ≠ some '(')
    (hb : c.skipBlanks.atLone '\x7b' = false) :
    passed (command c) = passed (simple c.skipBlanks) := by
  rw [command]
  generalize hr : Reached.pastBlanks c = r
  obtain ⟨u, s, hs⟩ := r
  obtain rfl : c.skipBlanks = s := congrArg Reached.next hr
  dsimp only
  split <;> rename_i heq
  · rw [heq] at hp
    exact absurd rfl hp
  · rw [if_neg (by simp [hb])]
    cases simple c.skipBlanks <;> rfl
  · cases simple c.skipBlanks <;> rfl

theorem passed_command_subshell {c : Cursor} {r : List Char} (h : c.skipBlanks.rest = '(' :: r) :
    passed (command c) =
      if r.head? == some '(' then fail c.skipBlanks .arithmeticCommand
      else do
        let (script, e) ← seen (statements .paren c.skipBlanks.step)
        let (redirects, f) ← seen (trailing e.step)
        return (.subshell script redirects, f) := by
  rw [command]
  generalize hr : Reached.pastBlanks c = q
  obtain ⟨u, s, hs⟩ := q
  obtain rfl : c.skipBlanks = s := congrArg Reached.next hr
  dsimp only
  split <;> rename_i heq
  · rw [h] at heq
    cases heq
    split
    · rfl
    · cases statements .paren c.skipBlanks.step with
      | error e => rfl
      | ok p =>
        simp only [seen, Except.map, bind, Except.bind]
        cases trailing p.next.step <;> rfl
  · rw [h] at heq
    cases heq
  · rename_i hn
    exact (hn _ h).elim

theorem passed_command_group {c : Cursor} (h : c.skipBlanks.atLone '\x7b' = true) :
    passed (command c) = do
      let (script, e) ← seen (statements .brace c.skipBlanks.step)
      let (redirects, f) ← seen (trailing e.step)
      return (.group script redirects, f) := by
  rw [command]
  generalize hr : Reached.pastBlanks c = q
  obtain ⟨u, s, hs⟩ := q
  obtain rfl : c.skipBlanks = s := congrArg Reached.next hr
  dsimp only
  split <;> rename_i heq
  · unfold Cursor.atLone at h
    rw [heq] at h
    rename_i r
    cases r <;> simp at h
  · rw [if_pos h]
    cases statements .brace c.skipBlanks.step with
    | error e => rfl
    | ok p =>
      simp only [seen, Except.map, bind, Except.bind]
      cases trailing p.next.step <;> rfl
  · unfold Cursor.atLone at h
    split at h <;> rename_i hrest
    · rw [beq_iff_eq] at h
      subst h
      exact (heq _ hrest).elim
    · rw [Bool.and_eq_true, beq_iff_eq] at h
      obtain ⟨rfl, -⟩ := h
      exact (heq _ hrest).elim
    · cases h

theorem seen_trailing (c : Cursor) :
    seen (trailing c) = do
      match ← passed? (redirect? c.skipBlanks) with
      | none => return ([], c.skipBlanks)
      | some (first, e) =>
        let (more, f) ← seen (trailing e)
        return (first :: more, f) := by
  rw [trailing]
  generalize hr : Reached.pastBlanks c = q
  obtain ⟨u, s, hs⟩ := q
  obtain rfl : c.skipBlanks = s := congrArg Reached.next hr
  dsimp only
  cases redirect? c.skipBlanks with
  | error e => rfl
  | ok o =>
    cases o with
    | none => rfl
    | some p =>
      simp only [passed?, Except.map, bind, Except.bind, Option.map]
      cases trailing p.next <;> rfl

/-- Whether another command of a pipeline follows. -/
def atPipe (c : Cursor) : Bool :=
  match c.rest with
  | '|' :: '|' :: _ => false
  | '|' :: _ => true
  | _ => false

theorem seen_piped (c : Cursor) :
    seen (piped c) =
      if atPipe c.skipBlanks then do
        let (next, e) ← passed (command c.skipBlanks.step.skipLinebreaks)
        let (more, f) ← seen (piped e)
        return (next :: more, f)
      else return ([], c.skipBlanks) := by
  rw [piped]
  generalize hr : Reached.pastBlanks c = r
  obtain ⟨u, s, hs⟩ := r
  obtain rfl : c.skipBlanks = s := congrArg Reached.next hr
  dsimp only
  generalize hq : Reached.pastLinebreaks c.skipBlanks.step = q
  obtain ⟨v, p, hp⟩ := q
  obtain rfl : c.skipBlanks.step.skipLinebreaks = p := congrArg Reached.next hq
  dsimp only
  change seen (if atPipe c.skipBlanks then _ else _) = _
  split_ifs
  · cases command c.skipBlanks.step.skipLinebreaks with
    | error e => rfl
    | ok p =>
      simp only [passed, Except.map, bind, Except.bind]
      cases piped p.next <;> rfl
  · rfl

/-- The place of the first command of a pipeline. -/
def afterBang (s : Cursor) : Cursor := if s.atLone '!' then s.step else s

theorem passed_pipeline (c : Cursor) :
    passed (pipeline c) = do
      let (first, e) ← passed (command (afterBang c.skipBlanks))
      let (more, f) ← seen (piped e)
      return (.mk (c.skipBlanks.atLone '!') (first :: more), f) := by
  rw [pipeline]
  generalize hr : Reached.pastBlanks c = r
  obtain ⟨u, s, hs⟩ := r
  obtain rfl : c.skipBlanks = s := congrArg Reached.next hr
  dsimp only
  unfold afterBang
  have hb : ∃ h, (if c.skipBlanks.atLone '!' then Reached.pastOne c.skipBlanks
      else ⟨(), c.skipBlanks, Nat.le_refl _⟩) =
      ⟨(), if c.skipBlanks.atLone '!' then c.skipBlanks.step else c.skipBlanks, h⟩ := by
    split_ifs
    · exact ⟨Cursor.size_step_le _, rfl⟩
    · exact ⟨Nat.le_refl _, rfl⟩
  obtain ⟨h, hb⟩ := hb
  rw [hb]
  dsimp only
  cases command (if c.skipBlanks.atLone '!' then c.skipBlanks.step else c.skipBlanks) with
  | error e => rfl
  | ok p =>
    simp only [passed, Except.map, bind, Except.bind]
    cases piped p.next <;> rfl

/-- The operator that joins a pipeline to the next one. -/
def connector? (c : Cursor) : Option Connector :=
  match c.rest with
  | '&' :: '&' :: _ => some .and
  | '|' :: '|' :: _ => some .or
  | _ => none

theorem seen_links (c : Cursor) :
    seen (links c) = match connector? c.skipBlanks with
      | none => .ok ([], c.skipBlanks)
      | some connector => do
        let (next, e) ← passed (pipeline c.skipBlanks.step.step.skipLinebreaks)
        let (more, f) ← seen (links e)
        return (.mk connector next :: more, f) := by
  rw [links]
  generalize hr : Reached.pastBlanks c = r
  obtain ⟨u, s, hs⟩ := r
  obtain rfl : c.skipBlanks = s := congrArg Reached.next hr
  dsimp only
  generalize hq : Reached.pastLinebreaks c.skipBlanks.step.step = q
  obtain ⟨v, p, hp⟩ := q
  obtain rfl : c.skipBlanks.step.step.skipLinebreaks = p := congrArg Reached.next hq
  dsimp only
  split <;> rename_i heq
  · rw [show connector? c.skipBlanks = none from heq]
    rfl
  · rw [show connector? c.skipBlanks = some _ from heq]
    cases pipeline c.skipBlanks.step.step.skipLinebreaks with
    | error e => rfl
    | ok p =>
      simp only [passed, Except.map, bind, Except.bind]
      cases links p.next <;> rfl

theorem passed_andOr (c : Cursor) :
    passed (andOr c) = do
      let (first, s) ← passed (pipeline c)
      let (rest, e) ← seen (links s)
      return ((first, rest), e) := by
  rw [andOr]
  cases pipeline c with
  | error e => rfl
  | ok p =>
    simp only [passed, Except.map, bind, Except.bind]
    cases links p.next <;> rfl

/-- Whether a statement may end before these characters. -/
def endsStatement (closer : Closer) : List Char → Bool
  | [] => true
  | x :: _ => x == '\n' || x == ';' || (x == ')' && closer == .paren)

/-- What is wrong with the characters after a statement. -/
def strayAfter : List Char → SyntaxFault
  | '&' :: _ => .backgroundJob
  | x :: _ => .unexpected x
  | [] => .missingCommand

theorem strayAfter_of_ne {x : Char} {r : List Char} (h : x ≠ '&') :
    strayAfter (x :: r) = .unexpected x := by
  unfold strayAfter
  split <;> rename_i heq <;> cases heq
  · exact (h rfl).elim
  · rfl

theorem seen_statements (closer : Closer) (c : Cursor) :
    seen (statements closer c) =
      if closer.holdsAt c.skipSeparators then .ok ([], c.skipSeparators)
      else if c.skipSeparators.rest.isEmpty then fail c.skipSeparators (.expected closer.char)
      else do
        let ((first, rest), e) ← passed (andOr c.skipSeparators)
        if !endsStatement closer e.skipBlanks.rest then
          fail e.skipBlanks (strayAfter e.skipBlanks.rest)
        let (more, f) ← seen (statements closer e.skipBlanks)
        return (.mk first rest (Text.trim (String.ofList (c.skipSeparators.upTo e)))
          c.skipSeparators.line :: more, f) := by
  rw [statements]
  generalize hr : Reached.pastSeparators c = r
  obtain ⟨u, s, hs⟩ := r
  obtain rfl : c.skipSeparators = s := congrArg Reached.next hr
  dsimp only
  split_ifs
  · rfl
  · rfl
  · cases andOr c.skipSeparators with
    | error e => rfl
    | ok p =>
      obtain ⟨⟨first, rest⟩, e, he⟩ := p
      simp only [passed, Except.map, bind, Except.bind]
      generalize hq : Reached.pastBlanks e = q
      obtain ⟨v, d, hd⟩ := q
      obtain rfl : e.skipBlanks = d := congrArg Reached.next hq
      dsimp only
      change seen (if endsStatement closer e.skipBlanks.rest then _ else _) = _
      cases endsStatement closer e.skipBlanks.rest
      · rw [if_neg (by decide), if_pos (by decide)]
        split <;> rename_i h <;> rw [h]
        · rfl
        · rename_i hx
          rw [strayAfter_of_ne hx]
          rfl
        · rfl
      · rw [if_pos rfl, if_neg (by decide)]
        cases statements closer e.skipBlanks <;> rfl

/-- A statement and what follows it. -/
theorem seen_statements_cons {closer : Closer} {c e : Cursor} (first : Pipeline) (rest : List Link)
    (hstart : closer.holdsAt c.skipSeparators = false) (hmore : c.skipSeparators.rest ≠ [])
    (hread : passed (andOr c.skipSeparators) = .ok ((first, rest), e))
    (hends : endsStatement closer e.skipBlanks.rest = true) :
    seen (statements closer c) = do
      let (more, f) ← seen (statements closer e.skipBlanks)
      return (.mk first rest (Text.trim (String.ofList (c.skipSeparators.upTo e)))
        c.skipSeparators.line :: more, f) := by
  rw [seen_statements, hstart, List.isEmpty_eq_false_iff.2 hmore, hread]
  simp only [bind, Except.bind, hends, Bool.not_true, Bool.false_eq_true, if_false]

/-- What has been read when statements have: none, or the first and those after it. -/
theorem statements_cases {closer : Closer} {c f : Cursor} {script : Script}
    (h : seen (statements closer c) = .ok (script, f)) :
    (closer.holdsAt c.skipSeparators = true ∧ script = [] ∧ f = c.skipSeparators) ∨
      (closer.holdsAt c.skipSeparators = false ∧ c.skipSeparators.rest ≠ [] ∧ ∃ first rest e more,
        passed (andOr c.skipSeparators) = .ok ((first, rest), e) ∧
        endsStatement closer e.skipBlanks.rest = true ∧
        seen (statements closer e.skipBlanks) = .ok (more, f) ∧
        script = .mk first rest (Text.trim (String.ofList (c.skipSeparators.upTo e)))
          c.skipSeparators.line :: more) := by
  cases hstart : closer.holdsAt c.skipSeparators with
  | true =>
    rw [seen_statements, hstart] at h
    cases h
    exact .inl ⟨rfl, rfl, rfl⟩
  | false =>
    cases hmore : c.skipSeparators.rest with
    | nil =>
      rw [seen_statements, hstart, hmore] at h
      cases h
    | cons x r =>
      refine .inr ⟨rfl, nofun, ?_⟩
      cases hread : passed (andOr c.skipSeparators) with
      | error e =>
        rw [seen_statements, hstart, hmore, hread] at h
        cases h
      | ok p =>
        obtain ⟨⟨first, rest⟩, e⟩ := p
        cases hends : endsStatement closer e.skipBlanks.rest with
        | false =>
          rw [seen_statements, hstart, hmore, hread] at h
          simp [bind, Except.bind, hends, fail] at h
        | true =>
          rw [seen_statements_cons first rest hstart (hmore ▸ nofun) hread hends] at h
          cases hrest : seen (statements closer e.skipBlanks) with
          | error e =>
            rw [hrest] at h
            cases h
          | ok q =>
            obtain ⟨more, f'⟩ := q
            rw [hrest] at h
            cases h
            exact ⟨first, rest, e, more, rfl, hends, hrest, rfl⟩

end Taskwork.Shell.Parser
