/-
The scripts of task commands: statements of pipelines joined by `&&` and `||`, whose commands are
made of words, and words that may hold whole scripts again.
-/

namespace Taskwork.Shell

/-- How a pipeline follows the one before it. -/
inductive Connector where
  | and
  | or
  deriving DecidableEq, Repr, Inhabited

/-- What a redirection does with its descriptor. -/
inductive RedirectKind where
  /-- `<` reads from the file. -/
  | read
  /-- `>` empties the file and writes to it. -/
  | write
  /-- `>>` writes at the end of the file. -/
  | append
  /-- `>&` makes the descriptor a copy of another one. -/
  | duplicate
  /-- `&>` sends output and errors to the file. -/
  | writeBoth
  deriving DecidableEq, Repr, Inhabited

mutual

/-- A stretch of a word. -/
inductive Part where
  | literal (text : String) (quoted : Bool)
  | param (name : String) (fallback : Option (List Part)) (quoted : Bool)
  | subst (script : List Statement) (quoted : Bool)

structure Assign where
  name : String
  value : List Part

structure Redirect where
  fd : Nat
  kind : RedirectKind
  target : List Part

inductive Command where
  | simple (assigns : List Assign) (words : List (List Part)) (redirects : List Redirect)
  | subshell (script : List Statement) (redirects : List Redirect)
  | group (script : List Statement) (redirects : List Redirect)

/-- Commands of which each reads what the one before it writes. -/
structure Pipeline where
  negated : Bool
  commands : List Command

/-- A pipeline that runs, or not, by the outcome of those before it. -/
structure Link where
  connector : Connector
  pipeline : Pipeline

/-- A statement with its text, without blanks around it, and the line on which it starts. -/
structure Statement where
  first : Pipeline
  rest : List Link
  text : String
  line : Nat

end

abbrev Word := List Part
abbrev Script := List Statement

instance : Inhabited Part := ⟨.literal "" false⟩
instance : Inhabited Pipeline := ⟨⟨false, []⟩⟩
instance : Inhabited Statement := ⟨⟨default, [], "", 1⟩⟩

/-! ## Words -/

/-- Puts a part in front of a word. Two neighbouring literals of one quoting are one literal. -/
def Word.cons (part : Part) (word : Word) : Word :=
  match part, word with
  | .literal a q, .literal b q' :: rest =>
    if q = q' then .literal (a ++ b) q :: rest else part :: word
  | _, _ => part :: word

/-- The text of a word that consists of unquoted literals only. -/
def Word.plain? : Word → Option String
  | [] => some ""
  | .literal text false :: rest => (Word.plain? rest).map (text ++ ·)
  | _ => none

end Taskwork.Shell
