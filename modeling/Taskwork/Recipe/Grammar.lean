/-
The grammar of recipes. An expression or statement inside another one is a level deeper, and there
is a limit to the levels, a lower one within functions; it is also what ends the recursion here.
-/
import Taskwork.Recipe.Token

namespace Taskwork.Recipe

inductive GrammarProblem where
  | unexpected
  | tooDeep
  | duplicateFunction
  | duplicateParameter
  | duplicateKey
  deriving DecidableEq, Repr, Inhabited

/-- Why a text is no recipe, and where that shows. -/
structure GrammarFault where
  problem : GrammarProblem
  pos : Pos
  deriving DecidableEq, Repr, Inhabited

/-- Reading tokens, of which the last one stays. -/
abbrev Parse (α : Type) := StateT (List (Token × Pos)) (Except GrammarFault) α

namespace Parse

def peek : Parse (Token × Pos) := do return (← get).headD (.stop, Pos.none)

def pos : Parse Pos := do return (← peek).2

def advance : Parse Unit :=
  modify fun
    | _ :: next :: rest => next :: rest
    | ts => ts

def failAt {α : Type} (problem : GrammarProblem) (pos : Pos) : Parse α := throw ⟨problem, pos⟩

/-- A problem with the next token. -/
def fail {α : Type} (problem : GrammarProblem) : Parse α := do failAt problem (← pos)

def atSign (s : String) : Parse Bool := do return (← peek).1.isSign s

def atWord (s : String) : Parse Bool := do return (← peek).1.isWord s

/-- Goes past a sign if it is the next token. -/
def trySign (s : String) : Parse Bool := do
  if ← atSign s then
    advance
    return true
  else return false

def sign (s : String) : Parse Unit := do if !(← trySign s) then fail .unexpected

def word (s : String) : Parse Unit := do if ← atWord s then advance else fail .unexpected

def name : Parse String := do
  match (← peek).1 with
  | .name s =>
    advance
    return s
  | _ => fail .unexpected

/-- A bound for the number of items in what is left. -/
def count : Parse Nat := do return (← get).length + 1

/-- Items up to a closing sign, with commas between them and perhaps one after the last; at most
so many. -/
def listed {α : Type} (closer : String) (item : List α → Parse α) :
    Nat → List α → Parse (List α)
  | 0, _ => fail .unexpected
  | limit + 1, read => do
    if ← trySign closer then return read.reverse
    else
      let a ← item read.reverse
      if ← trySign "," then listed closer item limit (a :: read)
      else
        sign closer
        return (a :: read).reverse

def listedAll {α : Type} (closer : String) (item : List α → Parse α) : Parse (List α) := do
  listed closer item (← count) []

/-- The operator at the next token. -/
def operator? : Token → Option Operator
  | .sign "+" => some .add
  | .sign "-" => some .subtract
  | .sign "==" => some .equal
  | .sign "!=" => some .notEqual
  | .sign ">" => some .greater
  | _ => none

/-- How tightly the operator at the next token binds; what is none binds less than any. -/
def nextLevel : Parse Nat := do
  return ((operator? (← peek).1).map Operator.level).getD 0

/-- A key of a map, which must not be one of those before it. -/
def key (taken : List String) : Parse String := do
  let (t, p) ← peek
  let k ← match t with
    | .text s =>
      advance
      pure s
    | _ => name
  if taken.contains k then failAt .duplicateKey p
  sign ":"
  return k

/-- The opposite of an expression; that of a number is a number. -/
def opposite (e : Expr) (p : Pos) : Expr :=
  match e with
  | .int n => if Number.isScriptInt (-n) then .int (-n) else .float (Number.toFloat (-n))
  | .float x => .float (-x)
  | e => .negate e p

/-- Whether a statement ends without a semicolon. -/
def endsItself : Stmt → Bool
  | .expr (.choose ..) => true
  | .expr (.block _) => true
  | .forIn .. => true
  | _ => false

/-- Statements up to what `closes`, with semicolons where they are needed; at most so many. -/
def statements (closes : Token → Bool) (stmt : Parse Stmt) : Nat → List Stmt → Parse (List Stmt)
  | 0, _ => fail .unexpected
  | limit + 1, read => do
    if closes (← peek).1 then return read.reverse
    else if ← trySign ";" then statements closes stmt limit read
    else
      let s ← stmt
      if closes (← peek).1 then return (s :: read).reverse
      else
        if !(← trySign ";") && !endsItself s then fail .unexpected
        statements closes stmt limit (s :: read)

mutual

/-- An expression in something that leaves so many levels. -/
def expr : Nat → Parse Expr
  | 0 => fail .tooDeep
  | room + 1 => do
    let left ← unary room
    operators room 1 left
termination_by room => (room, 0, 0)

/-- What follows a first operand, as far as it binds more tightly than `level`. -/
def operators (room level : Nat) (left : Expr) : Parse Expr := do
  let (t, p) ← peek
  match operator? t with
  | none => return left
  | some op =>
    if op.level ≤ level then return left
    else
      advance
      let right ← unary room
      match room with
      | 0 => fail .tooDeep
      | room + 1 =>
        let right ← if op.level < (← nextLevel) then operators room op.level right else pure right
        operators room level (.binary op left right p)
termination_by (room, 3, 0)

def unary (room : Nat) : Parse Expr := do
  let p ← pos
  if ← trySign "-" then
    match room with
    | 0 => fail .tooDeep
    | room + 1 => return opposite (← unary room) p
  else primary room
termination_by (room, 2, 0)

/-- An expression without operators. -/
def primary (room : Nat) : Parse Expr := do
  let (t, p) ← peek
  match t with
  | .int n =>
    advance
    postfixes room (← count) (.int n)
  | .float x =>
    advance
    postfixes room (← count) (.float x)
  | .text s =>
    advance
    postfixes room (← count) (.text s)
  | .word "true" =>
    advance
    postfixes room (← count) (.bool true)
  | .word "false" =>
    advance
    postfixes room (← count) (.bool false)
  | .name s =>
    advance
    if ← trySign "(" then
      match room with
      | 0 => fail .tooDeep
      | inner + 1 =>
        let args ← listedAll ")" fun _ => expr inner
        postfixes (inner + 1) (← count) (.call s args p)
    else postfixes room (← count) (.var s p)
  | _ =>
    match room with
    | 0 => fail (if t.isSign "(" || t.isSign "[" || t.isSign "#\x7b" then .tooDeep else .unexpected)
    | inner + 1 =>
      match t with
      | .sign "(" =>
        advance
        if ← trySign ")" then postfixes (inner + 1) (← count) .unit
        else
          let e ← expr inner
          sign ")"
          postfixes (inner + 1) (← count) e
      | .sign "[" =>
        advance
        let items ← listedAll "]" fun _ => expr inner
        postfixes (inner + 1) (← count) (.array items)
      | .sign "#\x7b" =>
        advance
        let rows ← listedAll "\x7d" fun read => do
          let k ← key (read.map Prod.fst)
          return (k, ← expr inner)
        postfixes (inner + 1) (← count) (.map rows)
      | .word "if" => choice inner
      | .sign "\x7b" => return .block (← block inner)
      | _ => fail .unexpected
termination_by (room, 1, 0)

/-- Properties, calls of methods and indices after an expression, at most so many. -/
def postfixes (room : Nat) : Nat → Expr → Parse Expr
  | 0, e => pure e
  | limit + 1, e => do
    if ← trySign "." then
      let p ← pos
      let s ← name
      if ← trySign "(" then
        match room with
        | 0 => fail .tooDeep
        | inner + 1 =>
          let args ← listedAll ")" fun _ => expr inner
          postfixes (inner + 1) limit (.method e s args p)
      else postfixes room limit (.property e s p)
    else if ← atSign "[" then
      let p ← pos
      match room with
      | 0 => fail .tooDeep
      | inner + 1 =>
        advance
        let i ← expr inner
        sign "]"
        postfixes (inner + 1) limit (.index e i p)
    else return e
termination_by limit => (room, 0, limit)

/-- A choice, from its `if` on. -/
def choice : Nat → Parse Expr
  | 0 => fail .tooDeep
  | room + 1 => do
    word "if"
    let p ← pos
    let condition ← expr room
    let yes ← block room
    if ← atWord "else" then
      advance
      if ← atWord "if" then
        return .choose condition p yes [.expr (← choice room)]
      else return .choose condition p yes (← block room)
    else return .choose condition p yes []
termination_by room => (room, 0, 0)

/-- Statements between braces. -/
def block : Nat → Parse (List Stmt)
  | 0 => fail .tooDeep
  | room + 1 => do
    sign "\x7b"
    let body ← statements (·.isSign "\x7d") (stmt room) (← count) []
    sign "\x7d"
    return body
termination_by room => (room, 0, 0)

def stmt : Nat → Parse Stmt
  | 0 => fail .tooDeep
  | room + 1 => do
    match (← peek).1 with
    | .word "let" =>
      advance
      let s ← name
      if ← trySign "=" then return .letVar s (← expr room) else return .letVar s .unit
    | .word "for" =>
      advance
      let s ← name
      word "in"
      let p ← pos
      let items ← expr room
      return .forIn s items p (← block room)
    | .word "return" =>
      advance
      let (t, _) ← peek
      if t.isSign ";" || t.isSign "\x7d" then return .giveBack .unit
      else match t with
        | .stop => return .giveBack .unit
        | _ => return .giveBack (← expr room)
    | .word "import" =>
      advance
      let p ← pos
      let module ← expr room
      if ← atWord "as" then
        advance
        let _ ← name
      return .load module p
    | .word "if" => return .expr (← choice room)
    | .sign "\x7b" => return .expr (.block (← block room))
    | _ => return .expr (← expr room)
termination_by room => (room, 0, 0)

end

/-! ## Whole recipes -/

/-- How many levels there are in a function and outside. -/
def functionRoom : Nat := 32

def outerRoom : Nat := 64

/-- A function, from its `fn` on, and the place where its body begins. -/
def function : Parse (Function × Pos) := do
  word "fn"
  let s ← name
  sign "("
  let params ← listedAll ")" fun read => do
    let p ← pos
    let param ← name
    if read.contains param then failAt .duplicateParameter p
    return param
  let p ← pos
  return (⟨s, params, ← block functionRoom⟩, p)

/-- Functions and statements up to the end, at most so many. -/
def program : Nat → Program → Parse Program
  | 0, _ => fail .unexpected
  | limit + 1, read => do
    match (← peek).1 with
    | .stop => return { read with body := read.body.reverse }
    | .word "fn" =>
      let (f, p) ← function
      if (read.function? f.name f.params.length).isSome then failAt .duplicateFunction p
      program limit { read with functions := read.functions ++ [f] }
    | .sign ";" =>
      advance
      program limit read
    | _ =>
      let s ← stmt outerRoom
      let read := { read with body := s :: read.body }
      match (← peek).1 with
      | .stop => program limit read
      | _ =>
        if !(← trySign ";") && !endsItself s then fail .unexpected
        program limit read

end Parse

/-- The recipe that a text is. -/
def Program.ofText (text : String) : Except GrammarFault Program :=
  let tokens := Token.ofText text
  ((Parse.program (2 * tokens.length + 2) ⟨[], []⟩).run tokens).map (·.1)

end Taskwork.Recipe
