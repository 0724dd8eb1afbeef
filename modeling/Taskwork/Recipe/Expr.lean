/-
The language of recipes: functions, and statements that compute values. Whatever can fail while it
is computed knows its place in the text.
-/

namespace Taskwork.Recipe

/-- A line and a column, counted from 1; both are 0 where there is no place. -/
structure Pos where
  line : Nat
  column : Nat
  deriving DecidableEq, Repr, Inhabited

def Pos.none : Pos := ⟨0, 0⟩

inductive Operator where
  | add
  | subtract
  | equal
  | notEqual
  | greater
  deriving DecidableEq, Repr, Inhabited

/-- How an operator is written. -/
def Operator.text : Operator → String
  | .add => "+"
  | .subtract => "-"
  | .equal => "=="
  | .notEqual => "!="
  | .greater => ">"

/-- How tightly an operator binds; those of one level are taken from left to right. -/
def Operator.level : Operator → Nat
  | .equal | .notEqual => 90
  | .greater => 130
  | .add | .subtract => 150

mutual

inductive Expr where
  | unit
  | bool (b : Bool)
  | int (n : Int)
  | float (x : Float)
  | text (s : String)
  | var (name : String) (pos : Pos)
  | array (items : List Expr)
  | map (rows : List (String × Expr))
  | call (name : String) (args : List Expr) (pos : Pos)
  /-- A call whose first argument is written before the name. -/
  | method (target : Expr) (name : String) (args : List Expr) (pos : Pos)
  | property (target : Expr) (name : String) (pos : Pos)
  | index (target : Expr) (index : Expr) (pos : Pos)
  | binary (op : Operator) (left right : Expr) (pos : Pos)
  | negate (e : Expr) (pos : Pos)
  | choose (condition : Expr) (pos : Pos) (yes no : List Stmt)
  | block (body : List Stmt)

inductive Stmt where
  | expr (e : Expr)
  | letVar (name : String) (value : Expr)
  | forIn (name : String) (items : Expr) (pos : Pos) (body : List Stmt)
  | giveBack (value : Expr)
  | load (module : Expr) (pos : Pos)

end

instance : Inhabited Expr := ⟨.unit⟩
instance : Inhabited Stmt := ⟨.expr .unit⟩

structure Function where
  name : String
  params : List String
  body : List Stmt
  deriving Inhabited

structure Program where
  functions : List Function
  body : List Stmt
  deriving Inhabited

/-- The function of a name with a number of parameters. -/
def Program.function? (p : Program) (name : String) (count : Nat) : Option Function :=
  p.functions.find? fun f => f.name == name && f.params.length == count

end Taskwork.Recipe
