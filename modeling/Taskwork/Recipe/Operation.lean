/-
What the operators of recipes do with values. Whole numbers and doubles go together; text takes
the text of anything that is added to it. Values of different kinds are never equal, and neither is
greater.
-/
import Taskwork.Recipe.Expr
import Taskwork.Recipe.Shown

namespace Taskwork.Recipe

/-- Why an operator gives no value. -/
inductive OperationFault where
  /-- It is not made for such operands. -/
  | undefined
  /-- The whole number it would give is too great. -/
  | overflow (text : String)
  deriving DecidableEq, Repr, Inhabited

namespace Value

mutual

/-- Whether two values are equal; two tasks cannot be compared. -/
def equal? : Value → Value → Option Bool
  | .unit, .unit => some true
  | .bool a, .bool b => some (a == b)
  | .int a, .int b => some (a == b)
  | .int a, .float b => some (Number.toFloat a == b)
  | .float a, .int b => some (a == Number.toFloat b)
  | .float a, .float b => some (a == b)
  | .text a, .text b => some (a == b)
  | .path a, .path b => some (a == b)
  | .array as, .array bs => if as.length = bs.length then equalItems? as bs else some false
  | .map as, .map bs => if as.length = bs.length then equalRows? as bs else some false
  | .task _, .task _ => none
  | _, _ => some false

def equalItems? : List Value → List Value → Option Bool
  | a :: as, b :: bs => do if ← equal? a b then equalItems? as bs else return false
  | _, _ => some true

def equalRows? : List (String × Value) → List (String × Value) → Option Bool
  | (k, a) :: as, (l, b) :: bs => do
    if k = l then
      if ← equal? a b then equalRows? as bs else return false
    else return false
  | _, _ => some true

end

/-- Puts a value under a key of a map. -/
def store (key : String) (v : Value) : List (String × Value) → List (String × Value)
  | [] => [(key, v)]
  | (k, w) :: rest =>
    if key < k then (key, v) :: (k, w) :: rest
    else if k = key then (key, v) :: rest
    else (k, w) :: store key v rest

/-- The value of an operation on whole numbers. -/
def wholeResult (name sign : String) (a b result : Int) : Except OperationFault Value :=
  if Number.isScriptInt result then .ok (.int result)
  else .error (.overflow (name ++ " overflow: " ++ toString a ++ " " ++ sign ++ " " ++ toString b))

/-- The doubles that two numbers are taken for when they are not both whole. -/
def reals? (a b : Value) : Option (Float × Float) :=
  match a, b with
  | .float x, .float y => some (x, y)
  | .float x, .int n => some (x, Number.toFloat n)
  | .int n, .float y => some (Number.toFloat n, y)
  | _, _ => none

def add (a b : Value) : Except OperationFault Value :=
  match a, b with
  | .int m, .int n => wholeResult "Addition" "+" m n (m + n)
  | .text s, v => .ok (.text (s ++ v.shown))
  | v, .text s => .ok (.text (v.shown ++ s))
  | .array as, .array bs => .ok (.array (as ++ bs))
  | .map as, .map bs => .ok (.map (bs.foldl (fun rows row => store row.1 row.2 rows) as))
  | a, b => match reals? a b with
    | some (x, y) => .ok (.float (x + y))
    | none => .error .undefined

/-- A text without the places where another one stands in it. -/
def without (piece : List Char) : Nat → List Char → List Char
  | 0, cs => cs
  | _, [] => []
  | limit + 1, c :: cs =>
    if piece.isPrefixOf (c :: cs) && !piece.isEmpty then
      without piece limit ((c :: cs).drop piece.length)
    else c :: without piece limit cs

def subtract (a b : Value) : Except OperationFault Value :=
  match a, b with
  | .int m, .int n => wholeResult "Subtraction" "-" m n (m - n)
  | .text s, .text t => .ok (.text (String.ofList (without t.toList s.length s.toList)))
  | a, b => match reals? a b with
    | some (x, y) => .ok (.float (x - y))
    | none => .error .undefined

def greater (a b : Value) : Except OperationFault Value :=
  match a, b with
  | .int m, .int n => .ok (.bool (decide (m > n)))
  | .text s, .text t => .ok (.bool (decide (t < s)))
  | .bool x, .bool y => .ok (.bool (x && !y))
  | .array _, .array _ | .map _, .map _ | .path _, .path _ | .task _, .task _ => .error .undefined
  | a, b => match reals? a b with
    | some (x, y) => .ok (.bool (x > y))
    | none => .ok (.bool false)

/-- The opposite of a number. -/
def opposite : Value → Except OperationFault Value
  | .int n =>
    if Number.isScriptInt (-n) then .ok (.int (-n))
    else .error (.overflow ("Negation overflow: -" ++ toString n))
  | .float x => .ok (.float (-x))
  | _ => .error .undefined

end Value

/-- What an operator gives for two values. -/
def Operator.apply (op : Operator) (a b : Value) : Except OperationFault Value :=
  match op with
  | .add => a.add b
  | .subtract => a.subtract b
  | .greater => a.greater b
  | .equal => match a.equal? b with
    | some same => .ok (.bool same)
    | none => .error .undefined
  | .notEqual => match a.equal? b with
    | some same => .ok (.bool !same)
    | none => .error .undefined

end Taskwork.Recipe
