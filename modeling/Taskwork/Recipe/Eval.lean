/-
Computing in a recipe: it ends with a value, with a fault, or early because a function gives its
result back, and it changes the draft, the host and the variables.
-/
import Taskwork.Host
import Taskwork.Recipe.Problem

namespace Taskwork.Recipe

structure Machine where
  draft : Draft
  host : Host
  /-- The variables with their values, the last one declared first. -/
  scope : List (String × Value)
  deriving Inhabited

/-- Why computing ends early. -/
inductive Stop where
  | fault (f : Fault)
  | result (v : Value)

abbrev Eval (α : Type) := ExceptT Stop (StateM Machine) α

/-- A step from a value into it. -/
inductive Step where
  | key (name : String)
  | item (index : Value)

/-- Where a value is kept: in a variable, some steps inside. -/
structure Spot where
  variable_ : String
  steps : List Step

def Spot.into (s : Spot) (step : Step) : Spot := { s with steps := s.steps ++ [step] }

/-- The number of an item of an array; a negative one counts from the end. -/
def itemIndex? (index : Int) (size : Nat) : Option Nat :=
  let i := if index < 0 then index + size else index
  if 0 ≤ i ∧ i < size then some i.toNat else none

namespace Value

/-- A value after what some steps lead to has been replaced. -/
def replace (new : Value) : List Step → Value → Value
  | [], _ => new
  | .key name :: rest, .map rows =>
    .map (store name (replace new rest ((lookup name rows).getD .unit)) rows)
  | .item (.text name) :: rest, .map rows =>
    .map (store name (replace new rest ((lookup name rows).getD .unit)) rows)
  | .item (.int index) :: rest, .array items =>
    match itemIndex? index items.length with
    | some i => .array (items.modify i (replace new rest))
    | none => .array items
  | _, v => v

end Value

namespace Eval

def fail {α : Type} (problem : Problem) (pos : Pos) : Eval α := throw (.fault ⟨problem, pos⟩)

def draft : Eval Draft := do return (← get).draft

def setDraft (draft : Draft) : Eval Unit := modify fun m => { m with draft }

def files : Eval Files := do return (← get).host.files

def report (level : Level) (message : String) : Eval Unit :=
  modify fun m => { m with host := m.host.report level message }

/-- A message about a place of the recipe. -/
def reportAt (level : Level) (pos : Pos) (message : String) : Eval Unit := do
  let place := (← draft).site.shown ++ ":" ++ toString pos.line ++ ":" ++ toString pos.column
  report level (place ++ ": " ++ message)

/-! ## Variables -/

/-- The value of a variable. -/
def variable_ (name : String) (pos : Pos) : Eval Value := do
  match Value.lookup name (← get).scope with
  | some v => return v
  | none => fail (.noVariable name) pos

def declare (name : String) (v : Value) : Eval Unit :=
  modify fun m => { m with scope := (name, v) :: m.scope }

/-- Gives a new value to the variable declared last under a name. -/
def assign (name : String) (f : Value → Value) : List (String × Value) → List (String × Value)
  | [] => []
  | (k, v) :: rest => if k = name then (k, f v) :: rest else (k, v) :: assign name f rest

/-- Keeps a value at a spot. -/
def keep (spot : Spot) (v : Value) : Eval Unit :=
  modify fun m => { m with scope := assign spot.variable_ (Value.replace v spot.steps) m.scope }

/-- Computes with variables of its own, which are forgotten afterwards. -/
def inBlock {α : Type} (act : Eval α) : Eval α := do
  let depth := (← get).scope.length
  let a ← act
  modify fun m => { m with scope := m.scope.drop (m.scope.length - depth) }
  return a

/-- Computes with the given variables alone, up to a result. -/
def framed (scope : List (String × Value)) (act : Eval Value) : Eval Value := fun m =>
  let (result, m') := act { m with scope }
  let back := { m' with scope := m.scope }
  match result with
  | .error (.result v) => (.ok v, back)
  | r => (r, back)

/-! ## Parts of values -/

/-- The value of a property. A map has a property for each key, and nothing under any other. -/
def property (v : Value) (name : String) (pos : Pos) : Eval Value :=
  match v, name with
  | .map rows, name => return (Value.lookup name rows).getD .unit
  | .task t, "name" => return .text t.name
  | .array items, "len" => return .int items.length
  | .text s, "len" => return .int s.length
  | v, name => fail (.noProperty name v.argumentType) pos

/-- The item of an array by number, or of a map by key. -/
def item (v index : Value) (pos : Pos) : Eval Value :=
  match v, index with
  | .array items, .int i =>
    match (itemIndex? i items.length).bind fun i => items[i]? with
    | some v => return v
    | none => fail (.outOfBounds i items.length) pos
  | .map rows, .text key => return (Value.lookup key rows).getD .unit
  | v, index => fail (.noItems v.argumentType index.argumentType) pos

end Eval
end Taskwork.Recipe
