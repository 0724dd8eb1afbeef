/-
Evaluating a recipe. Expressions are computed from left to right; a block has the value of its last
statement, and its variables end with it. A function sees its parameters and no other variables,
and the functions of the recipe come before those that every recipe has. How functions are called
is a parameter of the evaluation of their bodies, so that calls can be counted.
-/
import Taskwork.Recipe.Builtin
import Taskwork.Recipe.Grammar
import Taskwork.Task.Registry

namespace Taskwork.Recipe

namespace Eval

variable (h : Shell.Handlers) (p : Program) (call : Function → List Value → Pos → Eval Value)

/-- Calls the function of a name with the arguments at hand. The first one may be kept somewhere,
and may count as a target rather than as an argument of the recipe's own functions. -/
def invoke (name : String) (isMethod : Bool) (args : List Value) (spot : Option Spot) (pos : Pos) :
    Eval Value := do
  let own := if isMethod then args.drop 1 else args
  match p.function? name own.length with
  | some f => call f own pos
  | none =>
    match name, args with
    | "trim", [.text s] =>
      match spot with
      | some spot => keep spot (.text (Text.trim s))
      | none => pure ()
      return .unit
    | name, args => match Builtin.call? h name args pos with
      | some act => act
      | none => fail (.noFunction name (args.map Value.argumentType)) pos

/-- What an operator gives, if it is made for its operands. -/
def operation (name : String) (args : List Value) (result : Except OperationFault Value) (pos : Pos) :
    Eval Value :=
  match result with
  | .ok v => return v
  | .error .undefined => fail (.noFunction name (args.map Value.argumentType)) pos
  | .error (.overflow text) => fail (.overflow text) pos

mutual

/-- The value of an expression, and where it is kept if it is kept anywhere. -/
def expr : Expr → Eval (Value × Option Spot)
  | .unit => return (.unit, none)
  | .bool b => return (.bool b, none)
  | .int n => return (.int n, none)
  | .float x => return (.float x, none)
  | .text s => return (.text s, none)
  | .var name pos => return (← variable_ name pos, some ⟨name, []⟩)
  | .array items => return (.array (← exprs items), none)
  | .map rows => return (.map (← entries rows []), none)
  | .call name args pos => do
    match args with
    | [] => return (← invoke h p call name false [] none pos, none)
    | first :: rest =>
      let (v, spot) ← expr first
      let vs ← exprs rest
      return (← invoke h p call name false (v :: vs) spot pos, none)
  | .method target name args pos => do
    let (v, spot) ← expr target
    let vs ← exprs args
    return (← invoke h p call name true (v :: vs) spot pos, none)
  | .property target name pos => do
    let (v, spot) ← expr target
    return (← property v name pos, spot.map (·.into (.key name)))
  | .index target index pos => do
    let (v, spot) ← expr target
    let (i, _) ← expr index
    return (← item v i pos, spot.map (·.into (.item i)))
  | .binary op left right pos => do
    let (a, _) ← expr left
    let (b, _) ← expr right
    return (← operation op.text [a, b] (op.apply a b) pos, none)
  | .negate e pos => do
    let (v, _) ← expr e
    return (← operation "-" [v] v.opposite pos, none)
  | .choose condition pos yes no => do
    match ← expr condition with
    | (.bool true, _) => return (← inBlock (body yes), none)
    | (.bool false, _) => return (← inBlock (body no), none)
    | (v, _) => fail (.notCondition v.typeName) pos
  | .block statements => return (← inBlock (body statements), none)

def exprs : List Expr → Eval (List Value)
  | [] => return []
  | e :: rest => do
    let (v, _) ← expr e
    return v :: (← exprs rest)

/-- The rows of a map after some more of them. -/
def entries : List (String × Expr) → List (String × Value) → Eval (List (String × Value))
  | [], rows => return rows
  | (key, e) :: rest, rows => do
    let (v, _) ← expr e
    entries rest (Value.store key v rows)

/-- The value of the last of some statements. -/
def body : List Stmt → Eval Value
  | [] => return .unit
  | [last] => stmt last
  | s :: rest => do
    let _ ← stmt s
    body rest

def stmt : Stmt → Eval Value
  | .expr e => return (← expr e).1
  | .letVar name e => do
    let (v, _) ← expr e
    declare name v
    return .unit
  | .forIn name items pos statements => do
    match ← expr items with
    | (.array vs, _) =>
      vs.forM fun v => inBlock do
        declare name v
        let _ ← body statements
      return .unit
    | _ => fail .notIterable pos
  | .giveBack e => do throw (.result (← expr e).1)
  | .load e pos => do
    match ← expr e with
    | (.text name, _) => fail (.noModule name) pos
    | (v, _) => fail (.noModule v.shown) pos

end

/-- Tells that there were too many calls, from where the first of them was made. -/
def relocated (pos : Pos) (act : Eval Value) : Eval Value := fun m =>
  match act m with
  | (.error (.fault ⟨.tooManyCalls, _⟩), m) => (.error (.fault ⟨.tooManyCalls, pos⟩), m)
  | r => r

/-- Calls a function that may make calls so many levels deep, less one. -/
def callAt : Nat → Function → List Value → Pos → Eval Value
  | 0, _, _, pos => fail .tooManyCalls pos
  | level + 1, f, args, pos => relocated pos
    (framed (f.params.zip args).reverse (body h p (callAt level) f.body))

/-- How deep calls may be nested. -/
def maxCalls : Nat := 64

/-- Runs the statements outside of functions. -/
def topLevel : Eval Unit := fun m =>
  match body h p (callAt h p maxCalls) p.body m with
  | (.error (.fault f), m) => (.error (.fault f), m)
  | (_, m) => (.ok (), m)

/-- Calls the function that configures the project. It sees the variables outside of functions. -/
def configure (f : Function) (options : Value) : Eval Unit := fun m =>
  let scope := (f.params.map fun name => (name, options)) ++ m.scope
  match relocated Pos.none (framed scope (body h p (callAt h p maxCalls) f.body)) m with
  | (.error e, m) => (.error e, m)
  | (.ok _, m) => (.ok (), m)

end Eval

/-! ## Whole recipes -/

/-- What a recipe declares. -/
structure Evaluation where
  registry : Registry
  options : List OptionDeclaration
  deriving Inhabited

/-- Why a recipe cannot be evaluated. -/
inductive EvaluationFault where
  | unreadable (path : String) (f : TextFault)
  | grammar (file : String) (f : GrammarFault)
  | fault (file : String) (f : Fault)
  | noEntry (file : String)

/-- What is told of it; there are no words for a fault of the grammar. -/
def EvaluationFault.message? : EvaluationFault → Option String
  | .unreadable path f => some ("failed to read " ++ path ++ ": " ++ f.message)
  | .grammar _ _ => none
  | .fault file f => some (file ++ ":" ++ toString f.pos.line ++ ":" ++ toString f.pos.column ++ ": " ++
      f.problem.message)
  | .noEntry file => some (file ++ ": entry function configure(options) is not defined")

/-- What is told once a recipe has been computed. -/
def remarks (d : Draft) (optionsOnly : Bool) : List (Level × String) :=
  (d.undeclared.map fun name => (.warn, "option " ++ name ++ " is not declared by the script")) ++
    (d.registry.unknownDependencies.map fun (task, dep) =>
      (.warn, "task " ++ task ++ " depends on unknown task " ++ dep)) ++
    (if optionsOnly then [] else [(.info, "evaluated task script")])

/-- Runs a recipe and, unless only its options are asked for, configures the project with it. -/
def Program.run (h : Shell.Handlers) (p : Program) (file : String) (optionsOnly : Bool) :
    ExceptT EvaluationFault (StateM Machine) Unit := do
  let told (act : Eval Unit) : ExceptT EvaluationFault (StateM Machine) Unit := fun m =>
    match act m with
    | (.error (.fault f), m) => (.error (.fault file f), m)
    | (_, m) => (.ok (), m)
  told (Eval.topLevel h p)
  if optionsOnly then return
  match p.function? Task.reservedName 1 with
  | none => throw (.noEntry file)
  | some f =>
    let d := (← get).draft
    modify fun m => { m with draft := { d with phase := .configuring } }
    told (Eval.configure h p f (.map (d.optionTable.map fun (name, value) => (name, .text value))))

/-- What the text of a recipe declares, with some values for its options. -/
def evaluateText (h : Shell.Handlers) (site : Site) (given : Table) (optionsOnly : Bool)
    (text : String) (host : Host) : Host × Except EvaluationFault Evaluation :=
  match Program.ofText text with
  | .error f => (host, .error (.grammar site.shown f))
  | .ok p =>
    match p.run h site.shown optionsOnly ⟨.initial site given, host, []⟩ with
    | (.error e, m) => (m.host, .error e)
    | (.ok (), m) =>
      ((remarks m.draft optionsOnly).foldl (fun host row => host.report row.1 row.2) m.host,
        .ok ⟨m.draft.registry.setEnv m.draft.env, m.draft.options⟩)

/-- What the recipe in a file declares. -/
def evaluate (h : Shell.Handlers) (script projectRoot : String) (given : Table) (optionsOnly : Bool)
    (host : Host) : Host × Except EvaluationFault Evaluation :=
  let site : Site := ⟨host.files.absolute script, host.files.absolute projectRoot⟩
  match host.files.textAt site.script with
  | .error f => (host, .error (.unreadable site.script f))
  | .ok text => evaluateText h site given optionsOnly text host

end Taskwork.Recipe
