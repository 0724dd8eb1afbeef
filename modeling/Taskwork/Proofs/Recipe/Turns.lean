/-
What a recipe does to the machine. The draft is changed only by the functions that every recipe has and
when the recipe begins to configure the project; all other computing is about variables. So what is true of
these and goes on from one to the next is true of every recipe (`Eval.Covers`): its expressions and
statements, over their syntax, and its calls, over their depth. In particular a recipe takes one turn after
the other (`Turns`), and the tasks that it is given by `task` are told of with them.
-/
import Taskwork.Proofs.Stateful
import Taskwork.Recipe.Evaluation

namespace Taskwork.Recipe

open Stateful (Keeps)

/-! ## Computing -/

namespace Eval

theorem draft_bind {α : Type} (go : Draft → Eval α) (m : Machine) : (draft >>= go) m = go m.draft m := rfl

theorem files_bind {α : Type} (go : Files → Eval α) (m : Machine) : (files >>= go) m = go m.host.files m := rfl

theorem setDraft_bind {α : Type} (d : Draft) (go : Unit → Eval α) (m : Machine) :
    (setDraft d >>= go) m = go () { m with draft := d } := rfl

/-- It leads from a machine to those that computing without the draft leads to. -/
structure Carries (R : Machine → Machine → Prop) : Prop where
  trans : ∀ {m m' m''}, R m m' → R m' m'' → R m m''
  computed : ∀ {m m' : Machine}, m'.draft = m.draft → R m m'

namespace Carries

variable {α β : Type} {R : Machine → Machine → Prop} (hR : Carries R)
include hR

theorem still {act : Eval α} (hact : ∀ m, (act m).2.draft = m.draft) : Keeps R act := fun m => hR.computed (hact m)

theorem pure (a : α) : Keeps R (pure a : Eval α) := hR.still fun _ => rfl

theorem fail (problem : Problem) (pos : Pos) : Keeps R (fail problem pos : Eval α) := hR.still fun _ => rfl

theorem bind {act : Eval α} {go : α → Eval β} (hact : Keeps R act) (hgo : ∀ a, Keeps R (go a)) :
    Keeps R (act >>= go) := hact.bind hgo fun _ _ _ => hR.trans

omit hR in
theorem ite {c : Prop} [Decidable c] {yes no : Eval α} (hyes : Keeps R yes) (hno : Keeps R no) :
    Keeps R (if c then yes else no) := by
  split
  · exact hyes
  · exact hno

theorem forM {step : α → Eval Unit} (hstep : ∀ a, Keeps R (step a)) : ∀ as : List α, Keeps R (as.forM step)
  | [] => hR.pure ()
  | a :: as => hR.bind (hstep a) fun _ => forM hstep as

/-! ## Variables -/

theorem variable_ (name : String) (pos : Pos) : Keeps R (variable_ name pos) := by
  refine hR.bind (hR.still fun _ => rfl) fun m => ?_
  split
  · exact hR.pure _
  · exact hR.fail _ _

theorem declare (name : String) (v : Value) : Keeps R (declare name v) := hR.still fun _ => rfl

theorem keep (spot : Spot) (v : Value) : Keeps R (keep spot v) := hR.still fun _ => rfl

theorem inBlock {act : Eval α} (hact : Keeps R act) : Keeps R (inBlock act) :=
  hR.bind (hR.still fun _ => rfl) fun _ => hR.bind hact fun a => hR.bind (hR.still fun _ => rfl) fun _ => hR.pure a

theorem framed (scope : List (String × Value)) {act : Eval Value} (hact : Keeps R act) :
    Keeps R (framed scope act) := by
  intro m
  -- the variables are put aside and taken back, which changes no draft
  have hin : R m { m with scope } := hR.computed rfl
  have hout : R (act { m with scope }).2 { (act { m with scope }).2 with scope := m.scope } := hR.computed rfl
  have hall := hR.trans (hR.trans hin (hact _)) hout
  unfold Eval.framed
  rcases hend : act { m with scope } with ⟨(f | v) | v, m'⟩ <;> rw [hend] at hall <;> exact hall

/-! ## Parts of values -/

theorem property (v : Value) (name : String) (pos : Pos) : Keeps R (property v name pos) := by
  unfold Eval.property
  split
  · exact hR.pure _
  · exact hR.pure _
  · exact hR.pure _
  · exact hR.pure _
  · exact hR.fail _ _

theorem item (v index : Value) (pos : Pos) : Keeps R (item v index pos) := by
  unfold Eval.item
  split
  · split
    · exact hR.pure _
    · exact hR.fail _ _
  · exact hR.pure _
  · exact hR.fail _ _

theorem operation (name : String) (args : List Value) (result : Except OperationFault Value) (pos : Pos) :
    Keeps R (operation name args result pos) := by
  unfold Eval.operation
  split
  · exact hR.pure _
  · exact hR.fail _ _
  · exact hR.fail _ _

/-! ## Functions that leave the draft as it is -/

theorem resolvePath (parts : List Value) (rows : List (String × Value)) (pos : Pos) :
    Keeps R (Builtin.resolvePath parts rows pos) := by
  refine hR.bind (hR.still fun _ => rfl) fun d => ?_
  split
  · exact hR.pure _
  · exact hR.fail _ _

theorem check (name : String) (kind : Files → String → Bool) (v : Value) (pos : Pos) :
    Keeps R (Builtin.check name kind v pos) := by
  unfold Builtin.check
  split
  · exact hR.fail _ _
  · exact hR.still fun _ => rfl

theorem execute (h : Shell.Handlers) (command : Value) (format : String) (showErrors : Bool) (pos : Pos) :
    Keeps R (Builtin.execute h command format showErrors pos) := by
  unfold Builtin.execute
  refine ite (hR.still fun _ => rfl) (hR.bind (hR.still fun _ => rfl) fun d => ?_)
  split
  · exact hR.fail _ _
  split
  · exact hR.fail _ _
  refine hR.bind (hR.still fun _ => rfl) fun output => ?_
  split
  · exact ite (hR.still fun _ => rfl) (hR.pure _)
  · refine ite ?_ (hR.pure _)
    dsimp only
    split
    · exact hR.pure _
    · exact hR.fail _ _

end Carries
end Eval

/-! ## The functions that every recipe has -/

/-- The draft is the same, but for the environment and the documents that have been read. -/
def Machine.Aside (m m' : Machine) : Prop := ∃ env documents, m'.draft = { m.draft with env, documents }

theorem Machine.carries_aside : Eval.Carries Machine.Aside where
  trans := by
    rintro m m' m'' ⟨_, _, h⟩ ⟨env, documents, h'⟩
    exact ⟨env, documents, by rw [h', h]⟩
  computed {m m'} hdraft := ⟨m.draft.env, m.draft.documents, hdraft⟩

namespace Builtin

open Machine (carries_aside)

theorem aside_prependPath (v : Value) (pos : Pos) : Keeps Machine.Aside (prependPath v pos) := by
  unfold prependPath
  split
  · exact carries_aside.fail _ _
  · exact fun _ => ⟨_, _, rfl⟩

theorem document_cases {d d' : Draft} {fs : Files} {path : String} {node : Yaml.Node}
    (h : document d fs path = .ok (d', node)) : ∃ documents, d' = { d with documents } := by
  unfold document at h
  split at h
  · cases h
    exact ⟨d.documents, rfl⟩
  · obtain ⟨text, -, h⟩ := exists_of_bind_ok h
    obtain ⟨read, -, h⟩ := exists_of_bind_ok h
    cases h
    exact ⟨_, rfl⟩

theorem aside_readYaml (file key : String) (default : Value) (pos : Pos) :
    Keeps Machine.Aside (readYaml file key default pos) := by
  intro m
  unfold readYaml
  rw [Eval.draft_bind, Eval.files_bind]
  rcases hdocument : document m.draft m.host.files (m.draft.site.resolve [file]) with f | ⟨d, node⟩
  · exact carries_aside.fail _ _ m
  · obtain ⟨documents, rfl⟩ := document_cases hdocument
    dsimp only
    rw [Eval.setDraft_bind]
    cases valueIn node key default <;> exact ⟨_, _, rfl⟩

/-- A call of `task` is refused and changes nothing, or gives the task that the draft has admitted. -/
theorem task_cases (rows : List (String × Value)) (pos : Pos) (m : Machine) :
    (∃ f, m.draft.declareTask rows = .error f ∧ task rows pos m = (.error (.fault ⟨.task f, pos⟩), m)) ∨
      ∃ t d, m.draft.declareTask rows = .ok (d, t) ∧ (task rows pos m).1 = .ok (.task t) ∧
        (task rows pos m).2.draft = d := by
  unfold task
  rw [Eval.draft_bind]
  rcases m.draft.declareTask rows with f | ⟨d, t⟩
  · exact .inl ⟨f, rfl, rfl⟩
  · refine .inr ⟨t, d, rfl, ?_⟩
    dsimp only
    split <;> exact ⟨rfl, rfl⟩

/-- A call of `option` changes the options only. -/
theorem option_cases (o : OptionDeclaration) (pos : Pos) (m : Machine) :
    ∃ options, (option o pos m).2.draft = { m.draft with options } := by
  unfold option
  rw [Eval.draft_bind]
  rcases hdeclared : m.draft.declareOption o with _ | ⟨d, value⟩
  · exact ⟨m.draft.options, rfl⟩
  · unfold Draft.declareOption at hdeclared
    split at hdeclared
    · cases hdeclared
    · cases hdeclared
      dsimp only
      split
      · exact ⟨m.draft.options, rfl⟩
      · exact ⟨_, rfl⟩

/-- Only `option` and `task` have a part in what is declared. -/
theorem call?_cases {h : Shell.Handlers} {name : String} {args : List Value} {pos : Pos} {act : Eval Value}
    (hact : call? h name args pos = some act) :
    (∃ o, name = "option" ∧ act = option o pos) ∨ (∃ rows, name = "task" ∧ act = task rows pos) ∨
      (name ≠ "option" ∧ name ≠ "task" ∧ Keeps Machine.Aside act) := by
  unfold call? at hact
  split at hact <;> cases hact
  · exact .inl ⟨_, rfl, rfl⟩
  · exact .inl ⟨_, rfl, rfl⟩
  · exact .inr (.inl ⟨_, rfl, rfl⟩)
  all_goals refine .inr (.inr ⟨by decide, by decide, ?_⟩)
  · exact carries_aside.still fun _ => rfl
  · exact carries_aside.still fun _ => rfl
  · exact carries_aside.still fun _ => rfl
  · exact carries_aside.resolvePath _ _ _
  · exact carries_aside.resolvePath _ _ _
  · exact carries_aside.check _ _ _ _
  · exact carries_aside.check _ _ _ _
  · exact carries_aside.still fun _ => rfl
  · exact fun _ => ⟨_, _, rfl⟩
  · exact aside_prependPath _ _
  · exact carries_aside.pure _
  · exact carries_aside.pure _
  · exact carries_aside.execute _ _ _ _ _
  · exact carries_aside.execute _ _ _ _ _
  · exact carries_aside.execute _ _ _ _ _
  · exact aside_readYaml _ _ _ _
  · exact carries_aside.still fun _ => rfl
  · exact carries_aside.still fun _ => rfl
  · exact carries_aside.fail _ _
  all_goals exact carries_aside.still fun _ => rfl

end Builtin

/-! ## Expressions and statements -/

namespace Eval

/-- It leads also to those that the functions of all recipes lead to. -/
structure Covers (h : Shell.Handlers) (R : Machine → Machine → Prop) : Prop extends Carries R where
  called : ∀ {name args pos act}, Builtin.call? h name args pos = some act → Keeps R act

/-- Calls of functions lead there too. -/
def OfCalls (R : Machine → Machine → Prop) (call : Function → List Value → Pos → Eval Value) : Prop :=
  ∀ f args pos, Keeps R (call f args pos)

namespace Covers

variable {h : Shell.Handlers} {R : Machine → Machine → Prop} (hR : Covers h R)
include hR

variable {p : Program} {call : Function → List Value → Pos → Eval Value}

theorem invoke (hcall : OfCalls R call) (name : String) (isMethod : Bool) (args : List Value) (spot : Option Spot)
    (pos : Pos) : Keeps R (invoke h p call name isMethod args spot pos) := by
  unfold Eval.invoke
  dsimp only
  split
  · exact hcall _ _ _
  · split
    · split
      · exact hR.bind (hR.keep _ _) fun _ => hR.pure _
      · exact hR.pure _
    · split
      · rename_i hact
        exact hR.called hact
      · exact hR.fail _ _

mutual

theorem expr (hcall : OfCalls R call) : ∀ e : Expr, Keeps R (expr h p call e)
  | .unit | .bool _ | .int _ | .float _ | .text _ => hR.pure _
  | .var name pos => hR.bind (hR.variable_ name pos) fun _ => hR.pure _
  | .array items => hR.bind (exprs hcall items) fun _ => hR.pure _
  | .map rows => hR.bind (entries hcall rows []) fun _ => hR.pure _
  | .call name [] pos => hR.bind (hR.invoke hcall name false [] none pos) fun _ => hR.pure _
  | .call name (first :: rest) pos =>
    hR.bind (expr hcall first) fun _ => hR.bind (exprs hcall rest) fun _ =>
      hR.bind (hR.invoke hcall name false _ _ pos) fun _ => hR.pure _
  | .method target name args pos =>
    hR.bind (expr hcall target) fun _ => hR.bind (exprs hcall args) fun _ =>
      hR.bind (hR.invoke hcall name true _ _ pos) fun _ => hR.pure _
  | .property target name pos =>
    hR.bind (expr hcall target) fun _ => hR.bind (hR.property _ name pos) fun _ => hR.pure _
  | .index target index pos =>
    hR.bind (expr hcall target) fun _ => hR.bind (expr hcall index) fun _ =>
      hR.bind (hR.item _ _ pos) fun _ => hR.pure _
  | .binary op left right pos =>
    hR.bind (expr hcall left) fun _ => hR.bind (expr hcall right) fun _ =>
      hR.bind (hR.operation _ _ _ pos) fun _ => hR.pure _
  | .negate e pos => hR.bind (expr hcall e) fun _ => hR.bind (hR.operation _ _ _ pos) fun _ => hR.pure _
  | .choose condition pos yes no => hR.bind (expr hcall condition) fun _ => by
    split
    · exact hR.bind (hR.inBlock (body hcall yes)) fun _ => hR.pure _
    · exact hR.bind (hR.inBlock (body hcall no)) fun _ => hR.pure _
    · exact hR.fail _ _
  | .block statements => hR.bind (hR.inBlock (body hcall statements)) fun _ => hR.pure _

theorem exprs (hcall : OfCalls R call) : ∀ es : List Expr, Keeps R (exprs h p call es)
  | [] => hR.pure _
  | e :: rest => hR.bind (expr hcall e) fun _ => hR.bind (exprs hcall rest) fun _ => hR.pure _

theorem entries (hcall : OfCalls R call) :
    ∀ (es : List (String × Expr)) (rows : List (String × Value)), Keeps R (entries h p call es rows)
  | [], _ => hR.pure _
  | (_, e) :: rest, _ => hR.bind (expr hcall e) fun _ => entries hcall rest _

theorem body (hcall : OfCalls R call) : ∀ statements : List Stmt, Keeps R (body h p call statements)
  | [] => hR.pure _
  | [last] => stmt hcall last
  | s :: next :: rest => hR.bind (stmt hcall s) fun _ => body hcall (next :: rest)

theorem stmt (hcall : OfCalls R call) : ∀ s : Stmt, Keeps R (stmt h p call s)
  | .expr e => hR.bind (expr hcall e) fun _ => hR.pure _
  | .letVar name e => hR.bind (expr hcall e) fun _ => hR.bind (hR.declare name _) fun _ => hR.pure _
  | .forIn name items pos statements => hR.bind (expr hcall items) fun _ => by
    split
    · exact hR.bind (hR.forM (fun v => hR.inBlock (hR.bind (hR.declare name v) fun _ =>
        hR.bind (body hcall statements) fun _ => hR.pure _)) _) fun _ => hR.pure _
    · exact hR.fail _ _
  | .giveBack e => hR.bind (expr hcall e) fun _ => hR.still fun _ => rfl
  | .load e pos => hR.bind (expr hcall e) fun _ => by
    split
    · exact hR.fail _ _
    · exact hR.fail _ _

end

/-! ## Calls and whole recipes -/

omit hR in
theorem relocated (pos : Pos) {act : Eval Value} (hact : Keeps R act) : Keeps R (relocated pos act) := by
  intro m
  have hm := hact m
  unfold Eval.relocated
  split
  · rename_i heq
    rwa [heq] at hm
  · exact hm

variable (p)

theorem callAt : ∀ level : Nat, OfCalls R (callAt h p level)
  | 0 => fun _ _ _ => hR.fail _ _
  | level + 1 => fun f _ pos => relocated pos (hR.framed _ (hR.body (callAt level) f.body))

theorem statements (statements : List Stmt) : Keeps R (Eval.body h p (Eval.callAt h p maxCalls) statements) :=
  hR.body (hR.callAt p maxCalls) statements

theorem topLevel : Keeps R (topLevel h p) := by
  intro m
  have hm := hR.statements p p.body m
  unfold Eval.topLevel
  split <;> rename_i heq <;> rwa [heq] at hm

theorem configure (f : Function) (options : Value) : Keeps R (configure h p f options) := by
  intro m
  have hm := relocated .none (hR.framed ((f.params.map fun name => (name, options)) ++ m.scope)
    (hR.statements p f.body)) m
  unfold Eval.configure
  dsimp only
  split <;> rename_i heq <;> rwa [heq] at hm

/-- A whole recipe leads there too, if beginning to configure the project does. -/
theorem run (hphase : ∀ m : Machine, R m { m with draft := { m.draft with phase := .configuring } }) (file : String)
    (optionsOnly : Bool) : Keeps R (p.run h file optionsOnly) := by
  have hdone (m : Machine) : R m m := hR.computed rfl
  unfold Program.run
  dsimp only
  refine Keeps.bind (fun m => ?_) (fun _ => ?_) fun _ _ _ => hR.trans
  · have hm := hR.topLevel p m
    split <;> rename_i heq <;> rwa [heq] at hm
  split
  · exact hdone
  split
  · exact hdone
  rename_i f _
  intro m
  have hm := hR.trans (hphase m) (hR.configure p f (.map (m.draft.optionTable.map fun row => (row.1, .text row.2))) _)
  rw [Stateful.get_bind, Stateful.modify_bind]
  split <;> rename_i heq <;> rwa [heq] at hm

end Covers

/-- The tasks that a call gives: one at most. -/
def given : Except Stop Value → List Task
  | .ok (.task t) => [t]
  | _ => []

theorem given_task (t : Task) : given (.ok (.task t)) = [t] := rfl

theorem given_error (stop : Stop) : given (.error stop) = [] := rfl

end Eval

/-! ## Turns -/

/-- A turn of a recipe, from one machine to another, and the tasks that it is given in it by `task`. -/
inductive Turn (h : Shell.Handlers) : Machine → List Task → Machine → Prop
  /-- It describes a task, which may be refused. -/
  | task (rows : List (String × Value)) (pos : Pos) (m : Machine) :
    Turn h m (Eval.given (Builtin.task rows pos m).1) (Builtin.task rows pos m).2
  /-- It calls another function that every recipe has, which may fail. -/
  | call {name : String} {args : List Value} {pos : Pos} {act : Eval Value} (hname : name ≠ "task")
    (hact : Builtin.call? h name args pos = some act) (m : Machine) : Turn h m [] (act m).2
  /-- It computes with its variables. -/
  | compute {m m' : Machine} (hdraft : m'.draft = m.draft) : Turn h m [] m'
  /-- It begins to configure the project. -/
  | begin_ (m : Machine) : Turn h m [] { m with draft := { m.draft with phase := .configuring } }

/-- The turns of a recipe, one after the other, and the tasks that it is given in them, the first one first. A call
that failed does not end them. -/
inductive Turns (h : Shell.Handlers) (start : Machine) : List Task → Machine → Prop
  | none : Turns h start [] start
  | snoc {ts more : List Task} {m m' : Machine} (past : Turns h start ts m) (next : Turn h m more m') :
    Turns h start (ts ++ more) m'

namespace Turns

variable {h : Shell.Handlers} {m m' m'' : Machine} {ts us : List Task}

theorem single (turn : Turn h m ts m') : Turns h m ts m' := List.nil_append ts ▸ Turns.none.snoc turn

theorem trans (past : Turns h m ts m') (next : Turns h m' us m'') : Turns h m (ts ++ us) m'' := by
  induction next with
  | none => rwa [List.append_nil]
  | snoc _ last ih => exact List.append_assoc .. ▸ ih.snoc last

/-- Whatever a recipe does are turns. -/
theorem covers (h : Shell.Handlers) : Eval.Covers h fun m m' => ∃ ts, Turns h m ts m' where
  trans := fun ⟨_, past⟩ ⟨_, next⟩ => ⟨_, past.trans next⟩
  computed hdraft := ⟨[], single (.compute hdraft)⟩
  called {name args pos act} hact m := by
    by_cases hname : name = "task"
    · obtain ⟨o, hoption, -⟩ | ⟨rows, -, rfl⟩ | ⟨-, hother, -⟩ := Builtin.call?_cases hact
      · exact absurd (hname.symm.trans hoption) (by decide)
      · exact ⟨_, single (.task rows pos m)⟩
      · exact absurd hname hother
    · exact ⟨[], single (.call hname hact m)⟩

end Turns

/-- The registry that a recipe gives is that of the draft after its turns. -/
theorem turns_of_evaluateText {h : Shell.Handlers} {site : Site} {given : Table} {optionsOnly : Bool} {text : String}
    {host host' : Host} {e : Evaluation}
    (heval : evaluateText h site given optionsOnly text host = (host', .ok e)) :
    ∃ ts m, Turns h ⟨.initial site given, host, []⟩ ts m ∧ e.registry = m.draft.registry.setEnv m.draft.env ∧
      e.options = m.draft.options := by
  unfold evaluateText at heval
  split at heval
  · cases heval
  · rename_i p _
    have hrun := (Turns.covers h).run p (fun m => ⟨[], .single (.begin_ m)⟩) site.shown optionsOnly
      ⟨.initial site given, host, []⟩
    split at heval
    · cases heval
    · rename_i m hm
      rw [hm] at hrun
      obtain ⟨ts, hturns⟩ := hrun
      cases heval
      exact ⟨ts, m, hturns, rfl, rfl⟩

end Taskwork.Recipe
