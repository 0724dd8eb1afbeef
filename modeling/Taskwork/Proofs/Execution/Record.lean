/-
A run with a record. What befalls tasks is written down as it happens, and nothing else is
different: without its record a recorded run is the run.
-/
import Taskwork.Execution.Basic
import Taskwork.Proofs.Stateful

namespace Taskwork.Execution

/-- What befalls a task in a run. -/
inductive Event where
  /-- It is in progress from here on. -/
  | started (t : Task)
  /-- Its commands are about to be run, or shown. -/
  | begun (t : Task)
  | ended (t : Task) (outcome : Outcome)

namespace Event

def task : Event → Task
  | started t => t
  | begun t => t
  | ended t _ => t

def begun? : Event → Option Task
  | begun t => some t
  | _ => none

def ended? : Event → Option (Task × Outcome)
  | ended t outcome => some (t, outcome)
  | _ => none

end Event

/-- The tasks whose commands were begun, the first one first. -/
def begun (es : List Event) : List Task := es.filterMap Event.begun?

/-- The tasks that ended, the first one first, and how. -/
def ended (es : List Event) : List (Task × Outcome) := es.filterMap Event.ended?

/-- Doing something in a run and writing down what befalls tasks. -/
abbrev Recorded (α : Type) := ExceptT Fault (StateM (World × List Event)) α

namespace Recorded

/-- Does something in which nothing befalls a task. -/
def silently {α : Type} (act : Act α) : Recorded α := fun (w, es) =>
  let (result, w) := act w
  (result, (w, es))

def note (e : Event) : Recorded Unit := fun (w, es) => (.ok (), (w, es ++ [e]))

variable (h : Shell.Handlers) (s : Settings)

def commands (run : Task → Recorded Unit) (t : Task) (index : Nat) :
    List TaskCommand → Shell.State → Recorded Unit
  | [], _ => return
  | .script source :: rest, state => do
    match Shell.Script.ofString source with
    | .error e => throw (.command t.name (.script (t.name ++ ":" ++ toString index) e))
    | .ok script =>
      let state ← silently (statements h s t script state)
      if state.exited then return else commands run t (index + 1) rest state
  | .task sub :: rest, state => do
    run sub
    commands run t (index + 1) rest state

variable (r : Registry)

def dependencies (run : Task → Recorded Unit) (t : Task) : List String → Recorded Unit
  | [] => return
  | name :: rest => do
    if (← silently Act.progress).mark? name = some .done then dependencies run t rest
    else
      match r.get? name with
      | none => throw (.notFound name)
      | some dependency =>
        ExceptT.adapt (.dependency t.name name) (run dependency)
        dependencies run t rest

def body (run : Task → Recorded Unit) (t : Task) : Recorded Outcome := do
  note (.begun t)
  let w ← silently get
  commands h s run t 0 t.cmds (initialState w.host.env r.env t)
  return if s.dryRun then .dryRun else .executed

def taskWith (run : (force : Bool) → Task → Recorded Unit) (force : Bool) (t : Task) :
    Recorded Unit := do
  silently (Act.advance (·.start t.name))
  note (.started t)
  dependencies r (run false) t t.deps
  let outcome ← match ← (if force then pure none else silently (settled s t)) with
    | some outcome => pure outcome
    | none => body h s r (run force) t
  silently (Act.advance (·.finish t.name outcome))
  note (.ended t outcome)

def taskAt : Nat → (force : Bool) → Task → Recorded Unit
  | level, force, t => do
    match (← silently Act.progress).mark? t.name with
    | some .done => return
    | some .running => throw (.recursive t.name)
    | none =>
      match level with
      | 0 => throw (.recursive t.name)
      | level + 1 => taskWith h s r (taskAt level) force t

/-- A run and its record. -/
def run (name : String) (host : Host) : (Host × Except Fault Report) × List Event :=
  match r.get? name with
  | none => ((host, .error (.notFound name)), [])
  | some t =>
    match taskAt h.withTools s r (maxLevels r) s.force t (⟨.initial, host⟩, []) with
    | (.ok (), (w, es)) => ((w.host, .ok w.progress.report), es)
    | (.error f, (w, es)) => ((w.host, .error f), es)

/-! ## Without its record -/

/-- A recorded act does what another one does. -/
def Does {α : Type} (recorded : Recorded α) (act : Act α) : Prop :=
  ∀ w es, ((recorded (w, es)).1, (recorded (w, es)).2.1) = act w

theorem does_silently {α : Type} (act : Act α) : Does (silently act) act := fun _ _ => rfl

theorem does_pure {α : Type} (a : α) : Does (pure a) (pure a) := fun _ _ => rfl

theorem does_throw {α : Type} (f : Fault) : Does (α := α) (throw f) (throw f) := fun _ _ => rfl

theorem Does.bind {α β : Type} {x : Recorded α} {act : Act α} {f : α → Recorded β} {g : α → Act β}
    (hx : Does x act) (hf : ∀ a, Does (f a) (g a)) : Does (x >>= f) (act >>= g) := by
  intro w es
  rw [Stateful.bind_apply, Stateful.bind_apply, ← hx w es]
  rcases x (w, es) with ⟨_ | a, w', es'⟩
  · rfl
  · exact hf a w' es'

theorem Does.adapt {α : Type} {x : Recorded α} {act : Act α} (hx : Does x act) (f : Fault → Fault) :
    Does (ExceptT.adapt f x) (ExceptT.adapt f act) := by
  intro w es
  rw [Stateful.adapt_apply, Stateful.adapt_apply, ← hx w es]

/-- Writing something down does nothing besides. -/
theorem Does.note {α : Type} {x : Recorded α} {act : Act α} (hx : Does x act) (e : Event) :
    Does (Recorded.note e >>= fun _ => x) act := fun w es => hx w (es ++ [e])

theorem Does.note_after {x : Recorded Unit} {act : Act Unit} (hx : Does x act) (e : Event) :
    Does (x >>= fun _ => Recorded.note e) act := by
  intro w es
  rw [Stateful.bind_apply, ← hx w es]
  rcases x (w, es) with ⟨_ | ⟨⟩, w', es'⟩ <;> rfl

variable {h s r}

theorem does_commands {run : Task → Recorded Unit} {run' : Task → Act Unit}
    (hrun : ∀ t, Does (run t) (run' t)) (t : Task) : ∀ (index : Nat) (cmds : List TaskCommand)
    (state : Shell.State), Does (commands h s run t index cmds state)
      (Execution.commands h s run' t index cmds state)
  | _, [], _ => does_pure ()
  | index, .script source :: rest, state => by
    unfold commands Execution.commands
    cases Shell.Script.ofString source with
    | error e => exact does_throw _
    | ok script =>
      refine Does.bind (does_silently _) fun state => ?_
      split
      · exact does_pure ()
      · exact does_commands hrun t (index + 1) rest state
  | index, .task sub :: rest, state =>
    Does.bind (hrun sub) fun _ => does_commands hrun t (index + 1) rest state

theorem does_dependencies {run : Task → Recorded Unit} {run' : Task → Act Unit}
    (hrun : ∀ t, Does (run t) (run' t)) (t : Task) : ∀ names : List String,
    Does (dependencies r run t names) (Execution.dependencies r run' t names)
  | [] => does_pure ()
  | name :: rest => by
    unfold dependencies Execution.dependencies
    refine Does.bind (does_silently _) fun p => ?_
    split
    · exact does_dependencies hrun t rest
    · cases r.get? name with
      | none => exact does_throw _
      | some dependency =>
        exact Does.bind ((hrun dependency).adapt _) fun _ => does_dependencies hrun t rest

theorem does_body {run : Task → Recorded Unit} {run' : Task → Act Unit}
    (hrun : ∀ t, Does (run t) (run' t)) (t : Task) :
    Does (body h s r run t) (Execution.body h s r run' t) :=
  Does.note (Does.bind (does_silently _) fun _ =>
    Does.bind (does_commands hrun t 0 t.cmds _) fun _ => does_pure _) _

theorem does_taskWith {run : Bool → Task → Recorded Unit} {run' : Bool → Task → Act Unit}
    (hrun : ∀ force t, Does (run force t) (run' force t)) (force : Bool) (t : Task) :
    Does (taskWith h s r run force t) (Execution.taskWith h s r run' force t) := by
  have hsettled : Does (if force then pure none else silently (settled s t))
      (if force then pure none else settled s t) := by
    split
    · exact does_pure none
    · exact does_silently _
  have hend (outcome : Outcome) : Does
      (silently (Act.advance (·.finish t.name outcome)) >>= fun _ => note (.ended t outcome))
      (Act.advance (·.finish t.name outcome)) := (does_silently _).note_after _
  refine Does.bind (does_silently _) fun _ => Does.note ?_ _
  refine Does.bind (does_dependencies (hrun false) t t.deps) fun _ => ?_
  refine Does.bind hsettled fun outcome => ?_
  cases outcome with
  | some outcome => exact Does.bind (does_pure outcome) hend
  | none => exact Does.bind (does_body (hrun force) t) hend

theorem does_taskAt : ∀ (level : Nat) (force : Bool) (t : Task),
    Does (taskAt h s r level force t) (Execution.taskAt h s r level force t) := by
  intro level
  induction level with
  | zero =>
    intro force t
    unfold taskAt Execution.taskAt
    refine Does.bind (does_silently _) fun p => ?_
    cases p.mark? t.name with
    | none => exact does_throw _
    | some m =>
      cases m with
      | done => exact does_pure ()
      | running => exact does_throw _
  | succ level ih =>
    intro force t
    unfold taskAt Execution.taskAt
    refine Does.bind (does_silently _) fun p => ?_
    cases p.mark? t.name with
    | none => exact does_taskWith ih force t
    | some m =>
      cases m with
      | done => exact does_pure ()
      | running => exact does_throw _

/-- A recorded run is the run, with its record. -/
theorem fst_run (name : String) (host : Host) :
    (run h s r name host).1 = Execution.run h s r name host := by
  unfold run Execution.run
  cases r.get? name with
  | none => rfl
  | some t =>
    dsimp only
    rw [← does_taskAt (maxLevels r) s.force t ⟨.initial, host⟩ []]
    rcases taskAt h.withTools s r (maxLevels r) s.force t (⟨.initial, host⟩, []) with ⟨_ | ⟨⟩, w, es⟩ <;> rfl

end Recorded
end Taskwork.Execution
