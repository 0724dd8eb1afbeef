/-
The interpreter over any operations. Running a script is put together from a few things that are done
to a shell; whatever these are, the clauses for lists, pipelines, commands and words stay the same. With
the acts of a shell they are the interpreter (`Run.andOr_eq`), and what two kinds of operations have in
common, all that is run with them has in common (`Operations.Related`).
-/
import Taskwork.Shell.Interpreter

namespace Taskwork.Shell

/-- What is done to a shell while a script runs, where `m α` is doing something that yields an `α`. -/
structure Operations (m : Type → Type) where
  /-- Whether the shell has been ended by an `exit`. -/
  isOver : m Bool
  lastStatus : m Int
  /-- Notes the status of a statement. -/
  note : Int → m Unit
  /-- Ends a list of pipelines: with its status, or by stopping the script if that is a failure that
  counts. -/
  conclude : (status : Int) → (counts : Bool) → m Int
  tested : Bool → m Int → m Int
  /-- Does something in a copy of the shell. -/
  copied : m Int → m Int
  /-- Does something in a copy of the shell whose output is piped. -/
  piped : m Int → m Bytes
  substituted : (Streams → m Int) → m String
  /-- The value of a parameter, empty if it is not set. -/
  lookup : String → m String
  /-- The arguments that the fields of a word stand for. -/
  arguments : Fields → m (List String)
  redirect : Nat → RedirectKind → String → Streams → m (Except (String × FileFault) Streams)
  /-- Tells which redirection could not be had. -/
  refuse : Streams → String × FileFault → m Int
  perform : List String → List (String × String) → Streams → m Int

namespace Operations

section Interpreter

variable {m : Type → Type} [Monad m] (o : Operations m)

def withStreams (outer : Streams) (streams : Except (String × FileFault) Streams) (act : Streams → m Int) : m Int :=
  match streams with
  | .ok streams => act streams
  | .error fault => o.refuse outer fault

mutual

def list (streams : Streams) : List Statement → m Int
  | [] => o.lastStatus
  | statement :: rest => do
    if ← o.isOver then o.lastStatus
    else
      let status ← andOr streams statement
      o.note status
      list streams rest

def andOr (streams : Streams) : Statement → m Int
  | ⟨first, rest, _, _⟩ => do
    let status ← guarded streams (!rest.isEmpty) first
    let (status, counts) ← links streams status (rest.isEmpty && !first.negated) rest
    o.conclude status counts

def links (streams : Streams) (status : Int) (counts : Bool) : List Link → m (Int × Bool)
  | [] => pure (status, counts)
  | ⟨connector, next⟩ :: rest => do
    let proceed := match connector with
      | .and => status == 0
      | .or => status != 0
    if proceed then
      let status ← guarded streams (!rest.isEmpty) next
      links streams status (rest.isEmpty && !next.negated) rest
    else links streams status false rest

def guarded (streams : Streams) (isTest : Bool) : Pipeline → m Int
  | ⟨negated, commands⟩ => o.tested (isTest || negated) do
    let status ← match commands with
      | [only] => command streams only
      | commands => stages streams streams.stdin commands
    return if negated then (if status = 0 then 1 else 0) else status

def stages (streams : Streams) (input : Source) : List Command → m Int
  | [] => pure 0
  | [last] => o.copied (command { streams with stdin := input } last)
  | stage :: rest => do
    let written ← o.piped (command { streams with stdin := input, stdout := .capture } stage)
    stages streams (.bytes written) rest

def command (streams : Streams) : Command → m Int
  | .simple assigns words redirects => do
    let arguments ← fields words
    let assigned ← values assigns
    let redirected ← redirections streams redirects
    o.withStreams streams redirected (o.perform arguments assigned)
  | .subshell script redirects => do
    let redirected ← redirections streams redirects
    o.withStreams streams redirected fun streams => o.copied (list streams script)
  | .group script redirects => do
    let redirected ← redirections streams redirects
    o.withStreams streams redirected fun streams => list streams script

def redirections (streams : Streams) : List Redirect → m (Except (String × FileFault) Streams)
  | [] => pure (.ok streams)
  | ⟨fd, kind, target⟩ :: rest => do
    let target ← text target
    match ← o.redirect fd kind target streams with
    | .ok streams => redirections streams rest
    | .error fault => pure (.error fault)

def values : List Assign → m (List (String × String))
  | [] => pure []
  | ⟨name, value⟩ :: rest => do
    let value ← text value
    return (name, value) :: (← values rest)

def fields : List (List Part) → m (List String)
  | [] => pure []
  | word :: rest => do
    let found ← parts .empty word
    let arguments ← o.arguments found
    return arguments ++ (← fields rest)

def parts (found : Fields) : List Part → m Fields
  | [] => pure found
  | .literal text quoted :: rest => parts (found.push text quoted) rest
  | .param name fallback quoted :: rest => do
    let value ← parameter name fallback
    parts (found.pushValue value quoted) rest
  | .subst script quoted :: rest => do
    let value ← o.substituted fun streams => list streams script
    parts (found.pushValue value quoted) rest

def text : List Part → m String
  | [] => pure ""
  | .literal t _ :: rest => return t ++ (← text rest)
  | .param name fallback _ :: rest => do
    let value ← parameter name fallback
    return value ++ (← text rest)
  | .subst script _ :: rest => do
    let value ← o.substituted fun streams => list streams script
    return value ++ (← text rest)

def parameter (name : String) : Option (List Part) → m String
  | none => o.lookup name
  | some fallback => do
    let value ← o.lookup name
    if value.isEmpty then text fallback else pure value

end

end Interpreter

/-! ## Two kinds of operations -/

variable {m m' : Type → Type} [Monad m] [Monad m']

/-- A relation between doing something in one way and in another that goes through everything a run is
put together from. -/
structure Related (o : Operations m) (o' : Operations m') (R : {α : Type} → m α → m' α → Prop) : Prop where
  pure : ∀ {α : Type} (a : α), R (pure a : m α) (pure a : m' α)
  bind : ∀ {α β : Type} {x : m α} {x' : m' α} {f : α → m β} {f' : α → m' β}, R x x' → (∀ a, R (f a) (f' a)) →
    R (x >>= f) (x' >>= f')
  isOver : R o.isOver o'.isOver
  lastStatus : R o.lastStatus o'.lastStatus
  note : ∀ status, R (o.note status) (o'.note status)
  conclude : ∀ status counts, R (o.conclude status counts) (o'.conclude status counts)
  tested : ∀ isTest {x : m Int} {x' : m' Int}, R x x' → R (o.tested isTest x) (o'.tested isTest x')
  copied : ∀ {x : m Int} {x' : m' Int}, R x x' → R (o.copied x) (o'.copied x')
  piped : ∀ {x : m Int} {x' : m' Int}, R x x' → R (o.piped x) (o'.piped x')
  substituted : ∀ {x : Streams → m Int} {x' : Streams → m' Int}, (∀ streams, R (x streams) (x' streams)) →
    R (o.substituted x) (o'.substituted x')
  lookup : ∀ name, R (o.lookup name) (o'.lookup name)
  arguments : ∀ found, R (o.arguments found) (o'.arguments found)
  redirect : ∀ fd kind target streams, R (o.redirect fd kind target streams) (o'.redirect fd kind target streams)
  refuse : ∀ streams fault, R (o.refuse streams fault) (o'.refuse streams fault)
  perform : ∀ words assigned streams, R (o.perform words assigned streams) (o'.perform words assigned streams)

namespace Related

variable {o : Operations m} {o' : Operations m'} {R : {α : Type} → m α → m' α → Prop} (h : Related o o' R)
include h

theorem withStreams (outer : Streams) (streams : Except (String × FileFault) Streams) {act : Streams → m Int}
    {act' : Streams → m' Int} (hact : ∀ streams, R (act streams) (act' streams)) :
    R (o.withStreams outer streams act) (o'.withStreams outer streams act') := by
  cases streams with
  | ok streams => exact hact streams
  | error fault => exact h.refuse outer fault

mutual

theorem list (streams : Streams) : ∀ script : List Statement, R (o.list streams script) (o'.list streams script)
  | [] => by
    unfold Operations.list
    exact h.lastStatus
  | statement :: rest => by
    unfold Operations.list
    refine h.bind h.isOver fun stopped => ?_
    split
    · exact h.lastStatus
    · exact h.bind (andOr streams statement) fun status => h.bind (h.note status) fun _ => list streams rest

theorem andOr (streams : Streams) : ∀ s : Statement, R (o.andOr streams s) (o'.andOr streams s)
  | ⟨first, rest, _, _⟩ => by
    unfold Operations.andOr
    refine h.bind (guarded streams _ first) fun status => h.bind (links streams status _ rest) fun last => ?_
    exact h.conclude last.1 last.2

theorem links (streams : Streams) : ∀ (status : Int) (counts : Bool) (rest : List Link),
    R (o.links streams status counts rest) (o'.links streams status counts rest)
  | status, counts, [] => by
    unfold Operations.links
    exact h.pure (status, counts)
  | status, counts, ⟨connector, next⟩ :: rest => by
    unfold Operations.links
    have hrun := h.bind (guarded streams (!rest.isEmpty) next) fun status =>
      links streams status (rest.isEmpty && !next.negated) rest
    have hskip := links streams status false rest
    cases connector <;> dsimp only <;> split
    · exact hrun
    · exact hskip
    · exact hrun
    · exact hskip

theorem guarded (streams : Streams) : ∀ (isTest : Bool) (p : Pipeline),
    R (o.guarded streams isTest p) (o'.guarded streams isTest p)
  | isTest, ⟨negated, commands⟩ => by
    unfold Operations.guarded
    apply h.tested
    -- a command alone runs in the shell itself, so it is a case of its own
    match commands with
    | [] => exact h.bind (stages streams _ []) fun status => h.pure _
    | [only] => exact h.bind (command streams only) fun status => h.pure _
    | stage :: next :: rest => exact h.bind (stages streams _ (stage :: next :: rest)) fun status => h.pure _

theorem stages (streams : Streams) : ∀ (input : Source) (commands : List Command),
    R (o.stages streams input commands) (o'.stages streams input commands)
  | input, [] => by
    unfold Operations.stages
    exact h.pure 0
  | input, [last] => by
    unfold Operations.stages
    exact h.copied (command _ last)
  | input, stage :: next :: rest => by
    unfold Operations.stages
    exact h.bind (h.piped (command _ stage)) fun written => stages streams _ (next :: rest)

theorem command (streams : Streams) : ∀ command : Command, R (o.command streams command) (o'.command streams command)
  | .simple assigns words redirects => by
    unfold Operations.command
    refine h.bind (fields words) fun arguments => h.bind (values assigns) fun assigned => ?_
    exact h.bind (redirections streams redirects) fun redirected =>
      h.withStreams streams redirected fun streams => h.perform arguments assigned streams
  | .subshell script redirects => by
    unfold Operations.command
    exact h.bind (redirections streams redirects) fun redirected =>
      h.withStreams streams redirected fun streams => h.copied (list streams script)
  | .group script redirects => by
    unfold Operations.command
    exact h.bind (redirections streams redirects) fun redirected =>
      h.withStreams streams redirected fun streams => list streams script

theorem redirections (streams : Streams) : ∀ redirects : List Redirect,
    R (o.redirections streams redirects) (o'.redirections streams redirects)
  | [] => by
    unfold Operations.redirections
    exact h.pure _
  | ⟨fd, kind, target⟩ :: rest => by
    unfold Operations.redirections
    refine h.bind (text target) fun target => h.bind (h.redirect fd kind target streams) fun redirected => ?_
    cases redirected with
    | ok streams => exact redirections streams rest
    | error fault => exact h.pure _

theorem values : ∀ assigns : List Assign, R (o.values assigns) (o'.values assigns)
  | [] => by
    unfold Operations.values
    exact h.pure []
  | ⟨name, value⟩ :: rest => by
    unfold Operations.values
    exact h.bind (text value) fun value => h.bind (values rest) fun more => h.pure _

theorem fields : ∀ words : List (List Part), R (o.fields words) (o'.fields words)
  | [] => by
    unfold Operations.fields
    exact h.pure []
  | word :: rest => by
    unfold Operations.fields
    exact h.bind (parts _ word) fun found => h.bind (h.arguments found) fun arguments =>
      h.bind (fields rest) fun more => h.pure _

theorem parts : ∀ (found : Fields) (parts : List Part), R (o.parts found parts) (o'.parts found parts)
  | found, [] => by
    unfold Operations.parts
    exact h.pure found
  | found, .literal text quoted :: rest => by
    unfold Operations.parts
    exact parts _ rest
  | found, .param name fallback quoted :: rest => by
    unfold Operations.parts
    exact h.bind (parameter name fallback) fun value => parts _ rest
  | found, .subst script quoted :: rest => by
    unfold Operations.parts
    exact h.bind (h.substituted fun streams => list streams script) fun value => parts _ rest

theorem text : ∀ parts : List Part, R (o.text parts) (o'.text parts)
  | [] => by
    unfold Operations.text
    exact h.pure ""
  | .literal t _ :: rest => by
    unfold Operations.text
    exact h.bind (text rest) fun more => h.pure _
  | .param name fallback _ :: rest => by
    unfold Operations.text
    exact h.bind (parameter name fallback) fun value => h.bind (text rest) fun more => h.pure _
  | .subst script _ :: rest => by
    unfold Operations.text
    exact h.bind (h.substituted fun streams => list streams script) fun value =>
      h.bind (text rest) fun more => h.pure _

theorem parameter (name : String) : ∀ fallback : Option (List Part),
    R (o.parameter name fallback) (o'.parameter name fallback)
  | none => by
    unfold Operations.parameter
    exact h.lookup name
  | some fallback => by
    unfold Operations.parameter
    refine h.bind (h.lookup name) fun value => ?_
    split
    · exact text fallback
    · exact h.pure value

end

end Related

/-! ## The acts of a shell -/

/-- What the interpreter itself does to a shell. -/
def acts (h : Handlers) : Operations Act where
  isOver := do return (← Act.state).exited
  lastStatus := do return (← Act.state).lastStatus
  note status := Act.setState ({ · with lastStatus := status })
  conclude status counts := do
    if status ≠ 0 && counts && (← Act.state).failsOnError then throw (.exit status)
    return status
  tested := Act.tested
  copied := Act.isolated
  piped act := do
    let (_, written) ← Act.buffered (Act.isolated act)
    return written
  substituted := Act.substitution
  lookup name := do return ((← Act.state).parameter? name).getD ""
  arguments found := do
    let s ← Act.state
    return found.finish.flatMap (Field.arguments (← Act.files) s.directory)
  redirect := Act.redirect h
  refuse outer fault := do
    Act.writeText outer.stderr (fault.1 ++ ": " ++ fault.2.message ++ "\n")
    return 1
  perform := Act.perform h

variable (h : Handlers)

theorem withStreams_acts (outer : Streams) (streams : Except (String × FileFault) Streams) (act : Streams → Act Int) :
    Act.withStreams outer streams act = (acts h).withStreams outer streams act := by
  cases streams <;> rfl

end Operations

/-! ## The interpreter -/

namespace Run

open Operations

variable (h : Handlers)

mutual

theorem list_eq (streams : Streams) : ∀ script : List Statement, list h streams script = (acts h).list streams script
  | [] => by
    unfold list Operations.list
    rfl
  | statement :: rest => by
    -- what follows the statement stands under a binder, so it is rewritten first
    have hbody : (fun status => Act.setState ({ · with lastStatus := status }) >>= fun _ => list h streams rest) =
        fun status => (acts h).note status >>= fun _ => (acts h).list streams rest := by
      rw [list_eq streams rest]
      rfl
    unfold list Operations.list
    rw [hbody, andOr_eq streams statement]
    rfl

theorem andOr_eq (streams : Streams) : ∀ s : Statement, andOr h streams s = (acts h).andOr streams s
  | ⟨first, rest, _, _⟩ => by
    unfold andOr Operations.andOr
    rw [guarded_eq_acts streams _ first]
    simp only [links_eq]
    rfl

theorem links_eq (streams : Streams) : ∀ (status : Int) (counts : Bool) (rest : List Link),
    links h streams status counts rest = (acts h).links streams status counts rest
  | status, counts, [] => by
    unfold links Operations.links
    rfl
  | status, counts, ⟨connector, next⟩ :: rest => by
    unfold links Operations.links
    cases connector with
    | and => simp only [guarded_eq_acts, links_eq]
    | or => simp only [guarded_eq_acts, links_eq]

theorem guarded_eq_acts (streams : Streams) : ∀ (isTest : Bool) (p : Pipeline),
    guarded h streams isTest p = (acts h).guarded streams isTest p
  | isTest, ⟨negated, commands⟩ => by
    unfold guarded Operations.guarded
    match commands with
    | [] => simp only [stages_eq]; rfl
    | [only] => simp only [command_eq]; rfl
    | stage :: next :: rest => simp only [stages_eq]; rfl

theorem stages_eq (streams : Streams) : ∀ (input : Source) (commands : List Command),
    stages h streams input commands = (acts h).stages streams input commands
  | input, [] => by
    unfold stages Operations.stages
    rfl
  | input, [last] => by
    unfold stages Operations.stages
    rw [command_eq]
    rfl
  | input, stage :: next :: rest => by
    unfold stages Operations.stages
    simp only [command_eq, stages_eq]
    -- the status of the stage is dropped in the act that pipes it
    show _ = (Act.buffered _ >>= _) >>= _
    simp only [bind_assoc, pure_bind]

theorem command_eq (streams : Streams) : ∀ c : Command, command h streams c = (acts h).command streams c
  | .simple assigns words redirects => by
    unfold command Operations.command
    simp only [fields_eq, values_eq, redirections_eq, withStreams_acts h]
    rfl
  | .subshell script redirects => by
    unfold command Operations.command
    simp only [redirections_eq, list_eq, withStreams_acts h]
    rfl
  | .group script redirects => by
    unfold command Operations.command
    simp only [redirections_eq, list_eq, withStreams_acts h]

theorem redirections_eq (streams : Streams) : ∀ redirects : List Redirect,
    redirections h streams redirects = (acts h).redirections streams redirects
  | [] => by
    unfold redirections Operations.redirections
    rfl
  | ⟨fd, kind, target⟩ :: rest => by
    unfold redirections Operations.redirections
    simp only [text_eq, redirections_eq]
    rfl

theorem values_eq : ∀ assigns : List Assign, values h assigns = (acts h).values assigns
  | [] => by
    unfold values Operations.values
    rfl
  | ⟨name, value⟩ :: rest => by
    unfold values Operations.values
    simp only [text_eq, values_eq]

theorem fields_eq : ∀ words : List (List Part), fields h words = (acts h).fields words
  | [] => by
    unfold fields Operations.fields
    rfl
  | word :: rest => by
    unfold fields Operations.fields
    simp only [parts_eq, fields_eq]
    -- the state and the files are read in the act that makes the arguments
    show _ = _ >>= fun found => (Act.state >>= fun s => Act.files >>= fun files => pure _) >>= _
    simp only [bind_assoc, pure_bind]

theorem parts_eq : ∀ (found : Fields) (ps : List Part), parts h found ps = (acts h).parts found ps
  | found, [] => by
    unfold parts Operations.parts
    rfl
  | found, .literal text quoted :: rest => by
    unfold parts Operations.parts
    rw [parts_eq]
  | found, .param name fallback quoted :: rest => by
    unfold parts Operations.parts
    simp only [parameter_eq_acts, parts_eq]
  | found, .subst script quoted :: rest => by
    unfold parts Operations.parts
    simp only [list_eq, parts_eq]
    rfl

theorem text_eq : ∀ ps : List Part, text h ps = (acts h).text ps
  | [] => by
    unfold text Operations.text
    rfl
  | .literal t _ :: rest => by
    unfold text Operations.text
    rw [text_eq]
  | .param name fallback _ :: rest => by
    unfold text Operations.text
    simp only [parameter_eq_acts, text_eq]
  | .subst script _ :: rest => by
    unfold text Operations.text
    simp only [list_eq, text_eq]
    rfl

theorem parameter_eq_acts (name : String) : ∀ fallback : Option (List Part),
    parameter h name fallback = (acts h).parameter name fallback
  | none => by
    unfold parameter Operations.parameter
    rfl
  | some fallback => by
    unfold parameter Operations.parameter
    rw [text_eq]
    show _ = (Act.state >>= fun s => pure _) >>= _
    simp only [bind_assoc, pure_bind]

end

end Run
end Taskwork.Shell
