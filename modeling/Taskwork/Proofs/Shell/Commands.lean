/-
Properties that acts of a shell share with what is put together from them. What acts have that look,
write and open files, redirections and tests have too (`Calm`); what acts have that change the state or
call a program, all commands have (`Thorough`).
-/
import Taskwork.Proofs.Stateful
import Taskwork.Shell.Interpreter

namespace Taskwork.Shell

/-- A copy of a descriptor that is no output changes nothing. -/
theorem Act.redirect_other (h : Handlers) (fd : Nat) {target : String} (streams : Streams)
    (hone : target ≠ "1") (htwo : target ≠ "2") :
    Act.redirect h fd .duplicate target streams = pure (.ok streams) := by
  unfold Act.redirect
  dsimp only
  split
  · exact absurd rfl hone
  · exact absurd rfl htwo
  · rfl

/-- A property that goes from one act after another to both together, and that acts have which leave the
state as it is. -/
structure Calm (P : {α : Type} → Act α → Prop) : Prop where
  pure : ∀ {α : Type} (a : α), P (pure a : Act α)
  bind : ∀ {α β : Type} {act : Act α} {f : α → Act β}, P act → (∀ a, P (f a)) → P (act >>= f)
  state : P Act.state
  files : P Act.files
  write : ∀ sink bytes, P (Act.write sink bytes)
  openFile : ∀ h path mode, P (Act.openFile h path mode)

/-- A property that acts have as well which change the state, stop the script or call a program. -/
structure Thorough (P : {α : Type} → Act α → Prop) : Prop extends Calm P where
  throw : ∀ {α : Type} (e : Stop), P (throw e : Act α)
  exited : P (Act.setState ({ · with exited := true }))
  enter : ∀ directory, P (Act.setState (·.enter directory))
  set : ∀ name value, P (Act.setState (·.set name value))
  publish : ∀ name value, P (Act.setState (·.publish name value))
  unset : ∀ name, P (Act.setState (·.unset name))
  call : ∀ h words assigned streams, P (Act.call h words assigned streams)

variable {P : {α : Type} → Act α → Prop}

namespace Calm

variable (hP : Calm P)
include hP

theorem writeText (sink : Sink) (text : String) : P (Act.writeText sink text) := hP.write sink _

theorem fail (name message : String) (streams : Streams) (status : Int) :
    P (Builtin.fail name message streams status) := hP.bind (hP.writeText _ _) fun _ => hP.pure status

theorem redirect (h : Handlers) (fd : Nat) (kind : RedirectKind) (target : String) (streams : Streams) :
    P (Act.redirect h fd kind target streams) := by
  unfold Act.redirect
  cases kind with
  | read => exact hP.bind (hP.openFile h target .read) fun _ => hP.pure _
  | write => exact hP.bind (hP.openFile h target .write) fun _ => hP.pure _
  | append => exact hP.bind (hP.openFile h target .append) fun _ => hP.pure _
  | duplicate =>
    dsimp only
    split <;> exact hP.pure _
  | writeBoth => exact hP.bind (hP.openFile h target .write) fun _ => hP.pure _

theorem withStreams (outer : Streams) (streams : Except (String × FileFault) Streams) {act : Streams → Act Int}
    (hact : ∀ streams, P (act streams)) : P (Act.withStreams outer streams act) := by
  cases streams with
  | ok streams => exact hact streams
  | error fault => exact hP.bind (hP.writeText _ _) fun _ => hP.pure 1

theorem pwd (streams : Streams) : P (Builtin.pwd streams) :=
  hP.bind hP.state fun _ => hP.bind (hP.writeText _ _) fun _ => hP.pure 0

theorem echo (args : List String) (streams : Streams) : P (Builtin.echo args streams) :=
  hP.bind (hP.writeText _ _) fun _ => hP.pure 0

theorem test (args : List String) (streams : Streams) : P (Builtin.test args streams) := by
  refine hP.bind hP.files fun _ => hP.bind hP.state fun _ => ?_
  split
  · exact hP.pure 0
  · exact hP.pure 1
  · exact hP.fail _ _ _ _

theorem bracket (args : List String) (streams : Streams) : P (Builtin.bracket args streams) := by
  unfold Builtin.bracket
  split
  · exact hP.test _ streams
  · exact hP.fail _ _ _ _

end Calm

namespace Thorough

variable (hP : Thorough P)
include hP

/-- Changing the state several times at once is changing it once after another. -/
theorem setState_foldl {γ : Type} {f : State → γ → State} (hf : ∀ a, P (Act.setState (f · a))) (l : List γ) :
    P (Act.setState fun s => l.foldl f s) := by
  induction l with
  | nil => exact hP.pure ()
  | cons a l ih =>
    have hsplit : (Act.setState fun s => (a :: l).foldl f s) =
        Act.setState (f · a) >>= fun _ => Act.setState fun s => l.foldl f s := rfl
    rw [hsplit]
    exact hP.bind (hf a) fun _ => ih

theorem cd (args : List String) (streams : Streams) : P (Builtin.cd args streams) := by
  unfold Builtin.cd
  refine hP.bind hP.state fun _ => ?_
  split
  · exact hP.fail _ _ _ _
  · refine hP.bind hP.files fun _ => ?_
    split
    · exact hP.bind (hP.enter _) fun _ => hP.pure 0
    · exact hP.fail _ _ _ _

theorem exit (args : List String) (streams : Streams) : P (Builtin.exit args streams) := by
  have hend (status : Int) : P (Act.setState ({ · with exited := true }) >>= fun _ =>
      MonadExcept.throw (.exit status) : Act Int) := hP.bind hP.exited fun _ => hP.throw _
  unfold Builtin.exit
  cases args with
  | nil => exact hP.bind hP.state fun _ => hend _
  | cons arg _ =>
    dsimp only
    split
    · exact hend _
    · exact hP.bind (hP.fail _ _ _ _) hend

theorem export_ (args : List String) : P (Builtin.export_ args) := by
  refine hP.bind (hP.setState_foldl (fun arg => ?_) args) fun _ => hP.pure 0
  split <;> exact hP.publish _ _

theorem unsetCommand (args : List String) : P (Builtin.unset args) :=
  hP.bind (hP.setState_foldl hP.unset args) fun _ => hP.pure 0

theorem builtin {name : String} {run : List String → Streams → Act Int} (hrun : Builtin.builtin? name = some run)
    (args : List String) (streams : Streams) : P (run args streams) := by
  unfold Builtin.builtin? at hrun
  split at hrun <;> cases hrun
  · exact hP.cd args streams
  · exact hP.pwd streams
  · exact hP.echo args streams
  · exact hP.pure 0
  · exact hP.pure 0
  · exact hP.pure 1
  · exact hP.exit args streams
  · exact hP.export_ args
  · exact hP.unsetCommand args
  · exact hP.test args streams
  · exact hP.bracket args streams

theorem perform (h : Handlers) (words : List String) (assigned : List (String × String)) (streams : Streams) :
    P (Act.perform h words assigned streams) := by
  unfold Act.perform
  cases words with
  | nil => exact hP.bind (hP.setState_foldl (fun row => hP.set row.1 row.2) assigned) fun _ => hP.pure 0
  | cons name args =>
    dsimp only
    split
    · rename_i run hrun
      exact hP.builtin hrun args streams
    · exact hP.call h _ assigned streams

end Thorough
end Taskwork.Shell
