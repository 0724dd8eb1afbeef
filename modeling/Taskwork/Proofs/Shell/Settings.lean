/-
What running something leaves as it was, whatever comes of it: whether failures end the script, how
many tests are being made and the streams the script started with. What has been captured is added
to and not lost.
-/
import Taskwork.Proofs.Shell.Commands
import Taskwork.Proofs.Shell.Operations
import Taskwork.Proofs.Shell.Pairing

namespace Taskwork.Shell

/-- A world and one that comes of it: the settings are the same, and no captured output is lost. -/
structure Onward (w w' : World) : Prop where
  errexit : w'.state.errexit = w.state.errexit
  tests : w'.state.tests = w.state.tests
  streams : w'.state.streams = w.state.streams
  captured : w.captured <+: w'.captured

namespace Onward

theorem refl (w : World) : Onward w w := ⟨rfl, rfl, rfl, List.prefix_refl _⟩

theorem trans {u v w : World} (huv : Onward u v) (hvw : Onward v w) : Onward u w :=
  ⟨hvw.errexit.trans huv.errexit, hvw.tests.trans huv.tests, hvw.streams.trans huv.streams,
    huv.captured.trans hvw.captured⟩

theorem failsOnError {w w' : World} (h : Onward w w') : w'.state.failsOnError = w.state.failsOnError := by
  unfold State.failsOnError
  rw [h.errexit, h.tests]

end Onward

/-- Doing something goes onward, wherever it starts. -/
def Goes {α : Type} (act : Act α) : Prop := Stateful.Keeps Onward act

namespace Goes

variable {α β : Type}

theorem pure (a : α) : Goes (Pure.pure a : Act α) := fun w => .refl w

theorem throw (e : Stop) : Goes (MonadExcept.throw e : Act α) := fun w => .refl w

theorem bind {act : Act α} {f : α → Act β} (h : Goes act) (hf : ∀ a, Goes (f a)) : Goes (act >>= f) :=
  Stateful.Keeps.bind h hf fun _ _ _ => Onward.trans

theorem state : Goes Act.state := fun w => .refl w

theorem files : Goes Act.files := fun w => .refl w

theorem setState {f : State → State} (hf : Pairing.Plain f) : Goes (Act.setState f) := by
  intro w
  have hself : f w.state = { f w.state with errexit := w.state.errexit } := hf.errexit _ w.state.errexit
  have herrexit : (f w.state).errexit = w.state.errexit := by rw [hself]
  exact ⟨herrexit, hf.tests _, hf.streams _, List.prefix_refl _⟩

/-- What is done on a copy of the state leaves the settings alone, and may be captured. -/
theorem isolated {act : Act Int} (h : Goes act) : Goes (Act.isolated act) := by
  intro w
  have hw := h w
  unfold Act.isolated
  rcases hact : act w with ⟨_ | status, w'⟩ <;> rw [hact] at hw
  · rename_i e
    cases e <;> exact ⟨rfl, rfl, rfl, hw.captured⟩
  · exact ⟨rfl, rfl, rfl, hw.captured⟩

theorem tested (isTest : Bool) {act : Act Int} (h : Goes act) : Goes (Act.tested isTest act) := by
  intro w
  unfold Act.tested
  cases isTest with
  | false => exact h w
  | true =>
    have hw := h { w with state := { w.state with tests := w.state.tests + 1 } }
    exact ⟨hw.errexit, congrArg (· - 1) hw.tests, hw.streams, hw.captured⟩

theorem buffered {act : Act Int} (h : Goes act) : Goes (Act.buffered act) := by
  intro w
  have hw := h { w with captured := [] }
  unfold Act.buffered
  rcases hact : act { w with captured := [] } with ⟨_ | status, w'⟩ <;> rw [hact] at hw <;>
    exact ⟨hw.errexit, hw.tests, hw.streams, List.prefix_refl _⟩

theorem write (sink : Sink) (bytes : Bytes) : Goes (Act.write sink bytes) := by
  unfold Act.write
  split
  · exact pure ()
  · cases sink with
    | capture => exact fun w => ⟨rfl, rfl, rfl, List.prefix_append _ _⟩
    | stdout => exact fun w => ⟨rfl, rfl, rfl, List.prefix_refl _⟩
    | stderr => exact fun w => ⟨rfl, rfl, rfl, List.prefix_refl _⟩
    | null => exact fun w => .refl w
    | file k => exact fun w => ⟨rfl, rfl, rfl, List.prefix_refl _⟩

variable (h : Handlers)

theorem openFile (path : String) (mode : OpenMode) : Goes (Act.openFile h path mode) :=
  fun _ => ⟨rfl, rfl, rfl, List.prefix_refl _⟩

theorem substitution {run : Streams → Act Int} (hrun : ∀ streams, Goes (run streams)) :
    Goes (Act.substitution run) :=
  bind state fun _ => bind (buffered (isolated (bind (setState (.exited false)) fun _ => hrun _))) fun _ => pure _

theorem afterProgram (streams : Streams) (result : Except Program.Failure Program.Outcome) :
    Goes (Pairing.afterProgram streams result) := by
  cases result with
  | error f => exact throw _
  | ok outcome => exact bind (write _ _) fun _ => bind (write _ _) fun _ => pure _

theorem call (words : List String) (assigned : List (String × String)) (streams : Streams) :
    Goes (Act.call h words assigned streams) := by
  intro w
  rcases hexec : h.exec ⟨w.state.directory, assigned.foldl (fun env row => env.insert row.1 row.2)
    w.state.exported, words, Pairing.wiring streams⟩ w.host with ⟨host, result⟩
  rw [Pairing.InStep.call_apply hexec]
  have hrest := afterProgram streams result { w with host }
  exact ⟨hrest.errexit, hrest.tests, hrest.streams, hrest.captured⟩

theorem thorough : Thorough Goes where
  pure := pure
  bind := bind
  state := state
  files := files
  write := write
  openFile := openFile
  throw := throw
  exited := setState (.exited true)
  enter directory := setState (.enter directory)
  set name value := setState (.set name value)
  publish name value := setState (.publish name value)
  unset name := setState (.unset name)
  call := call

end Goes

/-! ## Every part of a script -/

variable (h : Handlers)

theorem goes : (Operations.acts h).Related (Operations.acts h) fun x _ => Goes x where
  pure := .pure
  bind hx hf := .bind hx hf
  isOver := .bind .state fun s => .pure s.exited
  lastStatus := .bind .state fun s => .pure s.lastStatus
  note status := .setState (.noted status)
  conclude status counts := by
    refine .bind .state fun s => ?_
    split
    · exact .throw _
    · exact .pure _
  tested isTest _ _ hx := .tested isTest hx
  copied hx := .isolated hx
  piped hx := .bind (.buffered (.isolated hx)) fun _ => .pure _
  substituted hrun := .substitution hrun
  lookup _ := .bind .state fun _ => .pure _
  arguments found := .bind .state fun _ => .bind .files fun _ => .pure _
  redirect := Goes.thorough.redirect h
  refuse _ _ := .bind (.write _ _) fun _ => .pure 1
  perform := Goes.thorough.perform h

theorem goes_list (streams : Streams) (script : Script) : Goes (Run.list h streams script) := by
  rw [Run.list_eq]
  exact (goes h).list streams script

theorem goes_andOr (streams : Streams) (s : Statement) : Goes (Run.andOr h streams s) := by
  rw [Run.andOr_eq]
  exact (goes h).andOr streams s

theorem goes_command (streams : Streams) (command : Command) : Goes (Run.command h streams command) := by
  rw [Run.command_eq]
  exact (goes h).command streams command

end Taskwork.Shell
