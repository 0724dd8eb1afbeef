/-
The books that the interpreter keeps from one statement to the next: whether failures end the script,
how many tests are being made, the streams the script started with and what has been captured. A
statement leaves them in order however it ends. What it writes is put behind what was captured before,
and nothing that it does depends on that.
-/
import Taskwork.Proofs.Shell.Diagnostics
import Taskwork.Proofs.Shell.Grouping

namespace Taskwork.Shell

/-! ## What was captured before -/

/-- The world in which some bytes were captured before all others. -/
def World.behind (before : Bytes) (w : World) : World := { w with captured := before ++ w.captured }

/-- Doing something comes to the same whatever was captured before, and leaves that where it is. -/
def Framed {α : Type} (act : Act α) : Prop :=
  ∀ before w, act (w.behind before) = ((act w).1, (act w).2.behind before)

namespace Framed

variable {α β : Type}

theorem pure (a : α) : Framed (Pure.pure a : Act α) := fun _ _ => rfl

theorem throw (e : Stop) : Framed (MonadExcept.throw e : Act α) := fun _ _ => rfl

theorem bind {act : Act α} {f : α → Act β} (h : Framed act) (hf : ∀ a, Framed (f a)) : Framed (act >>= f) := by
  intro before w
  rw [Stateful.bind_apply, Stateful.bind_apply, h before w]
  rcases act w with ⟨_ | a, v⟩
  · rfl
  · exact hf a before v

theorem state : Framed Act.state := fun _ _ => rfl

theorem files : Framed Act.files := fun _ _ => rfl

theorem setState (f : State → State) : Framed (Act.setState f) := fun _ _ => rfl

theorem isolated {act : Act Int} (h : Framed act) : Framed (Act.isolated act) := by
  intro before w
  unfold Act.isolated
  rw [h before w]
  rcases act w with ⟨e | status, v⟩
  · cases e <;> rfl
  · rfl

theorem tested (isTest : Bool) {act : Act Int} (h : Framed act) : Framed (Act.tested isTest act) := by
  intro before w
  unfold Act.tested
  cases isTest with
  | false => exact h before w
  | true =>
    let less (v : World) : World := { v with state := { v.state with tests := v.state.tests - 1 } }
    have hinside := h before { w with state := { w.state with tests := w.state.tests + 1 } }
    exact congrArg (fun x => (x.1, less x.2)) hinside

/-- What is done with a buffer of its own does not come near the one outside. -/
theorem buffered (act : Act Int) : Framed (Act.buffered act) := by
  intro before w
  show Act.buffered act { w with captured := before ++ w.captured } = _
  unfold Act.buffered
  dsimp only
  rcases act { w with captured := [] } with ⟨_ | status, v⟩ <;> rfl

theorem write (sink : Sink) (bytes : Bytes) : Framed (Act.write sink bytes) := by
  intro before w
  unfold Act.write
  split
  · rfl
  · cases sink with
    | capture => exact congrArg (fun captured => (Except.ok (), { w with captured })) (List.append_assoc before _ _)
    | stdout => rfl
    | stderr => rfl
    | null => rfl
    | file handle => rfl

variable (h : Handlers)

theorem openFile (path : String) (mode : OpenMode) : Framed (Act.openFile h path mode) := fun _ _ => rfl

theorem call (words : List String) (assigned : List (String × String)) (streams : Streams) :
    Framed (Act.call h words assigned streams) := by
  intro before w
  rcases hexec : h.exec ⟨w.state.directory, assigned.foldl (fun env row => env.insert row.1 row.2)
    w.state.exported, words, Pairing.wiring streams⟩ w.host with ⟨host, result⟩
  have hframed : Framed (Pairing.afterProgram streams result) := by
    cases result with
    | error f => exact throw _
    | ok outcome => exact bind (write _ _) fun _ => bind (write _ _) fun _ => pure _
  have hcall : Act.call h words assigned streams (w.behind before) =
      Pairing.afterProgram streams result { w.behind before with host } := Pairing.InStep.call_apply hexec
  rw [hcall, Pairing.InStep.call_apply hexec]
  exact hframed before { w with host }

theorem substitution {run : Streams → Act Int} : Framed (Act.substitution run) :=
  bind state fun _ => bind (buffered _) fun _ => pure _

theorem thorough : Thorough Framed where
  pure := pure
  bind := bind
  state := state
  files := files
  write := write
  openFile := openFile
  throw := throw
  exited := setState _
  enter _ := setState _
  set _ _ := setState _
  publish _ _ := setState _
  unset _ := setState _
  call := call

end Framed

variable (h : Handlers)

theorem framed : (Operations.acts h).Related (Operations.acts h) fun x _ => Framed x where
  pure := .pure
  bind hx hf := .bind hx hf
  isOver := .bind .state fun s => .pure s.exited
  lastStatus := .bind .state fun s => .pure s.lastStatus
  note status := .setState ({ · with lastStatus := status })
  conclude status counts := by
    refine .bind .state fun s => ?_
    split
    · exact .throw _
    · exact .pure _
  tested isTest _ _ hx := .tested isTest hx
  copied hx := .isolated hx
  piped _ := .bind (.buffered _) fun _ => .pure _
  substituted _ := .substitution
  lookup _ := .bind .state fun _ => .pure _
  arguments _ := .bind .state fun _ => .bind .files fun _ => .pure _
  redirect := Framed.thorough.redirect h
  refuse _ _ := .bind (.write _ _) fun _ => .pure 1
  perform := Framed.thorough.perform h

theorem framed_andOr (streams : Streams) (s : Statement) : Framed (Run.andOr h streams s) := by
  rw [Run.andOr_eq]
  exact (framed h).andOr streams s

/-! ## The end of a statement -/

theorem ended_behind (before : Bytes) (result : Except Stop Int) (w : World) :
    ended (result, w.behind before) = ((ended (result, w)).1, (ended (result, w)).2.behind before) := by
  unfold ended World.behind
  rcases result with ⟨status | f⟩ | status
  · dsimp only
    split <;> rfl
  · rfl
  · rfl

theorem framed_statement (s : Statement) : Framed (Run.statement h s) := by
  intro before w
  cases hexited : w.state.exited with
  | true =>
    unfold Run.statement
    rw [if_pos hexited, if_pos (show (w.behind before).state.exited = true from hexited)]
  | false =>
    have hlist : Run.andOr h (w.behind before).state.streams s (w.behind before) = _ :=
      framed_andOr h w.state.streams s before w
    have hgoes : (w.behind before).state.exited = false := hexited
    rw [statement_eq_ended h hgoes, statement_eq_ended h hexited, hlist]
    exact ended_behind before _ _

theorem onward_ended (x : Except Stop Int × World) : Onward x.2 (ended x).2 := by
  unfold ended
  rcases x with ⟨⟨status | f⟩ | status, w⟩
  · dsimp only
    split <;> exact ⟨rfl, rfl, rfl, List.prefix_refl _⟩
  · exact .refl w
  · exact ⟨rfl, rfl, rfl, List.prefix_refl _⟩

theorem captured_ended (x : Except Stop Int × World) : (ended x).2.captured = x.2.captured := by
  unfold ended
  rcases x with ⟨⟨status | f⟩ | status, w⟩
  · dsimp only
    split <;> rfl
  · rfl
  · rfl

theorem goes_statement (s : Statement) : Goes (Run.statement h s) := by
  intro w
  cases hexited : w.state.exited with
  | true =>
    unfold Run.statement
    rw [if_pos hexited]
    exact .refl w
  | false =>
    rw [statement_eq_ended h hexited]
    exact (goes_andOr h w.state.streams s w).trans (onward_ended _)

/-! ## Watching a statement -/

/-- The streams a script started with, none of them marked. -/
def State.ports (s : State) : Ports := ⟨s.streams.stdin, ⟨s.streams.stdout, false⟩, ⟨s.streams.stderr, false⟩⟩

/-- Runs one statement and watches what is delivered. -/
def Watched.statement (s : Statement) : Watched Unit := fun (w, watch) =>
  if w.state.exited then (.ok (), (w, watch))
  else
    let (result, (w, watch)) := Watched.andOr h w.state.ports s (w, watch)
    let (result, w) := ended (result, w)
    (result, (w, watch))

theorem tracks_statement (s : Statement) (w : World) :
    ∃ ds, Watched.statement h s (w, ⟨0, []⟩) =
        ((Run.statement h s w).1, ((Run.statement h s w).2, ⟨0, ds⟩)) ∧
      (Run.statement h s w).2.captured = w.captured ++ bytesTo (.buffer 0) ds := by
  cases hexited : w.state.exited with
  | true =>
    refine ⟨[], ?_, ?_⟩
    · unfold Watched.statement Run.statement
      dsimp only
      rw [if_pos hexited, if_pos hexited]
    · unfold Run.statement
      rw [if_pos hexited]
      exact (List.append_nil _).symm
  | false =>
    have hports : w.state.ports.Given w.state.streams.stderr :=
      ⟨Port.given_unmarked _ _, Port.given_unmarked _ _⟩
    obtain ⟨ds, halike, hworld, hcaptured, -⟩ := tracks_andOr h hports s w ⟨0, []⟩
    rw [show w.state.ports.streams = w.state.streams from rfl] at halike hworld hcaptured
    refine ⟨ds, ?_, ?_⟩
    · unfold Watched.statement
      dsimp only
      rw [statement_eq_ended h hexited, hexited, if_neg Bool.false_ne_true]
      rcases hwatched : Watched.andOr h w.state.ports s (w, ⟨0, []⟩) with ⟨result, v, watch⟩
      rw [hwatched] at halike hworld
      obtain ⟨rfl, rfl⟩ := Prod.mk.inj hworld
      have hresult : result = (Run.andOr h w.state.streams s w).1 := halike.eq
      rw [hresult]
      rfl
    · rw [statement_eq_ended h hexited, captured_ended]
      exact hcaptured

/-- What was captured before a statement does not matter to it. -/
theorem statement_captured (s : Statement) (w : World) :
    ∃ result, ∃ v : World, ∀ captured, Run.statement h s { w with captured } = (result, v.behind captured) := by
  let fresh : World := { w with captured := [] }
  refine ⟨(Run.statement h s fresh).1, (Run.statement h s fresh).2, fun captured => ?_⟩
  have hbehind : fresh.behind captured = { w with captured } := by
    unfold World.behind
    rw [List.append_nil]
  rw [← hbehind]
  exact framed_statement h s captured fresh

/-- However a statement ends, what it leaves has the settings and the streams of before, and its output
stands behind what was captured before: that is all it wrote to the buffer of the interpreter. Another
beginning of the captured output changes nothing of this. The handlers are no part of what a statement
works on. -/
theorem statement_keeps_books (s : Statement) (w : World) :
    ∃ result v ds, Run.statement h s w = (result, v) ∧
      Watched.statement h s (w, ⟨0, []⟩) = (result, (v, ⟨0, ds⟩)) ∧
      v.state.errexit = w.state.errexit ∧ v.state.tests = w.state.tests ∧
      v.state.streams = w.state.streams ∧ v.captured = w.captured ++ bytesTo (.buffer 0) ds ∧
      ∀ captured, Run.statement h s { w with captured } =
        (result, { v with captured := captured ++ bytesTo (.buffer 0) ds }) := by
  obtain ⟨ds, hwatched, hcaptured⟩ := tracks_statement h s w
  obtain ⟨result, fresh, hrun⟩ := statement_captured h s w
  have honward := goes_statement h s w
  rw [hrun w.captured] at hwatched hcaptured honward
  have hwritten : fresh.captured = bytesTo (.buffer 0) ds := List.append_cancel_left hcaptured
  refine ⟨result, _, ds, hrun w.captured, hwatched, honward.errexit, honward.tests, honward.streams, hcaptured, ?_⟩
  intro captured
  rw [hrun captured, ← hwritten]
  rfl

end Taskwork.Shell
