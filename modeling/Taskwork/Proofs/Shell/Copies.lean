/-
What runs on a copy of the shell. Whatever a subshell, a stage of a longer pipeline or a substitution
does, and however it ends, the shell that it is a copy of keeps its state but for the last status, and
what it has captured. The words of such a command are expanded in the shell itself, but all that an
expansion runs is run on copies again.
-/
import Taskwork.Proofs.Shell.Account

namespace Taskwork.Shell

/-- A world and one that comes of it: the state is the same but for the last status, and no captured
output is lost. -/
structure Untouched (w w' : World) : Prop where
  state : w'.state = { w.state with lastStatus := w'.state.lastStatus }
  captured : w.captured <+: w'.captured

theorem Untouched.refl (w : World) : Untouched w w := ⟨rfl, List.prefix_refl _⟩

theorem Untouched.trans {u v w : World} (huv : Untouched u v) (hvw : Untouched v w) : Untouched u w := by
  refine ⟨?_, huv.captured.trans hvw.captured⟩
  rw [hvw.state, huv.state]

/-- Doing something spares the shell, wherever it starts and whatever comes of it. -/
def Spares {α : Type} (act : Act α) : Prop := Stateful.Keeps Untouched act

namespace Spares

variable {α β : Type}

theorem bind {act : Act α} {f : α → Act β} (h : Spares act) (hf : ∀ a, Spares (f a)) : Spares (act >>= f) :=
  Stateful.Keeps.bind h hf fun _ _ _ => Untouched.trans

theorem pure (a : α) : Spares (Pure.pure a : Act α) := fun w => .refl w

theorem state : Spares Act.state := fun w => .refl w

theorem of_unchanged {act : Act α} (hplain : Says act) (hgoes : Goes act) : Spares act := by
  intro w
  have hstate := (hplain w).2
  exact ⟨by rw [hstate], (hgoes w).captured⟩

theorem calm : Calm Spares where
  pure := pure
  bind := bind
  state := state
  files := of_unchanged .files .files
  write sink bytes := of_unchanged (.write sink bytes) (.write sink bytes)
  openFile h path mode := of_unchanged (.openFile h path mode) (.openFile h path mode)

theorem tested (isTest : Bool) {act : Act Int} (h : Spares act) : Spares (Act.tested isTest act) := by
  intro w
  cases isTest with
  | false => exact h w
  | true =>
    obtain ⟨hstate, hcaptured⟩ := h { w with state := { w.state with tests := w.state.tests + 1 } }
    -- the test is counted before and taken back after
    have hfewer := congrArg (fun s : State => { s with tests := s.tests - 1 }) hstate
    exact ⟨hfewer, hcaptured⟩

/-- A copy has a state of its own; what it writes for capture is added to what was captured. -/
theorem isolated {act : Act Int} (h : Goes act) : Spares (Act.isolated act) := by
  intro w
  have hcaptured := (h w).captured
  unfold Act.isolated
  rcases hact : act w with ⟨(status | f) | status, w'⟩ <;> rw [hact] at hcaptured
  · exact ⟨rfl, hcaptured⟩
  · exact ⟨rfl, hcaptured⟩
  · exact ⟨rfl, hcaptured⟩

theorem buffered {act : Act Int} (h : Spares act) (w : World) :
    Untouched w (Act.buffered act w).2 ∧ (Act.buffered act w).2.captured = w.captured := by
  have hstate := (h { w with captured := [] }).state
  unfold Act.buffered
  rcases hact : act { w with captured := [] } with ⟨e | status, w'⟩ <;> rw [hact] at hstate
  · exact ⟨⟨hstate, List.prefix_refl _⟩, rfl⟩
  · exact ⟨⟨hstate, List.prefix_refl _⟩, rfl⟩

/-- A substitution has a buffer of its own too. -/
theorem substitution {run : Streams → Act Int} (hrun : ∀ streams, Goes (run streams)) (w : World) :
    Untouched w (Act.substitution run w).2 ∧ (Act.substitution run w).2.captured = w.captured := by
  have hcopy : Spares (Act.isolated do
      Act.setState ({ · with exited := false })
      run ⟨.null, .capture, w.state.streams.stderr⟩) := isolated (.bind (.setState (.exited false)) fun _ => hrun _)
  have hbuffered := buffered hcopy w
  unfold Act.substitution
  rw [Stateful.bind_ok (show Act.state w = (.ok w.state, w) from rfl), Stateful.bind_apply]
  split
  · rename_i hrun
    rw [hrun] at hbuffered
    exact hbuffered
  · rename_i hrun
    rw [hrun] at hbuffered
    exact hbuffered

end Spares

variable (h : Handlers)

/-! ## Expansion -/

mutual

theorem spares_text : ∀ parts : List Part, Spares (Run.text h parts)
  | [] => by
    unfold Run.text
    exact .pure ""
  | .literal t _ :: rest => by
    unfold Run.text
    exact .bind (spares_text rest) fun _ => .pure _
  | .param name fallback _ :: rest => by
    unfold Run.text
    exact .bind (spares_parameter name fallback) fun _ => .bind (spares_text rest) fun _ => .pure _
  | .subst script _ :: rest => by
    unfold Run.text
    refine .bind (fun w => ?_) fun _ => .bind (spares_text rest) fun _ => .pure _
    exact (Spares.substitution (fun streams => goes_list h streams script) w).1

theorem spares_parameter (name : String) : ∀ fallback : Option (List Part), Spares (Run.parameter h name fallback)
  | none => by
    unfold Run.parameter
    exact .bind .state fun _ => .pure _
  | some fallback => by
    unfold Run.parameter
    refine .bind .state fun s => ?_
    dsimp only
    split
    · exact spares_text fallback
    · exact .pure _

end

theorem spares_redirections : ∀ (redirects : List Redirect) (streams : Streams),
    Spares (Run.redirections h streams redirects)
  | [], streams => by
    unfold Run.redirections
    exact .pure _
  | ⟨fd, kind, target⟩ :: rest, streams => by
    unfold Run.redirections
    refine .bind (spares_text h target) fun path => ?_
    refine .bind (Spares.calm.redirect h fd kind path streams) fun redirected => ?_
    cases redirected with
    | ok streams => exact spares_redirections rest streams
    | error e => exact .pure _

/-! ## Copies -/

theorem spares_subshell (streams : Streams) (script : Script) (redirects : List Redirect) :
    Spares (Run.command h streams (.subshell script redirects)) := by
  unfold Run.command
  refine .bind (spares_redirections h redirects streams) fun redirected => ?_
  exact Spares.calm.withStreams streams redirected fun streams => .isolated (goes_list h streams script)

theorem spares_stages (streams : Streams) : ∀ (commands : List Command) (input : Source),
    Spares (Run.stages h streams input commands)
  | [], input => by
    unfold Run.stages
    exact .pure 0
  | [last], input => by
    unfold Run.stages
    exact .isolated (goes_command h _ last)
  | stage :: next :: rest, input => by
    unfold Run.stages
    -- every stage but the last writes to a buffer, and is a copy as well
    refine .bind (fun w => ?_) fun written => spares_stages streams (next :: rest) _
    exact (Spares.buffered (.isolated (goes_command h _ stage)) w).1

/-- Copies leave the shell alone, whatever they do and whatever comes of it: a subshell with its
redirections, a pipeline of two commands or more, be it a test or not, and a substitution, which captures
nothing for the shell either. -/
theorem copies_spare (w : World) :
    (∀ streams script redirects, Untouched w (Run.command h streams (.subshell script redirects) w).2) ∧
    (∀ streams isTest negated first second rest,
      Untouched w (Run.guarded h streams isTest ⟨negated, first :: second :: rest⟩ w).2) ∧
    ∀ script, Untouched w (Act.substitution (fun streams => Run.list h streams script) w).2 ∧
      (Act.substitution (fun streams => Run.list h streams script) w).2.captured = w.captured := by
  refine ⟨fun streams script redirects => spares_subshell h streams script redirects w, ?_, ?_⟩
  · intro streams isTest negated first second rest
    have hpipeline : Spares (Run.guarded h streams isTest ⟨negated, first :: second :: rest⟩) := by
      unfold Run.guarded
      refine .tested _ (.bind ?_ fun status => .pure _)
      exact spares_stages h streams (first :: second :: rest) streams.stdin
    exact hpipeline w
  · intro script
    exact Spares.substitution (fun streams => goes_list h streams script) w

end Taskwork.Shell
