/-
Tests. Whatever runs within a pipeline whose status is tested, be it in a group, in a copy of the
shell or in a substitution, runs as in a shell that does not end at a failure.
-/
import Taskwork.Proofs.Shell.Pairing
import Taskwork.Proofs.Shell.Status

namespace Taskwork.Shell

/-- The same world, in which a failing statement ends the script or does not. -/
def World.withErrexit (w : World) (errexit : Bool) : World := { w with state := { w.state with errexit } }

/-- Shells that differ in nothing but whether failures end the script. -/
def twins (errexit errexit' : Bool) : Pairing := ⟨Eq, Eq, fun _ => True, fun _ => False, errexit, errexit'⟩

namespace twins

variable {errexit errexit' : Bool} (h : Handlers)

theorem kept : (twins errexit errexit').Kept h h where
  tree := by
    rintro H _ rfl
    exact .refl _
  printOut := by
    rintro H _ bytes rfl
    rfl
  printErr := by
    rintro H _ bytes rfl
    rfl
  writeTo := by
    rintro H _ k bytes - rfl
    rfl
  null := rfl
  bytes _ := rfl
  capture := trivial
  openFile := by
    rintro H _ directory path mode rfl
    exact ⟨rfl, rfl, fun _ _ => ⟨rfl, trivial⟩⟩
  exec := by
    rintro H _ streams streams' directory env words rfl ⟨hstdin, hstdout, hstderr, -, -⟩
    refine .inr ?_
    unfold Pairing.wiring
    rw [show streams.stdin = streams'.stdin from hstdin, hstdout, hstderr]
    exact ⟨rfl, rfl⟩

theorem wired (streams : Streams) : (twins errexit errexit').Wired streams streams :=
  ⟨rfl, rfl, rfl, trivial, trivial⟩

/-- Within a test two such shells do the same. -/
theorem same {act act' : Act Int} {w : World} {b : Bool} {n : Nat} (hn : w.state.tests = n + 1)
    (hact : (twins w.state.errexit b).InStep (n + 1) Eq act act') :
    act' (w.withErrexit b) = ((act w).1, (act w).2.withErrexit b) := by
  have hw : (twins w.state.errexit b).Worlds (n + 1) w (w.withErrexit b) :=
    ⟨⟨hn, rfl, rfl, fun h => absurd h (Nat.succ_ne_zero n), trivial⟩, rfl, rfl⟩
  rcases hact w _ hw with ⟨_, hwaived, -⟩ | ⟨halike, hworlds⟩
  · exact hwaived.elim
  · have hhosts : (act w).2.host = (act' (w.withErrexit b)).2.host := hworlds.hosts
    refine Prod.ext halike.eq.symm ?_
    rw [hworlds.eq, ← hhosts]
    rfl

theorem tested {act : Act Int} {w : World} {b : Bool}
    (hact : ∀ n, (twins w.state.errexit b).InStep n Eq act act) :
    Act.tested true act (w.withErrexit b) =
      ((Act.tested true act w).1, (Act.tested true act w).2.withErrexit b) := by
  have hsame := same (w := { w with state := { w.state with tests := w.state.tests + 1 } }) rfl (hact _)
  show (let x := act (World.withErrexit { w with state := { w.state with tests := w.state.tests + 1 } } b)
    (x.1, { x.2 with state := { x.2.state with tests := x.2.state.tests - 1 } })) = _
  rw [hsame]
  rfl

end twins

variable (h : Handlers)

/-- A pipeline runs as an untested one that is not negated, within a test if it is to be. -/
theorem guarded_eq (streams : Streams) (isTest negated : Bool) (commands : List Command) :
    Run.guarded h streams isTest ⟨negated, commands⟩ = Act.tested (isTest || negated) do
      let status ← Run.guarded h streams false ⟨false, commands⟩
      return if negated then (if status = 0 then 1 else 0) else status := by
  unfold Run.guarded
  congr 1
  have huntested (act : Act Int) : Act.tested (false || false) act = act := rfl
  rw [huntested]
  rcases commands with _ | ⟨first, _ | ⟨second, rest⟩⟩ <;>
    simp only [bind_assoc, pure_bind, Bool.false_eq_true, if_false]

/-- In a tested pipeline, one that is negated or is followed by another one in its list, it makes no
difference whether failures end the script. -/
theorem guarded_withErrexit (streams : Streams) (isTest : Bool) (p : Pipeline)
    (htested : isTest = true ∨ p.negated = true) (w : World) (errexit : Bool) :
    Run.guarded h streams isTest p (w.withErrexit errexit) =
      ((Run.guarded h streams isTest p w).1, (Run.guarded h streams isTest p w).2.withErrexit errexit) := by
  obtain ⟨negated, commands⟩ := p
  have htest : (isTest || negated) = true := by rwa [Bool.or_eq_true]
  rw [guarded_eq, htest]
  refine twins.tested fun n => ?_
  exact .andThen (Pairing.inStep_guarded (twins.kept h) n (twins.wired streams) false ⟨false, commands⟩)
    fun _ => .pure rfl

/-- A group that goes on after a failure: `! { false; echo on; }`. -/
def negatedGroup : Pipeline :=
  ⟨true, [.group [⟨falseAlone, [], "false", 1⟩,
    ⟨⟨false, [.simple [] [[.literal "echo" false], [.literal "on" false]] []]⟩, [], "echo on", 1⟩] []]⟩

theorem negatedGroup_goes_on :
    Script.ofString "! \x7b false; echo on; \x7d" =
      .ok [⟨negatedGroup, [], "! \x7b false; echo on; \x7d", 1⟩] ∧
    negatedGroup.negated = true ∧
    Run.guarded sampleHandlers sampleWorld.state.streams false negatedGroup (sampleWorld.withErrexit false) =
      ((Run.guarded sampleHandlers sampleWorld.state.streams false negatedGroup sampleWorld).1,
        (Run.guarded sampleHandlers sampleWorld.state.streams false negatedGroup sampleWorld).2.withErrexit false) ∧
    sampleWorld.state.errexit = true ∧
    (Run.guarded sampleHandlers sampleWorld.state.streams false negatedGroup sampleWorld).2.host.stdout =
      Utf8.encode "on\n" :=
  ⟨by with_unfolding_all rfl, rfl,
    guarded_withErrexit sampleHandlers _ false negatedGroup (.inr rfl) sampleWorld false, rfl, rfl⟩

end Taskwork.Shell
