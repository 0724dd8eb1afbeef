/-
One value for each variable. Whatever writes a variable leaves it to the shell or to the environment of
its programs, with one exception: to change the directory writes PWD to the environment, and a variable
PWD of the shell stays beside it and hides from the script what its programs are given.
-/
import Taskwork.Proofs.Shell.Account
import Taskwork.Proofs.Table
import Mathlib

namespace Taskwork.Shell

/-! ## Names that are two variables -/

/-- A name is a variable of the shell and also one of the environment. -/
def State.Double (s : State) (name : String) : Prop :=
  s.locals.contains name = true ∧ s.exported.contains name = true

/-- A deed that takes a variable from the shell. -/
def Deed.Takes (name : String) : Deed → Prop
  | .published other _ | .unset other => other = name
  | .opened .. | .called .. | .exited _ | .noted _ | .set .. | .entered _ | .copied .. => False

/-- A directory has been entered while PWD was a variable of the shell, and that has been left since. -/
def HidesDirectory (start : State) (deeds : List Deed) : Prop :=
  ∃ before directory after, deeds = before ++ .entered directory :: after ∧
    (replay start before).locals.contains "PWD" = true ∧ ∀ d ∈ after, ¬ d.Takes "PWD"

/-- What a deed does about the names that are two variables. -/
theorem Deed.double_apply (s : State) (d : Deed) (name : String) :
    (d.apply s).Double name ↔ s.Double name ∧ ¬ d.Takes name ∨
      name = "PWD" ∧ (∃ directory, d = .entered directory) ∧ s.locals.contains "PWD" = true := by
  cases d with
  | set other value =>
    simp only [apply, State.set, Takes, not_false_eq_true, and_true, reduceCtorEq, exists_false, false_and, and_false,
      or_false]
    split
    · -- a variable of the environment stays one
      rename_i hexported
      simp only [State.Double, Table.contains_insert]
      refine and_congr_right fun _ => or_iff_right_of_imp ?_
      rintro rfl
      exact hexported
    · rename_i hexported
      simp only [State.Double, Table.contains_insert]
      refine and_congr_left fun hname => or_iff_right_of_imp ?_
      rintro rfl
      exact absurd hname hexported
  | published other value =>
    simp only [apply, State.publish, Takes, reduceCtorEq, exists_false, false_and, and_false, or_false]
    split
    · simp only [State.Double, Table.contains_insert, Table.contains_erase]
      tauto
    · simp only [State.Double, Table.contains_erase]
      tauto
  | unset other =>
    simp only [apply, State.unset, Takes, reduceCtorEq, exists_false, false_and, and_false, or_false]
    simp only [State.Double, Table.contains_erase]
    tauto
  | entered directory =>
    simp only [apply, State.enter, Takes, not_false_eq_true, and_true, entered.injEq, exists_eq', true_and]
    simp only [State.Double, Table.contains_insert]
    constructor
    · rintro ⟨hlocal, rfl | hexported⟩
      · exact .inr ⟨rfl, hlocal⟩
      · exact .inl ⟨hlocal, hexported⟩
    · rintro (⟨hlocal, hexported⟩ | ⟨rfl, hlocal⟩)
      · exact ⟨hlocal, .inr hexported⟩
      · exact ⟨hlocal, .inl rfl⟩
  | _ => simp [apply, State.Double, Takes]

/-- The last deed decides whether PWD is hidden, or leaves it as it was. -/
theorem hidesDirectory_append (start : State) (deeds : List Deed) (d : Deed) :
    HidesDirectory start (deeds ++ [d]) ↔ HidesDirectory start deeds ∧ ¬ d.Takes "PWD" ∨
      (∃ directory, d = .entered directory) ∧ (replay start deeds).locals.contains "PWD" = true := by
  constructor
  · rintro ⟨before, directory, after, hdeeds, hlocal, hkept⟩
    -- the directory was entered by the last deed, or before it
    rcases List.eq_nil_or_concat after with rfl | ⟨after, last, rfl⟩
    · obtain ⟨rfl, hd⟩ := List.append_inj' hdeeds rfl
      exact .inr ⟨⟨directory, List.singleton_inj.mp hd⟩, hlocal⟩
    · rw [List.concat_eq_append, ← List.cons_append, ← List.append_assoc] at hdeeds
      obtain ⟨hbefore, hlast⟩ := List.append_inj' hdeeds rfl
      rw [List.singleton_inj] at hlast
      subst hlast
      refine .inl ⟨⟨before, directory, after, hbefore, hlocal, fun d hd => hkept d ?_⟩, hkept _ ?_⟩
      · rw [List.concat_eq_append]
        exact List.mem_append_left _ hd
      · rw [List.concat_eq_append]
        exact List.mem_append_right _ (List.mem_singleton.mpr rfl)
  · rintro (⟨⟨before, directory, after, rfl, hlocal, hkept⟩, hd⟩ | ⟨⟨directory, rfl⟩, hlocal⟩)
    · refine ⟨before, directory, after ++ [d], by simp, hlocal, fun d' hd' => ?_⟩
      rcases List.mem_append.mp hd' with hd' | hd'
      · exact hkept d' hd'
      · rw [List.mem_singleton.mp hd']
        exact hd
    · exact ⟨deeds, directory, [], rfl, hlocal, by simp⟩

/-- In a shell that began without variables of its own no name is two variables, but PWD where it is
hidden. -/
theorem double_replay {start : State} (hstart : ∀ name, ¬ start.Double name) (deeds : List Deed) (name : String) :
    (replay start deeds).Double name ↔ name = "PWD" ∧ HidesDirectory start deeds := by
  -- on the last deed, which alone decides what is hidden now
  induction deeds using List.reverseRecOn generalizing name with
  | nil =>
    refine iff_of_false (hstart name) ?_
    rintro ⟨-, before, directory, after, hdeeds, -⟩
    simp at hdeeds
  | append_singleton deeds d ih =>
    rw [replay_append, hidesDirectory_append]
    show (d.apply (replay start deeds)).Double name ↔ _
    rw [d.double_apply, ih]
    constructor
    · rintro (⟨⟨rfl, hhides⟩, hd⟩ | ⟨rfl, hd⟩)
      · exact ⟨rfl, .inl ⟨hhides, hd⟩⟩
      · exact ⟨rfl, .inr hd⟩
    · rintro ⟨rfl, ⟨hhides, hd⟩ | hd⟩
      · exact .inl ⟨⟨rfl, hhides⟩, hd⟩
      · exact .inr ⟨rfl, hd⟩

/-! ## Values -/

variable (h : Handlers)

/-- No name is two variables, but PWD if it is hidden, and every other variable of the environment has the
same value in the script as in the programs it calls, unless the call assigns it. -/
structure OneValue (s : State) (hidden : Prop) : Prop where
  double : ∀ name, s.Double name ↔ name = "PWD" ∧ hidden
  value : ∀ name assigned, s.exported.contains name = true → ¬ (name = "PWD" ∧ hidden) → name ≠ "?" →
    name ∉ assigned.map Prod.fst → ∃ value, (s.environment assigned).get? name = some value ∧
      ∀ w, w.state = s → Run.parameter h name none w = (.ok value, w)

theorem OneValue.of_double {s : State} {hidden : Prop} (hdouble : ∀ name, s.Double name ↔ name = "PWD" ∧ hidden) :
    OneValue h s hidden := by
  refine ⟨hdouble, fun name assigned hexported hhidden hquestion hassigned => ?_⟩
  have hlocal : s.locals.get? name = none := by
    rw [← hdouble, State.Double, and_iff_left hexported, Table.contains, Option.isSome_iff_ne_none, not_not] at hhidden
    exact hhidden
  obtain ⟨value, hvalue⟩ := Option.isSome_iff_exists.mp hexported
  refine ⟨value, ?_, fun w hw => ?_⟩
  · rw [State.environment, Table.get?_foldl_insert hassigned, hvalue]
  · have hparameter : w.state.parameter? name = some value := by
      rw [hw, State.parameter?, if_neg hquestion, State.var?, hlocal, Option.none_or, hvalue]
    unfold Run.parameter
    rw [Stateful.bind_ok (show Act.state w = (.ok w.state, w) from rfl), hparameter]
    rfl

theorem State.double_congr {s t : State} (hvariables : s.variables = t.variables) (name : String) :
    s.Double name ↔ t.Double name := by
  obtain ⟨hexported, hlocals⟩ := Prod.ext_iff.mp hvariables
  simp only [State.variables] at hexported hlocals
  rw [State.Double, State.Double, hexported, hlocals]

/-- After any statements of a shell that began without variables of its own, and in each of the shells
that call a program meanwhile, every variable has one value, but PWD where a change of directory has
hidden it. -/
theorem variables_one_value (statements : List Statement) (w : World) (hlocals : w.state.locals = []) :
    ∃ w' deeds, Recorded.each h statements w = (w', deeds) ∧ Run.each h statements w = w' ∧
      OneValue h w'.state (HidesDirectory w.state deeds) ∧
      ∀ c ∈ callsOf [] deeds, c.call.env = c.shell.environment c.assigned ∧
        OneValue h c.shell (HidesDirectory w.state c.past) := by
  obtain ⟨⟨w', deeds⟩, heach⟩ : ∃ out, Recorded.each h statements w = out := ⟨_, rfl⟩
  have htells := Recorded.tells_each h statements w
  rw [heach] at htells
  have hstart (name : String) : ¬ w.state.Double name := by
    rw [State.Double, hlocals]
    exact fun hdouble => Bool.false_ne_true hdouble.1
  refine ⟨w', deeds, heach, ?_, ?_, ?_⟩
  · rw [← Recorded.fst_each, heach]
  · refine .of_double h fun name => ?_
    rw [htells.state]
    exact double_replay hstart deeds name
  · intro c hc
    obtain ⟨hvariables, henv⟩ := htells.calls w.state [] rfl c hc
    refine ⟨henv, .of_double h fun name => ?_⟩
    rw [State.double_congr hvariables]
    exact double_replay hstart c.past name

/-- A shell in an empty root directory. -/
def rootWorld : World := ⟨State.initial "/", [], .ofFiles (.empty default) []⟩

/-- `X=1; export X; args $X` -/
def exportingScript : Script :=
  [⟨⟨false, [.simple [⟨"X", [.literal "1" false]⟩] [] []]⟩, [], "X=1", 1⟩,
    ⟨⟨false, [.simple [] [[.literal "export" false], [.literal "X" false]] []]⟩, [], "export X", 1⟩,
    ⟨⟨false, [.simple [] [[.literal "args" false], [.param "X" none false]] []]⟩, [], "args $X", 1⟩]

/-- A shell that changes no directory has one value for each variable. -/
theorem exportingScript_one_value :
    Script.ofString "X=1; export X; args $X" = .ok exportingScript ∧ rootWorld.state.locals = [] ∧
      (∀ name, ¬ (Run.each sampleHandlers exportingScript rootWorld).state.Double name) ∧
      ∃ value, ((Run.each sampleHandlers exportingScript rootWorld).state.environment []).get? "X" = some value ∧
        ∀ w, w.state = (Run.each sampleHandlers exportingScript rootWorld).state →
          Run.parameter sampleHandlers "X" none w = (.ok value, w) := by
  obtain ⟨w', deeds, heach, hrun, hvalue, -⟩ := variables_one_value sampleHandlers exportingScript rootWorld rfl
  have hdeeds : ∃ shell call, (Recorded.each sampleHandlers exportingScript rootWorld).2 =
      [.set "X" "1", .noted 0, .published "X" none, .noted 0, .called shell [] call, .noted 0] :=
    ⟨_, _, by with_unfolding_all rfl⟩
  have hhides : ¬ HidesDirectory rootWorld.state deeds := by
    rintro ⟨before, directory, after, hsplit, -⟩
    obtain ⟨shell, call, hdeeds⟩ := hdeeds
    rw [heach] at hdeeds
    have hmem : .entered directory ∈ deeds := hsplit ▸ List.mem_append_right before List.mem_cons_self
    rw [show deeds = _ from hdeeds] at hmem
    simp at hmem
  refine ⟨by with_unfolding_all rfl, rfl, fun name hdouble => ?_, ?_⟩
  · rw [hrun] at hdouble
    exact hhides ((hvalue.double name).mp hdouble).2
  · rw [hrun]
    have hexported : w'.state.exported.contains "X" = true := by
      rw [← hrun]
      cbv
    exact hvalue.value "X" [] hexported (fun hhidden => hhides hhidden.2) (by decide) (by decide)

/-- `PWD=x; cd /; args $PWD` -/
def hidingScript : Script :=
  [⟨⟨false, [.simple [⟨"PWD", [.literal "x" false]⟩] [] []]⟩, [], "PWD=x", 1⟩,
    ⟨⟨false, [.simple [] [[.literal "cd" false], [.literal "/" false]] []]⟩, [], "cd /", 1⟩,
    ⟨⟨false, [.simple [] [[.literal "args" false], [.param "PWD" none false]] []]⟩, [], "args $PWD", 1⟩]

/-- After `cd` the script has another PWD than the program that is called. -/
theorem hidingScript_two_values :
    Script.ofString "PWD=x; cd /; args $PWD" = .ok hidingScript ∧ rootWorld.state.locals = [] ∧
      (Run.each sampleHandlers hidingScript rootWorld).state.Double "PWD" ∧
      (programs (Recorded.each sampleHandlers hidingScript rootWorld).2).map
        (fun call => (call.words, call.env.get? "PWD")) = [(["args", "x"], some "/")] :=
  ⟨by with_unfolding_all rfl, rfl, ⟨by cbv, by cbv⟩, by cbv⟩

end Taskwork.Shell
