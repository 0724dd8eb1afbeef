/-
Groups. A script in braces does what the script alone does, and leaves the same world. Whether a
failure counts is decided in the group for each of its statements, and then once more for the status
of the group; so the two part where no statement failed so that it counts, and still the last status
is not 0.
-/
import Taskwork.Proofs.Shell.Settings
import Taskwork.Proofs.Shell.Status

namespace Taskwork.Shell

/-- How a statement ends whose list ends with a result: its status is noted, and an `exit` with 0 is
a good end. -/
def ended (x : Except Stop Int × World) : Except Stop Unit × World :=
  let note (status : Int) : World := { x.2 with state := { x.2.state with lastStatus := status } }
  match x.1 with
  | .ok status => (.ok (), note status)
  | .error (.exit status) =>
    if status = 0 && x.2.state.exited then (.ok (), note 0) else (.error (.exit status), note status)
  | .error e => (.error e, x.2)

/-- The statement that is a script in braces. -/
def grouped (s : Script) (text : String) (line : Nat) : Statement := ⟨⟨false, [.group s []]⟩, [], text, line⟩

/-- A statement that is one command. -/
def alone (command : Command) (text : String) (line : Nat) : Statement := ⟨⟨false, [command]⟩, [], text, line⟩

variable (h : Handlers)

theorem statement_eq_ended {w : World} (hexited : w.state.exited = false) (s : Statement) :
    Run.statement h s w = ended (Run.andOr h w.state.streams s w) := by
  unfold Run.statement
  rw [hexited]
  rfl

theorem script_of_exited {w : World} (hexited : w.state.exited = true) : ∀ s : Script,
    Run.script h s w = (.ok (), w)
  | [] => rfl
  | s :: rest => by
    have hstatement : Run.statement h s w = (.ok (), w) := by
      unfold Run.statement
      rw [if_pos hexited]
    unfold Run.script
    rw [Stateful.bind_ok hstatement]
    exact script_of_exited hexited rest

theorem list_of_exited {w : World} (hexited : w.state.exited = true) (streams : Streams) (s : Script) :
    Run.list h streams s w = (.ok w.state.lastStatus, w) := by
  cases s with
  | nil =>
    unfold Run.list
    rfl
  | cons s rest =>
    unfold Run.list
    rw [Stateful.bind_ok (show Act.state w = (.ok w.state, w) from rfl), if_pos hexited]
    rfl

/-- A list goes on after a statement in the world where the status of that one is noted. -/
theorem list_cons {w : World} (hexited : w.state.exited = false) (streams : Streams) (s : Statement)
    (rest : Script) : Run.list h streams (s :: rest) w = match Run.andOr h streams s w with
      | (.ok status, v) => Run.list h streams rest { v with state := { v.state with lastStatus := status } }
      | (.error e, v) => (.error e, v) := by
  rw [Run.list, Stateful.bind_ok (show Act.state w = (.ok w.state, w) from rfl), hexited,
    if_neg Bool.false_ne_true, Stateful.bind_apply]
  rcases Run.andOr h streams s w with ⟨_ | status, v⟩ <;> rfl

/-- The two ways to run statements one after another agree. -/
theorem script_eq_list : ∀ (s : Script) (w : World),
    Run.script h s w = ended (Run.list h w.state.streams s w)
  | [], w => by
    unfold Run.script Run.list
    rfl
  | s :: rest, w => by
    cases hexited : w.state.exited with
    | true =>
      rw [script_of_exited h hexited, list_of_exited h hexited]
      rfl
    | false =>
      have hstatement := statement_eq_ended h hexited s
      have honward := goes_andOr h w.state.streams s w
      rw [list_cons h hexited]
      unfold Run.script
      rcases hlist : Run.andOr h w.state.streams s w with ⟨e | status, v⟩ <;>
        rw [hlist] at hstatement honward
      · cases e with
        | failure f => exact Stateful.bind_error hstatement
        | exit status =>
          -- after an `exit` with 0 the script goes on, but none of its statements runs
          unfold ended at hstatement ⊢
          dsimp only at hstatement ⊢
          split at hstatement
          · rename_i hzero
            rw [Stateful.bind_ok hstatement, if_pos hzero]
            rw [Bool.and_eq_true] at hzero
            exact script_of_exited (w := { v with state := { v.state with lastStatus := 0 } }) h hzero.2 rest
          · rename_i hzero
            rw [Stateful.bind_error hstatement, if_neg hzero]
      · have hstreams : v.state.streams = w.state.streams := honward.streams
        rw [Stateful.bind_ok hstatement, script_eq_list rest, hstreams]

/-- A command alone ends as it does, but for a failure where failures count. -/
theorem andOr_alone (streams : Streams) (command : Command) (text : String) (line : Nat) (w : World) :
    Run.andOr h streams (alone command text line) w = match Run.command h streams command w with
      | (.ok status, v) =>
        if status ≠ 0 && v.state.failsOnError then (.error (.exit status), v) else (.ok status, v)
      | (.error e, v) => (.error e, v) := by
  have hguarded : Run.guarded h streams (!([] : List Link).isEmpty) ⟨false, [command]⟩ w =
      Run.command h streams command w := by
    unfold Run.guarded
    show (Run.command h streams command >>= _) w = _
    rw [Stateful.bind_apply]
    rcases Run.command h streams command w with ⟨_ | status, v⟩ <;> rfl
  unfold alone Run.andOr
  rw [Stateful.bind_apply, hguarded]
  rcases Run.command h streams command w with ⟨_ | status, v⟩
  · rfl
  · have hlinks : Run.links h streams status true [] v = (.ok (status, true), v) := by
      unfold Run.links
      rfl
    dsimp only
    refine (Stateful.bind_ok hlinks).trans ?_
    rw [Stateful.bind_ok (show Act.state v = (.ok v.state, v) from rfl)]
    dsimp only
    rw [Bool.and_true]
    split <;> rfl

/-- A group fails once more with the status of its list, if failures count where it stands. -/
theorem andOr_grouped (streams : Streams) (s : Script) (text : String) (line : Nat) (w : World) :
    Run.andOr h streams (grouped s text line) w = match Run.list h streams s w with
      | (.ok status, v) =>
        if status ≠ 0 && v.state.failsOnError then (.error (.exit status), v) else (.ok status, v)
      | (.error e, v) => (.error e, v) := by
  have hnone : Run.redirections h streams [] w = (.ok (.ok streams), w) := by
    unfold Run.redirections
    rfl
  have hcommand : Run.command h streams (.group s []) w = Run.list h streams s w := by
    unfold Run.command
    rw [Stateful.bind_ok hnone]
    rfl
  rw [show grouped s text line = alone (.group s []) text line from rfl, andOr_alone, hcommand]

/-- A list that was stopped ends a script well only through an `exit` with 0. -/
theorem lastStatus_of_ended {e : Stop} {w : World} (hok : (ended (.error e, w)).1 = .ok ()) :
    (ended (.error e, w)).2.state.lastStatus = 0 := by
  unfold ended at hok ⊢
  cases e with
  | failure f => cases hok
  | exit status =>
    dsimp only at hok ⊢
    split at hok
    · rename_i hzero
      rw [if_pos hzero]
    · cases hok

/-- A script in braces leaves the world that the script leaves, and ends as it does, but where the
script ends well with a status other than 0 and failures count: then the group fails with it. -/
theorem group_ends_as_script_iff (s : Script) (text : String) (line : Nat) (w : World)
    (hexited : w.state.exited = false) :
    let group := Run.statement h (grouped s text line) w
    let alone := Run.script h s w
    let failing := alone.1 = .ok () ∧ alone.2.state.lastStatus ≠ 0 ∧ w.state.failsOnError = true
    group.2 = alone.2 ∧ (group.1 = alone.1 ↔ ¬failing) ∧
      (failing → group.1 = .error (.exit alone.2.state.lastStatus)) := by
  intro group alone failing
  have hgroup : group = ended (Run.andOr h w.state.streams (grouped s text line) w) :=
    statement_eq_ended h hexited _
  have halone : alone = ended (Run.list h w.state.streams s w) := script_eq_list h s w
  have honward := goes_list h w.state.streams s w
  rw [andOr_grouped] at hgroup
  rcases hlist : Run.list h w.state.streams s w with ⟨e | status, v⟩ <;>
    rw [hlist] at hgroup halone honward
  · -- the group is stopped as the script is
    have hsame : group = alone := hgroup.trans halone.symm
    have hnot : ¬failing := by
      rintro ⟨hok, hstatus, -⟩
      rw [halone] at hok hstatus
      exact hstatus (lastStatus_of_ended hok)
    rw [hsame]
    exact ⟨rfl, iff_of_true rfl hnot, fun hfailing => absurd hfailing hnot⟩
  · have hended : alone = (.ok (), { v with state := { v.state with lastStatus := status } }) := halone
    have hfailing : failing ↔ (status ≠ 0 && v.state.failsOnError) = true := by
      show (alone.1 = .ok () ∧ alone.2.state.lastStatus ≠ 0 ∧ w.state.failsOnError = true) ↔ _
      rw [hended, ← honward.failsOnError, Bool.and_eq_true, decide_eq_true_iff]
      exact and_iff_right rfl
    dsimp only at hgroup
    rw [hfailing, hended]
    split at hgroup
    · rename_i hfails
      have hstatus : status ≠ 0 := (decide_eq_true_iff.mp (Bool.and_eq_true_iff.mp hfails).1)
      have hstopped : group = (.error (.exit status), { v with state := { v.state with lastStatus := status } }) := by
        rw [hgroup]
        unfold ended
        simp only [hstatus, decide_false, Bool.false_and, Bool.false_eq_true, if_false]
      rw [hstopped]
      exact ⟨rfl, iff_of_false nofun (fun hnot => hnot hfails), fun _ => rfl⟩
    · rename_i hfails
      have hsame : group = (.ok (), { v with state := { v.state with lastStatus := status } }) := hgroup
      rw [hsame]
      exact ⟨rfl, iff_of_true rfl hfails, fun h => absurd h hfails⟩

/-! ## Groups of one and two statements -/

/-- An `echo` of a word and an `exit` with 3. -/
def echoAndExit : Script :=
  [⟨⟨false, [.simple [] [[.literal "echo" false], [.literal "on" false]] []]⟩, [], "echo on", 1⟩,
    ⟨⟨false, [.simple [] [[.literal "exit" false], [.literal "3" false]] []]⟩, [], "exit 3", 1⟩]

/-- A group that is stopped by an `exit`, as its script is. -/
theorem group_exits_as_script :
    sampleWorld.state.exited = false ∧
    Script.ofString "\x7b echo on; exit 3; \x7d" = .ok [grouped echoAndExit "\x7b echo on; exit 3; \x7d" 1] ∧
    Script.ofString "echo on; exit 3" = .ok echoAndExit ∧
    Run.statement sampleHandlers (grouped echoAndExit "\x7b echo on; exit 3; \x7d" 1) sampleWorld =
      Run.script sampleHandlers echoAndExit sampleWorld ∧
    (Run.script sampleHandlers echoAndExit sampleWorld).1 = .error (.exit 3) ∧
    (Run.script sampleHandlers echoAndExit sampleWorld).2.host.stdout = Utf8.encode "on\n" := by
  have hrun : (Run.script sampleHandlers echoAndExit sampleWorld).1 = .error (.exit 3) := by
    with_unfolding_all rfl
  obtain ⟨hworld, hresult, -⟩ :=
    group_ends_as_script_iff sampleHandlers echoAndExit "\x7b echo on; exit 3; \x7d" 1 sampleWorld rfl
  refine ⟨rfl, by with_unfolding_all rfl, by with_unfolding_all rfl, ?_, hrun, by with_unfolding_all rfl⟩
  exact Prod.ext (hresult.mpr fun hfailing => nomatch hrun.symm.trans hfailing.1) hworld

/-- `! true`, whose status is 1 and which is no failure. -/
def negatedTrue : Script := [⟨⟨true, [.simple [] [[.literal "true" false]] []]⟩, [], "! true", 1⟩]

/-- Alone it ends well where failures count, and in braces it stops the script. -/
theorem group_of_negation_fails :
    Script.ofString "! true" = .ok negatedTrue ∧
    Script.ofString "\x7b ! true; \x7d" = .ok [grouped negatedTrue "\x7b ! true; \x7d" 1] ∧
    sampleWorld.state.exited = false ∧
    (Run.script sampleHandlers negatedTrue sampleWorld).1 = .ok () ∧
    (Run.script sampleHandlers negatedTrue sampleWorld).2.state.lastStatus = 1 ∧
    (Run.statement sampleHandlers (grouped negatedTrue "\x7b ! true; \x7d" 1) sampleWorld).1 =
      .error (.exit 1) :=
  ⟨by with_unfolding_all rfl, by with_unfolding_all rfl, rfl, by with_unfolding_all rfl,
    by with_unfolding_all rfl, by with_unfolding_all rfl⟩

end Taskwork.Shell
