/-
How a statement comes to its end. It ends well, it stops the script with a status that is not 0, or a
program could not be run; a file that cannot be opened stops nothing. Where failures do not end the
script, only an `exit` of the shell itself stops it, and that is also what ends the shell. An `exit` of a
subshell, of a stage or of a substitution stands in the journal of the copy and does neither.
-/
import Taskwork.Proofs.Shell.Account
import Taskwork.Proofs.Shell.Errexit

namespace Taskwork.Shell

/-- In deeds with one `exit` the place of that is known. -/
theorem eq_of_append_exited {before before' after after' : List Deed} {status status' : Int} (hbefore : Stays before)
    (hafter : Stays after) (h : before ++ .exited status :: after = before' ++ .exited status' :: after') :
    status = status' ∧ after = after' := by
  induction before generalizing before' with
  | nil =>
    cases before' with
    | nil =>
      simp only [List.nil_append, List.cons.injEq, Deed.exited.injEq] at h
      exact h
    | cons d rest =>
      -- the `exit` of the right side would stand in `after`
      simp only [List.nil_append, List.cons_append, List.cons.injEq] at h
      exact absurd (h.2 ▸ List.mem_append_right rest List.mem_cons_self) (hafter status')
  | cons d rest ih =>
    have hrest : Stays rest := fun status hmem => hbefore status (List.mem_cons_of_mem _ hmem)
    cases before' with
    | nil =>
      simp only [List.nil_append, List.cons_append, List.cons.injEq] at h
      exact absurd (h.1 ▸ List.mem_cons_self) (hbefore status')
    | cons d' rest' =>
      simp only [List.cons_append, List.cons.injEq] at h
      exact ih hrest h.2

/-- An `exit` of the shell itself is the last thing that it does, and gives the result. -/
theorem Ending.of_exited {h : Handlers} {errexit : Bool} {α : Type} {result : Except Stop α} {deeds : List Deed}
    {status : Int} (hending : Ending h errexit result deeds) (hmem : .exited status ∈ deeds) :
    ∃ before, Stays before ∧ deeds = before ++ [.exited status] ∧ result = .error (.exit status) := by
  cases hending with
  | returned a hstays => exact absurd hmem (hstays status)
  | @exited last before hstays =>
    rcases List.mem_append.mp hmem with hmem | hmem
    · exact absurd hmem (hstays status)
    · rw [List.mem_singleton, Deed.exited.injEq] at hmem
      subst hmem
      exact ⟨before, hstays, rfl, rfl⟩
  | failed herrexit hstatus hstays => exact absurd hmem (hstays status)
  | broken hstays hcall => exact absurd hmem (hstays status)

/-- Where failures do not end the script, an end with a status is an `exit`. -/
theorem Ending.exited_of_error {h : Handlers} {α : Type} {deeds : List Deed} {status : Int}
    (hending : Ending h false (.error (.exit status) : Except Stop α) deeds) : .exited status ∈ deeds := by
  cases hending with
  | exited status hstays => exact List.mem_append_right _ (List.mem_singleton.mpr rfl)
  | failed herrexit hstatus hstays => cases herrexit

/-- The status of a statement that an `exit` ends. -/
theorem ended_exit (status : Int) {w : World} (hexited : w.state.exited = true) :
    (ended (.error (.exit status), w)).1 = if status = 0 then .ok () else .error (.exit status) := by
  unfold ended
  by_cases hzero : status = 0
  · simp only [hzero, hexited, decide_true, Bool.and_self, if_true]
  · simp only [hzero, decide_false, Bool.false_and, Bool.false_eq_true, if_false]

theorem ended_eq_exit {outcome : Except Stop Int} {w : World} {status : Int}
    (h : (ended (outcome, w)).1 = .error (.exit status)) : outcome = .error (.exit status) := by
  rcases outcome with (last | f) | last
  · unfold ended at h
    dsimp only at h
    split at h
    · cases h
    · exact congrArg (fun e => Except.error e) (Except.error.inj h)
  · cases h
  · cases h

/-- A shell that has been ended does nothing more. -/
theorem Recorded.each_of_exited (h : Handlers) {w : World} (hexited : w.state.exited = true) (later : List Statement) :
    each h later w = (w, []) := by
  induction later with
  | nil => rfl
  | cons s rest ih =>
    have hstatement : statement h s w = ((.ok (), w), []) := by
      unfold statement
      rw [if_pos hexited]
    simp only [each, hstatement, ih, List.append_nil]

/-- A statement comes to one of three ends, the third of which is the answer of a program. -/
theorem Ending.ended_cases {h : Handlers} {errexit : Bool} {outcome : Except Stop Int} {v : World} {deeds : List Deed}
    (hending : Ending h errexit outcome deeds) (hv : ∀ status, .exited status ∈ deeds → v.state.exited = true) :
    (ended (outcome, v)).1 = .ok () ∨ (∃ status, status ≠ 0 ∧ (ended (outcome, v)).1 = .error (.exit status)) ∨
      ∃ f, (ended (outcome, v)).1 = .error (.failure f) ∧
        ∃ call ∈ programs deeds, ∃ host, (h.exec call host).2 = .error f := by
  cases hending with
  | returned status hstays => exact .inl rfl
  | exited status hstays =>
    rw [ended_exit status (hv status (List.mem_append_right _ (List.mem_singleton.mpr rfl)))]
    split
    · exact .inl rfl
    · rename_i hstatus
      exact .inr (.inl ⟨status, hstatus, rfl⟩)
  | @failed status _ herrexit hstatus hstays =>
    refine .inr (.inl ⟨status, hstatus, ?_⟩)
    simp [ended, hstatus]
  | @broken f _ hstays hcall => exact .inr (.inr ⟨f, rfl, hcall⟩)

/-- Nothing follows an `exit` but that its status is noted. -/
theorem Ending.noted_after {h : Handlers} {errexit : Bool} {outcome : Except Stop Int} {deeds before after : List Deed}
    {status : Int} (hending : Ending h errexit outcome deeds)
    (hdeeds : deeds ++ (statusOf? outcome).toList.map Deed.noted = before ++ .exited status :: after) :
    ∀ d ∈ after, ∃ n, d = .noted n := by
  have hmem : .exited status ∈ deeds ++ (statusOf? outcome).toList.map Deed.noted :=
    hdeeds ▸ List.mem_append_right _ List.mem_cons_self
  obtain ⟨before', hstays, rfl, rfl⟩ := hending.of_exited (by simpa using hmem)
  have hwhole : before' ++ .exited status :: [.noted status] = before ++ .exited status :: after := by
    rw [← hdeeds]
    simp [statusOf?]
  obtain ⟨-, rfl⟩ := eq_of_append_exited hstays (by simp [Stays]) hwhole
  intro d hd
  exact ⟨status, List.mem_singleton.mp hd⟩

variable (h : Handlers)

/-- A statement of a shell that has not been ended ends well, with a status that is not 0, or since a
program could not be run. Unless failures end the script, it ends with a status only by an `exit` of the
shell itself, and that `exit` decides how it ends; just such an `exit` ends the shell, after which the
statement does nothing but note a status, and later statements nothing at all. -/
theorem statement_stops (s : Statement) (w : World) (hexited : w.state.exited = false) :
    ∃ result w' deeds, Recorded.statement h s w = ((result, w'), deeds) ∧ Run.statement h s w = (result, w') ∧
      (result = .ok () ∨ (∃ status, status ≠ 0 ∧ result = .error (.exit status)) ∨
        ∃ f, result = .error (.failure f) ∧ ∃ call ∈ programs deeds, ∃ host, (h.exec call host).2 = .error f) ∧
      (w.state.errexit = false → ∀ status, result = .error (.exit status) → .exited status ∈ deeds) ∧
      (∀ status, .exited status ∈ deeds → result = if status = 0 then .ok () else .error (.exit status)) ∧
      (w'.state.exited = true ↔ ∃ status, .exited status ∈ deeds) ∧
      (∀ before status after, deeds = before ++ .exited status :: after → ∀ d ∈ after, ∃ n, d = .noted n) ∧
      (w'.state.exited = true → ∀ later v, v.state = w'.state →
        Recorded.each h later v = (v, []) ∧ Run.each h later v = v) := by
  obtain ⟨outcome, v, deeds, ⟨⟨hstate, -⟩, hending⟩, hrecorded⟩ := Recorded.account_statement h s hexited
  -- the status that is noted in the end is no `exit`
  have hnoted (status : Int) : .exited status ∈ deeds ++ (statusOf? outcome).toList.map Deed.noted ↔
      .exited status ∈ deeds := by simp
  have hv : v.state.exited = true ↔ ∃ status, .exited status ∈ deeds := by
    rw [hstate, exited_replay, hexited]
    simp
  have htells := Recorded.tells_statement h s w
  rw [hrecorded] at htells
  refine ⟨(ended (outcome, v)).1, (ended (outcome, v)).2, _, hrecorded, ?run, ?results, ?byExit, ?decides, ?flag,
    ?silent, ?later⟩
  case run => rw [← Recorded.fst_statement, hrecorded]
  case results =>
    obtain hok | hexit | ⟨f, hf, call, hmem, hanswer⟩ := hending.ended_cases fun status hmem => hv.mpr ⟨status, hmem⟩
    · exact .inl hok
    · exact .inr (.inl hexit)
    · refine .inr (.inr ⟨f, hf, call, ?_, hanswer⟩)
      rw [programs_append]
      exact List.mem_append_left _ hmem
  case byExit =>
    intro herrexit status hresult
    rw [hnoted]
    rw [herrexit] at hending
    have houtcome : outcome = .error (.exit status) := ended_eq_exit hresult
    rw [houtcome] at hending
    exact hending.exited_of_error
  case decides =>
    intro status hmem
    rw [hnoted] at hmem
    obtain ⟨before, -, -, houtcome⟩ := hending.of_exited hmem
    rw [houtcome]
    exact ended_exit status (hv.mpr ⟨status, hmem⟩)
  case flag =>
    rw [htells.state, exited_replay, hexited]
    simp
  case silent => exact fun before status after hdeeds => hending.noted_after hdeeds
  case later =>
    intro hended later u hu
    have hnothing := Recorded.each_of_exited h (hu ▸ hended) later
    refine ⟨hnothing, ?_⟩
    rw [← Recorded.fst_each, hnothing]

/-- A group in which a copy of the shell is ended, and then the shell: `{ (exit 3); exit 4; false; }`. -/
def leavingGroup : Statement :=
  let exitWith (status : String) : Command := .simple [] [[.literal "exit" false], [.literal status false]] []
  ⟨⟨false, [.group [⟨⟨false, [.subshell [⟨⟨false, [exitWith "3"]⟩, [], "exit 3", 1⟩] []]⟩, [], "(exit 3)", 1⟩,
    ⟨⟨false, [exitWith "4"]⟩, [], "exit 4", 1⟩, ⟨falseAlone, [], "false", 1⟩] []]⟩, [],
    "\x7b (exit 3); exit 4; false; \x7d", 1⟩

theorem leavingGroup_stops :
    Script.ofString "\x7b (exit 3); exit 4; false; \x7d" = .ok [leavingGroup] ∧
    (sampleWorld.withErrexit false).state.exited = false ∧
    ∃ result w', Recorded.statement sampleHandlers leavingGroup (sampleWorld.withErrexit false) =
        ((result, w'), [.copied [.exited 3] (some 3), .noted 3, .exited 4, .noted 4]) ∧
      result = .error (.exit 4) ∧ w'.state.exited = true ∧
      ∀ later, Recorded.each sampleHandlers later w' = (w', []) := by
  have hdeeds : (Recorded.statement sampleHandlers leavingGroup (sampleWorld.withErrexit false)).2 =
      [.copied [.exited 3] (some 3), .noted 3, .exited 4, .noted 4] := by with_unfolding_all rfl
  obtain ⟨result, w', deeds, hrecorded, -, -, -, hdecides, hflag, -, hlater⟩ :=
    statement_stops sampleHandlers leavingGroup (sampleWorld.withErrexit false) rfl
  rw [hrecorded] at hdeeds
  obtain rfl : deeds = _ := hdeeds
  have hexited := hflag.mpr ⟨4, by simp⟩
  refine ⟨by with_unfolding_all rfl, rfl, result, w', hrecorded, ?_, hexited, fun later => (hlater hexited later w' rfl).1⟩
  exact hdecides 4 (by simp)

end Taskwork.Shell
