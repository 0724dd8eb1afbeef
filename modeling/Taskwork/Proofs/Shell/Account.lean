/-
What the journal of a run tells. It accounts for the state, which is the one that the deeds make of the
state before (`replay`); for the end, since after an `exit` of the shell itself nothing is done; and for
the environments of the programs that are called, by the shell or by a copy of it.
-/
import Taskwork.Proofs.Shell.Commands
import Taskwork.Proofs.Shell.Journal

namespace Taskwork.Shell

/-! ## Replaying deeds -/

theorem replay_append (s : State) (deeds more : List Deed) :
    replay s (deeds ++ more) = replay (replay s deeds) more := List.foldl_append

/-- The variables of a shell, those of its environment first. -/
def State.variables (s : State) : Table × Table := (s.exported, s.locals)

namespace Deed

theorem errexit_apply (s : State) (d : Deed) : (d.apply s).errexit = s.errexit := by
  cases d with
  | set name value =>
    simp only [apply, State.set]
    split <;> rfl
  | published name value =>
    simp only [apply, State.publish]
    split <;> rfl
  | _ => rfl

/-- How many tests are being made does not matter to a deed. -/
theorem apply_tests (s : State) (n : Nat) (d : Deed) :
    d.apply { s with tests := n } = { d.apply s with tests := n } := by
  cases d with
  | set name value =>
    simp only [apply, State.set]
    split <;> rfl
  | published name value =>
    simp only [apply, State.publish]
    split <;> rfl
  | _ => rfl

theorem tests_apply (s : State) (d : Deed) : (d.apply s).tests = s.tests := by
  have hself := congrArg State.tests (apply_tests s s.tests d)
  exact hself

theorem variables_apply {s t : State} (h : s.variables = t.variables) (d : Deed) :
    (d.apply s).variables = (d.apply t).variables := by
  obtain ⟨hexported, hlocals⟩ := Prod.ext_iff.mp h
  simp only [State.variables] at hexported hlocals
  cases d with
  | set name value =>
    simp only [apply, State.set, State.variables, hexported]
    split <;> simp [hlocals]
  | published name value =>
    simp only [apply, State.publish, State.variables, hlocals]
    split <;> simp [hexported]
  | unset name => simp [apply, State.unset, State.variables, hexported, hlocals]
  | entered directory => simp [apply, State.enter, State.variables, hexported, hlocals]
  | _ => exact h

/-- Only `exit` ends a shell. -/
theorem exited_apply (s : State) (d : Deed) :
    (d.apply s).exited = true ↔ s.exited = true ∨ ∃ status, d = .exited status := by
  cases d with
  | exited status => simp [apply]
  | set name value =>
    simp only [apply, State.set]
    split <;> simp
  | published name value =>
    simp only [apply, State.publish]
    split <;> simp
  | _ => simp [apply, State.unset, State.enter]

end Deed

theorem errexit_replay (s : State) (deeds : List Deed) : (replay s deeds).errexit = s.errexit := by
  induction deeds generalizing s with
  | nil => rfl
  | cons d rest ih => exact (ih (d.apply s)).trans (d.errexit_apply s)

theorem replay_tests (s : State) (n : Nat) (deeds : List Deed) :
    replay { s with tests := n } deeds = { replay s deeds with tests := n } := by
  induction deeds generalizing s with
  | nil => rfl
  | cons d rest ih =>
    show replay (d.apply { s with tests := n }) rest = _
    rw [d.apply_tests, ih]
    rfl

theorem tests_replay (s : State) (deeds : List Deed) : (replay s deeds).tests = s.tests := by
  induction deeds generalizing s with
  | nil => rfl
  | cons d rest ih => exact (ih (d.apply s)).trans (d.tests_apply s)

/-- What is done while one more test is being made is done as without it. -/
theorem replay_tested (s : State) (deeds : List Deed) :
    { replay { s with tests := s.tests + 1 } deeds with
      tests := (replay { s with tests := s.tests + 1 } deeds).tests - 1 } = replay s deeds := by
  rw [replay_tests]
  dsimp only
  rw [Nat.add_sub_cancel, ← tests_replay s deeds]

theorem variables_replay {s t : State} (h : s.variables = t.variables) (deeds : List Deed) :
    (replay s deeds).variables = (replay t deeds).variables := by
  induction deeds generalizing s t with
  | nil => exact h
  | cons d rest ih => exact ih (d.variables_apply h)

theorem exited_replay (s : State) (deeds : List Deed) :
    (replay s deeds).exited = true ↔ s.exited = true ∨ ∃ status, .exited status ∈ deeds := by
  induction deeds generalizing s with
  | nil => simp [replay]
  | cons d rest ih =>
    show (replay (d.apply s) rest).exited = true ↔ _
    rw [ih, d.exited_apply]
    simp only [List.mem_cons, exists_or, or_assoc, eq_comm]

/-! ## Calls -/

theorem callsOf_append (past deeds more : List Deed) :
    callsOf past (deeds ++ more) = callsOf past deeds ++ callsOf (past ++ deeds) more := by
  induction deeds generalizing past with
  | nil => simp [callsOf]
  | cons d rest ih => simp [callsOf, ih]

theorem callsOf_singleton (past : List Deed) (d : Deed) : callsOf past [d] = d.calls past := by
  simp [callsOf]

mutual

theorem Deed.map_call_calls (past past' : List Deed) : ∀ d : Deed,
    (d.calls past).map PastCall.call = (d.calls past').map PastCall.call
  | .called .. => by simp [Deed.calls]
  | .copied deeds _ => by
    simp only [Deed.calls]
    exact map_call_callsOf past past' deeds
  | .opened .. | .exited _ | .noted _ | .set .. | .published .. | .unset _ | .entered _ => by simp [Deed.calls]

theorem map_call_callsOf (past past' : List Deed) : ∀ deeds : List Deed,
    (callsOf past deeds).map PastCall.call = (callsOf past' deeds).map PastCall.call
  | [] => by simp [callsOf]
  | d :: rest => by
    simp only [callsOf, List.map_append]
    rw [Deed.map_call_calls past past' d, map_call_callsOf (past ++ [d]) (past' ++ [d]) rest]

end

/-- The programs that are called, by the shell or a copy of it. -/
def programs (deeds : List Deed) : List Program.Call := (callsOf [] deeds).map PastCall.call

theorem programs_append (deeds more : List Deed) : programs (deeds ++ more) = programs deeds ++ programs more := by
  simp only [programs, callsOf_append, List.map_append]
  rw [map_call_callsOf ([] ++ deeds) [] more]

theorem programs_copied (deeds : List Deed) (status : Option Int) : programs [.copied deeds status] = programs deeds := by
  simp [programs, callsOf, Deed.calls]

/-! ## Endings -/

/-- The shell itself does not execute `exit`. -/
def Stays (deeds : List Deed) : Prop := ∀ status, .exited status ∉ deeds

theorem Stays.append {deeds more : List Deed} (h : Stays deeds) (hmore : Stays more) : Stays (deeds ++ more) := by
  intro status hmem
  rcases List.mem_append.mp hmem with hmem | hmem
  · exact h status hmem
  · exact hmore status hmem

/-- How something comes to an end in a shell in which failures end the script or do not. -/
inductive Ending (h : Handlers) (errexit : Bool) {α : Type} : Except Stop α → List Deed → Prop where
  | returned (a : α) {deeds : List Deed} (hstays : Stays deeds) : Ending h errexit (.ok a) deeds
  /-- An `exit` is the last thing that the shell does. -/
  | exited (status : Int) {before : List Deed} (hstays : Stays before) :
    Ending h errexit (.error (.exit status)) (before ++ [.exited status])
  | failed {status : Int} {deeds : List Deed} (herrexit : errexit = true) (hstatus : status ≠ 0) (hstays : Stays deeds) :
    Ending h errexit (.error (.exit status)) deeds
  /-- A program could not be run. -/
  | broken {f : Program.Failure} {deeds : List Deed} (hstays : Stays deeds)
    (hcall : ∃ call ∈ programs deeds, ∃ host, (h.exec call host).2 = .error f) :
    Ending h errexit (.error (.failure f)) deeds

/-- What is done before stays done. -/
theorem Ending.after {h : Handlers} {errexit : Bool} {α : Type} {result : Except Stop α} {deeds more : List Deed}
    (hmore : Ending h errexit result more) (hstays : Stays deeds) : Ending h errexit result (deeds ++ more) := by
  cases hmore with
  | returned a hmore => exact .returned a (hstays.append hmore)
  | @exited status before hbefore =>
    rw [← List.append_assoc]
    exact .exited status (hstays.append hbefore)
  | failed herrexit hstatus hmore => exact .failed herrexit hstatus (hstays.append hmore)
  | broken hmore hcall =>
    obtain ⟨call, hmem, hanswer⟩ := hcall
    refine .broken (hstays.append hmore) ⟨call, ?_, hanswer⟩
    rw [programs_append]
    exact List.mem_append_right _ hmem

/-! ## Accounts -/

/-- The journal tells the state in which something ends that starts in `w`, and the calls. -/
structure Tells (w w' : World) (deeds : List Deed) : Prop where
  state : w'.state = replay w.state deeds
  /-- If the shell has its variables by `past`, every call tells the shell that makes it. -/
  calls : ∀ start past, w.state.variables = (replay start past).variables → ∀ c ∈ callsOf past deeds,
    c.shell.variables = (replay start c.past).variables ∧ c.call.env = c.shell.environment c.assigned

theorem Tells.trans {w w' w'' : World} {deeds more : List Deed} (hdeeds : Tells w w' deeds)
    (hmore : Tells w' w'' more) : Tells w w'' (deeds ++ more) := by
  refine ⟨by rw [hmore.state, hdeeds.state, replay_append], fun start past hpast c hc => ?_⟩
  rw [callsOf_append] at hc
  rcases List.mem_append.mp hc with hc | hc
  · exact hdeeds.calls start past hpast c hc
  · refine hmore.calls start (past ++ deeds) ?_ c hc
    rw [hdeeds.state, replay_append]
    exact variables_replay hpast deeds

theorem Tells.ofUncalled {w w' : World} {deeds : List Deed} (hstate : w'.state = replay w.state deeds)
    (hcalls : ∀ past, callsOf past deeds = []) : Tells w w' deeds := by
  refine ⟨hstate, fun start past _ c hc => ?_⟩
  rw [hcalls past] at hc
  cases hc

/-- The journal accounts for what comes of something that starts in `w`. -/
structure Account (h : Handlers) (w : World) {α : Type} (result : Except Stop α) (w' : World) (deeds : List Deed) :
    Prop where
  tells : Tells w w' deeds
  ending : Ending h w.state.errexit result deeds

/-- The journal accounts for doing something, wherever it starts. -/
def Accounted (h : Handlers) {α : Type} (x : Recorded α) : Prop :=
  ∀ w, Account h w (x w).1.1 (x w).1.2 (x w).2

/-- Doing something that ends well and leaves the state as it is. -/
def Says {α : Type} (act : Act α) : Prop := ∀ w, (∃ a, (act w).1 = .ok a) ∧ (act w).2.state = w.state

namespace Says

variable {α β : Type}

theorem pure (a : α) : Says (Pure.pure a : Act α) := fun _ => ⟨⟨a, rfl⟩, rfl⟩

theorem bind {act : Act α} {f : α → Act β} (h : Says act) (hf : ∀ a, Says (f a)) : Says (act >>= f) := by
  intro w
  obtain ⟨⟨a, hresult⟩, hstate⟩ := h w
  have hact : act w = (.ok a, (act w).2) := Prod.ext hresult rfl
  obtain ⟨hok, hrest⟩ := hf a (act w).2
  rw [Stateful.bind_ok hact]
  exact ⟨hok, hrest.trans hstate⟩

theorem state : Says Act.state := fun w => ⟨⟨w.state, rfl⟩, rfl⟩

theorem files : Says Act.files := fun w => ⟨⟨w.host.files, rfl⟩, rfl⟩

theorem write (sink : Sink) (bytes : Bytes) : Says (Act.write sink bytes) := by
  unfold Act.write
  split
  · exact pure ()
  · intro w
    refine ⟨⟨(), rfl⟩, ?_⟩
    cases sink <;> rfl

theorem openFile (h : Handlers) (path : String) (mode : OpenMode) : Says (Act.openFile h path mode) :=
  fun _ => ⟨⟨_, rfl⟩, rfl⟩

theorem calm : Calm Says where
  pure := pure
  bind := bind
  state := state
  files := files
  write := write
  openFile := openFile

end Says

/-- A change of the variables or the directory. -/
def Deed.IsChange : Deed → Prop
  | .set .. | .published .. | .unset _ | .entered _ => True
  | .opened .. | .called .. | .exited _ | .noted _ | .copied .. => False

namespace Account

variable {h : Handlers} {w w' : World} {α : Type}

/-- What neither ends the shell nor calls a program. -/
theorem ofUncalled (a : α) {deeds : List Deed} (hstate : w'.state = replay w.state deeds) (hstays : Stays deeds)
    (hcalls : ∀ past, callsOf past deeds = []) : Account h w (.ok a) w' deeds :=
  ⟨.ofUncalled hstate hcalls, .returned a hstays⟩

theorem ofChanges (a : α) {deeds : List Deed} (hstate : w'.state = replay w.state deeds)
    (hdeeds : ∀ d ∈ deeds, d.IsChange) : Account h w (.ok a) w' deeds := by
  refine ofUncalled a hstate (fun status hmem => hdeeds _ hmem) fun past => ?_
  clear hstate
  induction deeds generalizing past with
  | nil => simp [callsOf]
  | cons d rest ih =>
    have hd := hdeeds d List.mem_cons_self
    have hrest := ih (fun d hd => hdeeds d (List.mem_cons_of_mem _ hd)) (past ++ [d])
    cases d <;> first
      | exact hd.elim
      | simp only [callsOf, Deed.calls, hrest, List.append_nil]

end Account

namespace Accounted

variable {h : Handlers} {α β : Type}

theorem plainly {act : Act α} (hact : Says act) : Accounted h (Recorded.plainly act) := by
  intro w
  obtain ⟨⟨a, hresult⟩, hstate⟩ := hact w
  show Account h w (act w).1 (act w).2 []
  rw [hresult]
  refine .ofChanges a hstate ?_
  simp

theorem bind {x : Recorded α} {f : α → Recorded β} (hx : Accounted h x) (hf : ∀ a, Accounted h (f a)) :
    Accounted h (x >>= f) := by
  intro w
  have haccount := hx w
  obtain ⟨⟨⟨result, w'⟩, deeds⟩, hxw⟩ : ∃ out, x w = out := ⟨_, rfl⟩
  rw [hxw] at haccount
  obtain ⟨htells, hending⟩ := haccount
  cases result with
  | error e =>
    rw [Recorded.bind_error hxw]
    refine ⟨htells, ?_⟩
    -- the end is the same, but of something with another result
    cases hending with
    | exited status hstays => exact .exited status hstays
    | failed herrexit hstatus hstays => exact .failed herrexit hstatus hstays
    | broken hstays hcall => exact .broken hstays hcall
  | ok a =>
    obtain ⟨htells', hending'⟩ := hf a w'
    have hstays : Stays deeds := by
      cases hending with
      | returned _ hstays => exact hstays
    have herrexit : w'.state.errexit = w.state.errexit := by rw [htells.state, errexit_replay]
    rw [herrexit] at hending'
    rw [Recorded.bind_ok hxw]
    exact ⟨htells.trans htells', hending'.after hstays⟩

/-- What a copy that ends with `result` gives back to its shell: its status, or the failure that ended
it. -/
structure GivenBack (w : World) (result : Except Stop Int) (out : Except Stop α × World) : Prop where
  state : out.2.state = { w.state with lastStatus := (statusOf? result).getD w.state.lastStatus }
  ending : (∃ a, out.1 = .ok a) ∨ ∃ f, result = .error (.failure f) ∧ out.1 = .error (.failure f)

/-- A copy of the shell accounts for its own part, and the shell for the status of the copy. -/
theorem insideCopy {act : Act Int → Act α} (start : World → World)
    (hstart : ∀ w, (start w).state.variables = w.state.variables)
    (hact : ∀ out w, GivenBack w out.1 (act (fun _ => out) w)) {x : Recorded Int} (hx : Accounted h x) :
    Accounted h (Recorded.inside act start Recorded.ofCopy x) := by
  intro w
  have haccount := hx (start w)
  obtain ⟨hstate, hending⟩ := hact (x (start w)).1 w
  -- an `exit` of the copy stands within one deed, which is none of the shell
  have hstays : Stays (Recorded.ofCopy (x (start w)).1.1 (x (start w)).2) := by simp [Stays, Recorded.ofCopy]
  refine ⟨⟨hstate, ?_⟩, ?_⟩
  · intro start' past hpast c hc
    rw [show (Recorded.inside act start Recorded.ofCopy x w).2 = Recorded.ofCopy (x (start w)).1.1 (x (start w)).2 from rfl,
      Recorded.ofCopy, callsOf_singleton, Deed.calls] at hc
    exact haccount.tells.calls start' past ((hstart w).trans hpast) c hc
  · show Ending h w.state.errexit (act (fun _ => (x (start w)).1) w).1 (Recorded.ofCopy (x (start w)).1.1 (x (start w)).2)
    rcases hending with ⟨a, ha⟩ | ⟨f, hf, hout⟩
    · rw [ha]
      exact .returned a hstays
    · have hbroken := haccount.ending
      rw [hf] at hbroken
      rw [hout]
      cases hbroken with
      | broken _ hcall =>
        refine .broken hstays ?_
        rwa [Recorded.ofCopy, programs_copied]

theorem note (status : Int) : Accounted h ((Recorded.operations h).note status) := by
  intro w
  have hstays : Stays [.noted status] := by simp [Stays]
  have hcalls (past : List Deed) : callsOf past [.noted status] = [] := by simp [callsOf, Deed.calls]
  exact .ofUncalled () rfl hstays hcalls

theorem conclude (status : Int) (counts : Bool) : Accounted h ((Recorded.operations h).conclude status counts) := by
  intro w
  show Account h w ((Operations.acts h).conclude status counts w).1 ((Operations.acts h).conclude status counts w).2 []
  by_cases hfails : (status ≠ 0 && counts && w.state.failsOnError) = true
  · have hout : (Operations.acts h).conclude status counts w = (.error (.exit status), w) := by
      simp only [Operations.acts]
      rw [Stateful.bind_ok (show Act.state w = (.ok w.state, w) from rfl), if_pos hfails]
      rfl
    simp only [Bool.and_eq_true, decide_eq_true_eq, State.failsOnError] at hfails
    rw [hout]
    exact ⟨.ofUncalled rfl (by simp [callsOf]), .failed hfails.2.1 hfails.1.1 (by simp [Stays])⟩
  · have hout : (Operations.acts h).conclude status counts w = (.ok status, w) := by
      simp only [Operations.acts]
      rw [Stateful.bind_ok (show Act.state w = (.ok w.state, w) from rfl), if_neg hfails]
      rfl
    rw [hout]
    exact .ofChanges status rfl (by simp)

theorem tested (isTest : Bool) {x : Recorded Int} (hx : Accounted h x) :
    Accounted h ((Recorded.operations h).tested isTest x) := by
  intro w
  cases isTest with
  | false => exact hx w
  | true =>
    obtain ⟨⟨hstate, hcalls⟩, hending⟩ := hx { w with state := { w.state with tests := w.state.tests + 1 } }
    -- taking back the test on both sides leaves the deeds of the state before
    have hfewer := congrArg (fun s : State => { s with tests := s.tests - 1 }) hstate
    exact ⟨⟨hfewer.trans (replay_tested w.state _), hcalls⟩, hending⟩

theorem copied {x : Recorded Int} (hx : Accounted h x) : Accounted h ((Recorded.operations h).copied x) := by
  refine insideCopy (fun w => w) (fun _ => rfl) (fun out w => ?_) hx
  rcases out with ⟨(status | f) | status, w'⟩
  · exact ⟨rfl, .inl ⟨status, rfl⟩⟩
  · exact ⟨rfl, .inr ⟨f, rfl, rfl⟩⟩
  · exact ⟨rfl, .inl ⟨status, rfl⟩⟩

theorem piped {x : Recorded Int} (hx : Accounted h x) : Accounted h ((Recorded.operations h).piped x) := by
  refine insideCopy (fun w => { w with captured := [] }) (fun _ => rfl) (fun out w => ?_) hx
  rcases out with ⟨(status | f) | status, w'⟩
  · exact ⟨rfl, .inl ⟨_, rfl⟩⟩
  · exact ⟨rfl, .inr ⟨f, rfl, rfl⟩⟩
  · exact ⟨rfl, .inl ⟨_, rfl⟩⟩

theorem substituted {run : Streams → Recorded Int} (hrun : ∀ streams, Accounted h (run streams)) :
    Accounted h ((Recorded.operations h).substituted run) := by
  intro w
  refine insideCopy (fun w => { w with captured := [], state := { w.state with exited := false } })
    (fun _ => rfl) (fun out w => ?_) (hrun _) w
  rcases out with ⟨(status | f) | status, w'⟩
  · exact ⟨rfl, .inl ⟨_, rfl⟩⟩
  · exact ⟨rfl, .inr ⟨f, rfl, rfl⟩⟩
  · exact ⟨rfl, .inl ⟨_, rfl⟩⟩

theorem redirect (fd : Nat) (kind : RedirectKind) (target : String) (streams : Streams) :
    Accounted h ((Recorded.operations h).redirect fd kind target streams) := by
  intro w
  obtain ⟨⟨a, hresult⟩, hstate⟩ := Says.calm.redirect h fd kind target streams w
  show Account h w (Act.redirect h fd kind target streams w).1 (Act.redirect h fd kind target streams w).2 _
  rw [hresult]
  -- the deeds are that a file is asked for, or none
  refine .ofUncalled a ?_ ?_ fun past => ?_
  · rw [hstate]
    cases kind <;> rfl
  · intro status hmem
    cases kind <;> simp [Recorded.operations, RedirectKind.mode?] at hmem
  · cases kind <;> simp [Recorded.operations, RedirectKind.mode?, callsOf, Deed.calls]

/-! ## Commands -/

theorem cd (args : List String) (streams : Streams) (w : World) :
    Account h w (Builtin.cd args streams w).1 (Builtin.cd args streams w).2
      (builtinDeeds "cd" args (Builtin.cd args streams w)) := by
  have hfail (message : String) : Account h w (Builtin.fail "cd" message streams 1 w).1
      (Builtin.fail "cd" message streams 1 w).2 (builtinDeeds "cd" args (Builtin.fail "cd" message streams 1 w)) := by
    have hfailed : (Builtin.fail "cd" message streams 1 w).1 = .ok 1 := by
      unfold Builtin.fail
      obtain ⟨⟨a, ha⟩, -⟩ := Says.calm.writeText streams.stderr ("cd: " ++ message ++ "\n") w
      exact congrArg Prod.fst (Stateful.bind_ok (Prod.ext ha rfl))
    have hstate := (Says.calm.fail "cd" message streams 1 w).2
    simp only [builtinDeeds, hfailed]
    exact .ofChanges 1 hstate (by simp)
  unfold Builtin.cd
  rw [Stateful.bind_ok (show Act.state w = (.ok w.state, w) from rfl)]
  cases args.head?.or (w.state.var? "HOME") with
  | none => exact hfail _
  | some target =>
    dsimp only
    rw [Stateful.bind_ok (show Act.files w = (.ok w.host.files, w) from rfl)]
    cases w.host.files.isDirectory (Builtin.cleanDirectory (Path.join w.state.directory target)) with
    | false => exact hfail _
    | true =>
      obtain ⟨directory, hdirectory⟩ : ∃ d, Builtin.cleanDirectory (Path.join w.state.directory target) = d := ⟨_, rfl⟩
      rw [hdirectory]
      show Account h w (.ok 0) { w with state := w.state.enter directory } [.entered directory]
      exact .ofChanges 0 rfl (by simp [Deed.IsChange])

theorem exit_apply (args : List String) (streams : Streams) (w : World) :
    ∃ status, (Builtin.exit args streams w).1 = .error (.exit status) ∧
      (Builtin.exit args streams w).2.state = { w.state with exited := true } := by
  cases args with
  | nil => exact ⟨w.state.lastStatus, rfl, rfl⟩
  | cons arg rest =>
    unfold Builtin.exit
    dsimp only
    cases Builtin.exitStatus? arg with
    | some status => exact ⟨status, rfl, rfl⟩
    | none =>
      obtain ⟨⟨status, hresult⟩, hstate⟩ := Says.calm.fail "exit" (arg ++ ": numeric argument required") streams 2 w
      dsimp only
      rw [Stateful.bind_ok (Prod.ext hresult rfl)]
      refine ⟨status, rfl, ?_⟩
      rw [← hstate]
      rfl

theorem exit (args : List String) (streams : Streams) (w : World) :
    Account h w (Builtin.exit args streams w).1 (Builtin.exit args streams w).2
      (builtinDeeds "exit" args (Builtin.exit args streams w)) := by
  obtain ⟨status, hresult, hstate⟩ := exit_apply args streams w
  simp only [builtinDeeds, hresult]
  have hending : Ending h w.state.errexit (.error (.exit status) : Except Stop Int) ([] ++ [.exited status]) :=
    .exited status (by simp [Stays])
  exact ⟨.ofUncalled hstate (by simp [callsOf, Deed.calls]), hending⟩

theorem export_ (args : List String) (w : World) :
    Account h w (Builtin.export_ args w).1 (Builtin.export_ args w).2
      (builtinDeeds "export" args (Builtin.export_ args w)) := by
  refine .ofChanges 0 ?_ ?_
  · simp only [builtinDeeds, replay, List.foldl_map]
    show args.foldl _ w.state = _
    congr 1
    funext s arg
    cases Builtin.splitEqual? arg <;> rfl
  · intro d hd
    simp only [builtinDeeds, List.mem_map] at hd
    obtain ⟨arg, -, rfl⟩ := hd
    cases Builtin.splitEqual? arg <;> exact trivial

theorem unset (args : List String) (w : World) :
    Account h w (Builtin.unset args w).1 (Builtin.unset args w).2
      (builtinDeeds "unset" args (Builtin.unset args w)) := by
  refine .ofChanges 0 ?_ ?_
  · simp only [builtinDeeds, replay, List.foldl_map]
    rfl
  · intro d hd
    simp only [builtinDeeds, List.mem_map] at hd
    obtain ⟨arg, -, rfl⟩ := hd
    exact trivial

/-- A builtin command that changes nothing. -/
theorem said {act : Act Int} (hact : Says act) (w : World) : Account h w (act w).1 (act w).2 [] :=
  plainly hact w

theorem builtin {name : String} {run : List String → Streams → Act Int} (hrun : Builtin.builtin? name = some run)
    (args : List String) (streams : Streams) (w : World) :
    Account h w (run args streams w).1 (run args streams w).2 (builtinDeeds name args (run args streams w)) := by
  unfold Builtin.builtin? at hrun
  split at hrun <;> cases hrun
  · exact cd args streams w
  · exact said (Says.calm.pwd streams) w
  · exact said (Says.calm.echo args streams) w
  · exact said (.pure 0) w
  · exact said (.pure 0) w
  · exact said (.pure 1) w
  · exact exit args streams w
  · exact export_ args w
  · exact unset args w
  · exact said (Says.calm.test args streams) w
  · exact said (Says.calm.bracket args streams) w

theorem call (words : List String) (assigned : List (String × String)) (streams : Streams) (w : World) :
    Account h w (Act.call h words assigned streams w).1 (Act.call h words assigned streams w).2
      [.called w.state assigned ⟨w.state.directory, w.state.environment assigned, words, Pairing.wiring streams⟩] := by
  have hcalls : ∀ start past, w.state.variables = (replay start past).variables →
      ∀ c ∈ callsOf past [.called w.state assigned
        ⟨w.state.directory, w.state.environment assigned, words, Pairing.wiring streams⟩],
      c.shell.variables = (replay start c.past).variables ∧ c.call.env = c.shell.environment c.assigned := by
    intro start past hpast c hc
    simp only [callsOf, Deed.calls, List.append_nil, List.mem_singleton] at hc
    subst hc
    exact ⟨hpast, rfl⟩
  have hstays (s : State) (call : Program.Call) : Stays [.called s assigned call] := by simp [Stays]
  rcases hexec : h.exec ⟨w.state.directory, w.state.environment assigned, words, Pairing.wiring streams⟩ w.host with
    ⟨host, result⟩
  rw [Pairing.InStep.call_apply hexec]
  cases result with
  | error f =>
    refine ⟨⟨rfl, hcalls⟩, .broken (hstays _ _) ⟨_, ?_, w.host, congrArg Prod.snd hexec⟩⟩
    simp [programs, callsOf, Deed.calls]
  | ok outcome =>
    have hplain : Says (Pairing.afterProgram streams (.ok outcome)) :=
      .bind (.write _ _) fun _ => .bind (.write _ _) fun _ => .pure _
    obtain ⟨⟨status, hresult⟩, hstate⟩ := hplain { w with host }
    rw [hresult]
    exact ⟨⟨hstate, hcalls⟩, .returned status (hstays _ _)⟩

theorem perform (words : List String) (assigned : List (String × String)) (streams : Streams) :
    Accounted h ((Recorded.operations h).perform words assigned streams) := by
  intro w
  show Account h w (Act.perform h words assigned streams w).1 (Act.perform h words assigned streams w).2
    (commandDeeds words assigned streams w (Act.perform h words assigned streams w))
  cases words with
  | nil =>
    refine .ofChanges 0 ?_ ?_
    · simp only [commandDeeds, replay, List.foldl_map]
      rfl
    · intro d hd
      simp only [commandDeeds, List.mem_map] at hd
      obtain ⟨row, -, rfl⟩ := hd
      exact trivial
  | cons name args =>
    unfold Act.perform commandDeeds
    dsimp only
    cases hbuiltin : Builtin.builtin? name with
    | none => exact call (name :: args) assigned streams w
    | some run => exact builtin hbuiltin args streams w

end Accounted

/-- The journal accounts for all that is run. -/
theorem accounted (h : Handlers) :
    (Recorded.operations h).Related (Operations.acts h) fun x _ => Accounted h x where
  pure a := .plainly (.pure a)
  bind hx hf := .bind hx hf
  isOver := .plainly (.bind .state fun _ => .pure _)
  lastStatus := .plainly (.bind .state fun _ => .pure _)
  note := .note
  conclude := .conclude
  tested isTest _ _ hx := .tested isTest hx
  copied hx := .copied hx
  piped hx := .piped hx
  substituted hrun := .substituted hrun
  lookup _ := .plainly (.bind .state fun _ => .pure _)
  arguments _ := .plainly (.bind .state fun _ => .bind .files fun _ => .pure _)
  redirect := .redirect
  refuse _ _ := .plainly (.bind (.write _ _) fun _ => .pure 1)
  perform := .perform

/-! ## Statements -/

theorem ended_state (x : Except Stop Int × World) :
    (ended x).2.state = replay x.2.state ((statusOf? x.1).toList.map .noted) := by
  rcases x with ⟨(status | f) | status, w⟩
  · unfold ended
    dsimp only
    split
    · rename_i hzero
      rw [Bool.and_eq_true, decide_eq_true_eq] at hzero
      rw [hzero.1]
      rfl
    · rfl
  · rfl
  · rfl

namespace Recorded

variable (h : Handlers)

/-- What a statement does in a shell that has not been ended: what its pipelines do, and then their
status is noted. -/
theorem account_statement (s : Statement) {w : World} (hexited : w.state.exited = false) :
    ∃ outcome v deeds, Account h w outcome v deeds ∧
      statement h s w = (ended (outcome, v), deeds ++ (statusOf? outcome).toList.map .noted) := by
  obtain ⟨⟨⟨outcome, v⟩, deeds⟩, hrun⟩ : ∃ out, (operations h).andOr w.state.streams s w = out := ⟨_, rfl⟩
  have haccount := (accounted h).andOr w.state.streams s w
  rw [hrun] at haccount
  refine ⟨outcome, v, deeds, haccount, ?_⟩
  unfold statement
  rw [hexited, hrun]
  rfl

theorem tells_statement (s : Statement) (w : World) : Tells w (statement h s w).1.2 (statement h s w).2 := by
  cases hexited : w.state.exited with
  | true =>
    rw [show statement h s w = ((.ok (), w), []) from if_pos hexited]
    exact .ofUncalled rfl (by simp [callsOf])
  | false =>
    obtain ⟨outcome, v, deeds, haccount, hstatement⟩ := account_statement h s hexited
    rw [hstatement]
    refine haccount.tells.trans (.ofUncalled (ended_state (outcome, v)) fun past => ?_)
    cases statusOf? outcome <;> simp [callsOf, Deed.calls]

theorem tells_each (statements : List Statement) (w : World) :
    Tells w (each h statements w).1 (each h statements w).2 := by
  induction statements generalizing w with
  | nil =>
    refine .ofUncalled rfl fun past => ?_
    simp [each, callsOf]
  | cons s rest ih => exact (tells_statement h s w).trans (ih (statement h s w).1.2)

end Recorded
end Taskwork.Shell
